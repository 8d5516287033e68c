import SqfCheck.Cursor
import SqfCheck.Journal

/-!
# Reading tokens

A rule of the grammar is a `Parse` : it moves a cursor over tokens, writes to the journal of the
run, and either gives a value or fails with a diagnostic. A rule that fails keeps what it has
read and written.

After a failure reading goes on behind the fault (`Parse.recover`). The token under the cursor
is dropped, then all up to the next token of the wanted kind. In a strict run nothing is
repaired : the first failure is written down, the run is aborted, and every rule passes the
failure on.
-/

namespace SqfCheck

/-- What a rule of the grammar works on. -/
structure ParseState where
  /-- The tokens still to read. -/
  cursor : Cursor
  /-- What was found. -/
  journal : Journal := {}
deriving Inhabited

/-- A rule of the grammar. -/
abbrev Parse := EStateM Diagnostic ParseState

/-- The complaint about the token `t` where `expected` should stand. -/
def Token.unexpected (t : Token) (expected : String) : Diagnostic :=
  .ofSyntax t.span <|
    match t.kind with
    | .invalid => t.invalidReason
    | .endOfInput => "unexpected end of input, expected " ++ expected
    | _ => "unexpected '" ++ t.text ++ "', expected " ++ expected

namespace Parse

/-- Where the rule stands. -/
def cursor : Parse Cursor := fun s =>
  .ok s.cursor s

/-- The token under the cursor. -/
def peek : Parse Token := fun s =>
  .ok s.cursor.current s

/-- The token under the cursor, which is then passed. -/
def advance : Parse Token := fun s =>
  .ok s.cursor.current { s with cursor := s.cursor.advance }

/-- Moves the cursor. -/
def move (f : Cursor → Cursor) : Parse Unit := fun s =>
  .ok () { s with cursor := f s.cursor }

/-- Fails at the token under the cursor. -/
def fail {α : Type} (expected : String) : Parse α := fun s =>
  .error (s.cursor.current.unexpected expected) s

/-- The outcome of a rule, whether it fails or not. -/
def attempt {α : Type} (p : Parse α) : Parse (Except Diagnostic α) := fun s =>
  match p s with
  | .ok a s => .ok (.ok a) s
  | .error d s => .ok (.error d) s

/-- Looks up the name of a token that was just passed. -/
def resolve (v : Vocabulary) (t : Token) : Parse Meaning := fun s =>
  let (meaning, journal) := s.journal.resolve v t s.cursor.current
  .ok meaning { s with journal }

/-- The token under the cursor if it has the given kind, which is then passed. -/
def expect (kind : TokenKind) : Parse Token := fun s =>
  if s.cursor.current.kind = kind then advance s else fail kind.describe s

/-- Whether a token ends a recovery up to `boundary`. -/
def stopsAt (boundary : TokenKind) (t : Token) : Bool :=
  t.kind = boundary || t.kind = .endOfInput

/-- Writes down the failure and drops the token under the cursor and all up to the next one of
kind `boundary`, that one too if `skip` says so. The value is the kind of the token that ended
it, `boundary` or the end. A strict or aborted run fails instead, and only a run that is not
aborted writes the failure down. -/
def recover (strict : Bool) (failure : Diagnostic) (boundary : TokenKind) (skip : Bool) :
    Parse TokenKind := fun s =>
  if s.journal.aborted then .error failure s
  else if strict then .error failure { s with journal := (s.journal.report failure).abort }
  else
    let stop := s.cursor.advance.dropWhile fun t => !stopsAt boundary t
    let next := if skip then stop.advance else stop
    let repair : Repair := ⟨failure, boundary, skip, s.cursor.upTo next⟩
    .ok stop.current.kind ⟨next, s.journal.repaired repair⟩

end Parse

end SqfCheck
