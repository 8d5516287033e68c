import SqfCheck.Ledger
import SqfCheck.Text

/-!
# Directives

A line whose first character that is not blank is a number sign is a directive, and so is
every line that continues one : the line before it ends in a backslash. `Directive.blank`
gives a script with these lines emptied, so that all positions stay, and `Directive.all` reads
the directives that matter, definitions of macros and inclusions. All others are blanked and
have no effect.
-/

namespace SqfCheck

open Text

/-- A directive that has an effect. -/
inductive Directive where
  /-- A definition of a macro, with where its name stands. -/
  | definition (name : String) (arguments : Option String) (value : String) (span : Span)
  /-- An inclusion of a file, its path as written. -/
  | inclusion (file : String)
deriving DecidableEq, Repr, Inhabited

namespace Directive

/-! ## Lines -/

/-- Whether a line begins a directive. -/
def opens (line : List Char) : Bool :=
  (trimStart line).head? == some '#'

/-- The line without the carriage returns that end it. -/
def dropReturns (line : List Char) : List Char :=
  dropEndWhile (· == '\r') line

/-- Whether the directive on this line goes on in the next one. -/
def continues (line : List Char) : Bool :=
  (dropReturns line).getLast? == some '\\'

/-- The lines with those of directives emptied, where `inside` says whether the first line
continues a directive. -/
def blankLines (inside : Bool) : List (List Char) → List (List Char)
  | [] => []
  | line :: lines =>
    if inside || opens line then [] :: blankLines (continues line) lines
    else line :: blankLines false lines

/-- The script with the lines of its directives emptied. -/
def blank (source : String) : String :=
  String.ofList (['\n'].intercalate (blankLines false (splitOn '\n' source.toList)))

/-! ## Reading one directive -/

/-- The column of the macro name in a line that defines one : after the number sign and the
word that follows it. -/
def nameColumn (line : List Char) : Nat :=
  let sign := trimStart line
  let rest := trimStart ((trimStart (sign.drop 1)).dropWhile Char.isAlpha)
  line.length - rest.length + 1

/-- The definition in the text after the word that announces it, on the given line whose
first characters are `first`. -/
def readDefinition (line : Nat) (first text : List Char) : Option Directive :=
  let text := trimStart text
  let name := text.takeWhile continuesName
  if name.isEmpty then none
  else
    let (arguments, value) :=
      match text.dropWhile continuesName with
      | '(' :: rest =>
        match splitAtFirst ')' rest with
        | some (arguments, value) => (some (String.ofList (trim arguments)), value)
        | none => (some (String.ofList (trim rest)), [])
      | rest => (none, rest)
    let column := nameColumn first
    some (.definition (String.ofList name) arguments (String.ofList (trim value))
      ⟨⟨line, column⟩, ⟨line, column + name.length - 1⟩⟩)

/-- The inclusion in the text after the word that announces it : a path between double quotes
or angle brackets. -/
def readInclusion (text : List Char) : Option Directive :=
  let quoted (close : Char) (rest : List Char) : Option Directive :=
    (splitAtFirst close rest).map fun (file, _) => .inclusion (String.ofList file)
  match trim text with
  | '"' :: rest => quoted '"' rest
  | '<' :: rest => quoted '>' rest
  | _ => none

/-- The directive with the given text, which begins on the given line with `first`. -/
def read (line : Nat) (first text : List Char) : Option Directive :=
  let body := trimStart ((trimStart text).dropWhile (· == '#'))
  let (word, rest) := splitBefore isBlank body
  if word = "define".toList then readDefinition line first rest
  else if word = "include".toList then readInclusion rest
  else none

/-! ## Reading a script -/

/-- A directive of which some lines have been read. -/
structure Unfinished where
  /-- The number of its first line. -/
  line : Nat
  /-- Its first line as written. -/
  first : List Char
  /-- The text of its lines so far, each without its backslash and with a newline. -/
  text : List Char

/-- The directives in the lines, the first of which has the number `n`, after `pending`. -/
def readLines (n : Nat) (pending : Option Unfinished) : List (List Char) → List Directive
  | [] =>
    match pending with
    | some d => (read d.line d.first d.text).toList
    | none => []
  | line :: lines =>
    match pending.or (if opens line then some ⟨n, line, []⟩ else none) with
    | none => readLines (n + 1) none lines
    | some d =>
      let part := dropReturns line
      if continues line then
        readLines (n + 1) (some { d with text := d.text ++ part.dropLast ++ ['\n'] }) lines
      else
        (read d.line d.first (d.text ++ part)).toList ++ readLines (n + 1) none lines

/-- The directives of a script that have an effect, in order. -/
def all (source : String) : List Directive :=
  readLines 1 none (splitOn '\n' source.toList)

end Directive

end SqfCheck
