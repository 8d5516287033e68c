import SqfCheck.Expr
import SqfCheck.Parse

/-!
# The grammar

Statements, separated by semicolons or commas ; expressions, in which commands between two
operands bind by `precedence` and to the left ; operands, which may have signs and commands in
front ; arrays, code and parentheses. Names are looked up as they are read, for whether a name
is a command decides how the tokens after it group.

A statement that fails is dropped up to the next semicolon. A failure inside an array or inside
parentheses is repaired there, up to the bracket or parenthesis that closes it.

Every rule takes a budget that each call lowers by one, and without budget it fails at the token
under the cursor. Between two tokens that are passed at most six rules call each other, so the
budget of `Script.read`, eight for each token, is never used up.

How failures are repaired, how argument lists are read and what is done without budget is left to
the `Mode` of a run. A run that is strict or not has the mode `Mode.ofStrict`, and a flag can stand
where a mode is expected.
-/

namespace SqfCheck

namespace Grammar

open Parse

/-! ## Rules without recursion -/

/-- Whether a token of the given kind ends a list of statements that `close` ends. -/
def closes (close kind : TokenKind) : Bool :=
  kind = close || kind = .endOfInput

/-- Whether a private assignment starts at the cursor. -/
def atPrivate (c : Cursor) : Bool :=
  c.current.kind = .identifier && c.current.name == "private"
    && (c.nth 1).kind = .identifier && (c.nth 2).kind = .assign

/-- Whether an assignment to a name starts at the cursor. -/
def atAssignment (c : Cursor) : Bool :=
  c.current.kind = .identifier && (c.nth 1).kind = .assign

/-- A name that is passed and looked up. -/
def passName (v : Vocabulary) : Parse Token := do
  let t ← advance
  let _ ← resolve v t
  return t

/-- The word that makes an assignment private, if there is one to read. -/
def privateMark (v : Vocabulary) (isPrivate : Bool) : Parse Unit :=
  if isPrivate then do
    let _ ← passName v
    return ()
  else return ()

/-- A command that is passed ; a name is looked up. -/
def passCommand (v : Vocabulary) (t : Token) : Parse Token :=
  if t.kind = .identifier then passName v else advance

/-- The end of a statement : a separator, or what closes the list of statements, which is not
passed. -/
def statementEnd (close : TokenKind) : Parse Unit := do
  let t ← peek
  if Cursor.isSeparator t then do
    let _ ← advance
    return ()
  else if closes close t.kind then return ()
  else fail "';'"

/-- The argument list of a macro, read to the parenthesis that closes it. -/
def arguments : Parse Span := fun s =>
  match Cursor.skipArguments 0 s.cursor.current s.cursor.rest with
  | (cursor, some span) => .ok span { s with cursor }
  | (cursor, none) => fail "')'" { s with cursor }

/-- The parenthesis that closes, passed if it is there, or the token in its place. -/
def closingParen : Parse Span := do
  let t ← peek
  if t.kind = .rightParen then do
    let close ← advance
    return close.span
  else return t.span

/-! ## Modes -/

/-- A call of a rule, by the type of what the rule gives. -/
inductive Call : Type → Type where
  | statements (close : TokenKind) : Call (List Statement)
  | statement (close : TokenKind) : Call Statement
  | statementBody (isPrivate : Bool) : Call Statement
  | expression (least : Nat) : Call Expr
  | operations (least : Nat) (left : Expr) : Call Expr
  | operand : Call Expr
  | named : Call Expr
  | array : Call Expr
  | elements : Call (List Expr × Span)
  | moreElements (failure : Diagnostic) : Call (List Expr × Span)
  | code : Call Expr
  | paren : Call Expr

/-- What the rules leave to the kind of run. -/
structure Mode where
  /-- A failure is repaired up to a kind of token, which is dropped too or not. -/
  recover : Diagnostic → TokenKind → Bool → Parse TokenKind
  /-- The argument list of a macro is read. -/
  arguments : Parse Span
  /-- A rule is called that there is no budget for. -/
  exhausted : ∀ {α : Type}, Call α → Parse α

/-- The mode of a run that is strict or not. -/
@[reducible]
def Mode.ofStrict (strict : Bool) : Mode where
  recover := Parse.recover strict
  arguments := Grammar.arguments
  exhausted _ := fail "an expression"

instance : Coe Bool Mode := ⟨Mode.ofStrict⟩

/-- A macro whose name was passed, with its arguments if it has any. -/
def expansion (m : Mode) (name : Token) : Parse Expr := do
  let t ← peek
  if t.kind = .leftParen then do
    let close ← m.arguments
    return .expansion name (name.span.through close)
  else return .expansion name name.span

/-- What stands between parentheses, given how reading it ended. A failure, and an expression
that the parenthesis does not follow, are repaired. -/
def parenInner (m : Mode) : Except Diagnostic Expr → Parse Expr
  | .ok inner => do
    let t ← peek
    if t.kind = .rightParen then return inner
    else do
      let _ ← m.recover (t.unexpected "')'") .rightParen false
      return inner
  | .error failure => do
    let _ ← m.recover failure .rightParen false
    return .invalid failure.span

/-! ## Rules -/

mutual

/-- Statements up to what closes them, which is not passed. -/
def statements (v : Vocabulary) (m : Mode) :
    Nat → TokenKind → Parse (List Statement)
  | 0, close => m.exhausted (.statements close)
  | fuel + 1, close => do
    move (·.dropWhile Cursor.isSeparator)
    let t ← peek
    if closes close t.kind then return []
    else do
      let outcome ← attempt (statement v m fuel close)
      match outcome with
      | .ok s => do
        let ss ← statements v m fuel close
        return s :: ss
      | .error failure => do
        let stop ← m.recover failure .semicolon true
        if stop = .endOfInput then return []
        else statements v m fuel close

/-- One statement with its end. -/
def statement (v : Vocabulary) (m : Mode) : Nat → TokenKind → Parse Statement
  | 0, close => m.exhausted (.statement close)
  | fuel + 1, close => do
    let c ← cursor
    privateMark v (atPrivate c)
    let s ← statementBody v m fuel (atPrivate c)
    statementEnd close
    return s

/-- One statement without its end : an assignment to a name, an assignment to a macro, or an
expression. -/
def statementBody (v : Vocabulary) (m : Mode) : Nat → Bool → Parse Statement
  | 0, isPrivate => m.exhausted (.statementBody isPrivate)
  | fuel + 1, isPrivate => do
    let c ← cursor
    if atAssignment c then do
      let target ← passName v
      let _ ← advance
      let value ← expression v m fuel 0
      return .assignment isPrivate (.reference target) value
    else do
      let e ← expression v m fuel 0
      let t ← peek
      if t.kind = .assign && e.isExpansion then do
        let _ ← advance
        let value ← expression v m fuel 0
        return .assignment isPrivate e value
      else return .expression e

/-- An expression of commands that bind at least as strongly as `least`. -/
def expression (v : Vocabulary) (m : Mode) : Nat → Nat → Parse Expr
  | 0, least => m.exhausted (.expression least)
  | fuel + 1, least => do
    let left ← operand v m fuel
    operations v m fuel least left

/-- The expression that starts with the operand `left`, as far as the commands after it bind at
least as strongly as `least`. -/
def operations (v : Vocabulary) (m : Mode) : Nat → Nat → Expr → Parse Expr
  | 0, least, left => m.exhausted (.operations least left)
  | fuel + 1, least, left => do
    let t ← peek
    match v.precedence? t with
    | none => return left
    | some p =>
      if p < least then return left
      else do
        let op ← passCommand v t
        let right ← expression v m fuel (p + 1)
        operations v m fuel least (.binary left op right)

/-- An operand with the signs and commands in front of it. -/
def operand (v : Vocabulary) (m : Mode) : Nat → Parse Expr
  | 0 => m.exhausted .operand
  | fuel + 1 => do
    let t ← peek
    if t.isSign then do
      let op ← advance
      let right ← operand v m fuel
      return .unary op right
    else match t.kind with
      | .identifier => named v m fuel
      | .number => do
        let t ← advance
        return .number t
      | .string => do
        let t ← advance
        return .string t
      | .leftBracket => array v m fuel
      | .leftBrace => code v m fuel
      | .leftParen => paren v m fuel
      | _ => fail "an expression"

/-- What a name starts : a command with the operand it takes, a macro or a variable. -/
def named (v : Vocabulary) (m : Mode) : Nat → Parse Expr
  | 0 => m.exhausted .named
  | fuel + 1 => do
    let t ← advance
    let meaning ← resolve v t
    match meaning with
    | .command o => do
      let next ← peek
      if o.takesOperand && v.startsOperand next then do
        let right ← operand v m fuel
        return .unary t right
      else return .nullary t
    | .expansion => expansion m t
    | .magic => return .reference t
    | .plain => return .reference t

/-- An array. -/
def array (v : Vocabulary) (m : Mode) : Nat → Parse Expr
  | 0 => m.exhausted .array
  | fuel + 1 => do
    let opening ← advance
    let (es, close) ← elements v m fuel
    return .array es (opening.span.through close)

/-- The elements of an array with the span of the bracket that closes it, or of the end. -/
def elements (v : Vocabulary) (m : Mode) : Nat → Parse (List Expr × Span)
  | 0 => m.exhausted .elements
  | fuel + 1 => do
    let t ← peek
    match t.kind with
    | .rightBracket => do
      let close ← advance
      return ([], close.span)
    | .endOfInput => fail "']'"
    | _ => do
      let outcome ← attempt (expression v m fuel 0)
      let next ← peek
      match outcome with
      | .ok e =>
        match next.kind with
        | .comma => do
          let _ ← advance
          let (es, close) ← elements v m fuel
          return (e :: es, close)
        | .rightBracket => do
          let close ← advance
          return ([e], close.span)
        | _ => do
          let (es, close) ← moreElements v m fuel (next.unexpected "',' or ']'")
          return (e :: es, close)
      | .error failure => moreElements v m fuel failure

/-- What is left of an array after a failure in it. -/
def moreElements (v : Vocabulary) (m : Mode) :
    Nat → Diagnostic → Parse (List Expr × Span)
  | 0, failure => m.exhausted (.moreElements failure)
  | fuel + 1, failure => do
    let stop ← m.recover failure .rightBracket false
    if stop = .endOfInput then do
      let t ← peek
      return ([], t.span)
    else elements v m fuel

/-- A block of code. -/
def code (v : Vocabulary) (m : Mode) : Nat → Parse Expr
  | 0 => m.exhausted .code
  | fuel + 1 => do
    let opening ← advance
    let body ← statements v m fuel .rightBrace
    let close ← expect .rightBrace
    return .code body (opening.span.through close.span)

/-- An expression between parentheses. -/
def paren (v : Vocabulary) (m : Mode) : Nat → Parse Expr
  | 0 => m.exhausted .paren
  | fuel + 1 => do
    let opening ← advance
    let outcome ← attempt (expression v m fuel 0)
    let inner ← parenInner m outcome
    let close ← closingParen
    return .paren inner (opening.span.through close)

end

end Grammar

namespace Script

/-- The rule for a whole script. -/
def rule (v : Vocabulary) (m : Grammar.Mode) (fuel : Nat) : Parse Script := do
  let first ← Parse.peek
  let statements ← Grammar.statements v m fuel .endOfInput
  let last ← Parse.peek
  return ⟨statements, first.span.through last.span⟩

/-- The script that the tokens make, and the journal with what was found. There is no script
only if the run is strict or was aborted before, and then the failure that ended it is given. -/
def read (v : Vocabulary) (strict : Bool) (tokens : List Token) (journal : Journal) :
    Except Diagnostic Script × Journal :=
  let cursor := Cursor.ofTokens tokens
  match rule v strict (8 * (cursor.rest.length + 1)) { cursor, journal } with
  | .ok script s => (.ok script, s.journal)
  | .error failure s => (.error failure, s.journal)

end Script

end SqfCheck
