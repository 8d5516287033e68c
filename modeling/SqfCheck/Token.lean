import SqfCheck.Span
import SqfCheck.Text

/-!
# Tokens of SQF

A `Token` has a kind, the text it was cut from, the span of that text and the comment that
stands before it. Every text gives tokens : input that makes no sense is a token of kind
`invalid`, and the grammar reports it (`Token.invalidReason`).

A string literal is written between two quotes of one sort, with each quote of that sort
inside it doubled. `quoteString` writes one and `Token.stringValue` reads it back.
-/

namespace SqfCheck

/-- The kinds of token. -/
inductive TokenKind where
  /-- A name : of a command, a variable or a macro. -/
  | identifier
  /-- A decimal or hexadecimal literal. -/
  | number
  /-- A string literal, its quotes included. -/
  | string
  | assign
  | semicolon
  | comma
  | leftBracket
  | rightBracket
  | leftBrace
  | rightBrace
  | leftParen
  | rightParen
  /-- A symbol that is a command, such as a plus sign. -/
  | operator
  /-- Text that is no token of the language. -/
  | invalid
  /-- The end of the text. -/
  | endOfInput
deriving DecidableEq, Repr, Inhabited

namespace TokenKind

/-- How messages name the kind. -/
def describe : TokenKind → String
  | identifier => "identifier"
  | number => "number"
  | string => "string"
  | assign => "'='"
  | semicolon => "';'"
  | comma => "','"
  | leftBracket => "'['"
  | rightBracket => "']'"
  | leftBrace => "'\x7b'"
  | rightBrace => "'\x7d'"
  | leftParen => "'('"
  | rightParen => "')'"
  | operator => "operator"
  | invalid => "invalid input"
  | endOfInput => "end of input"

end TokenKind

/-- A comment with its delimiters. -/
structure Comment where
  /-- The comment as written. -/
  text : String
  /-- Where it stands. -/
  span : Span
deriving DecidableEq, Repr, Inhabited

/-- One token of a script. -/
structure Token where
  /-- What sort of token it is. -/
  kind : TokenKind
  /-- The token as written. -/
  text : String
  /-- Where it stands. -/
  span : Span
  /-- The first of the comments directly before it. -/
  comment : Option Comment
deriving DecidableEq, Repr, Inhabited

/-! ## String literals -/

/-- The text `cs` with each `quote` in it doubled. -/
def doubleQuotes (quote : Char) (cs : List Char) : List Char :=
  cs.flatMap fun c => if c = quote then [c, c] else [c]

/-- The text `cs` with each pair of neighbouring `quote`s, read from the left, made one. -/
def undoubleQuotes (quote : Char) : List Char → List Char
  | c :: d :: cs =>
    if c = quote ∧ d = quote then quote :: undoubleQuotes quote cs
    else c :: undoubleQuotes quote (d :: cs)
  | cs => cs

/-- The string literal between quotes `quote` whose value is `cs`. -/
def quoteString (quote : Char) (cs : List Char) : List Char :=
  quote :: (doubleQuotes quote cs ++ [quote])

namespace Token

/-- The token's text with case folded, the form in which names are looked up. -/
def name (t : Token) : String :=
  foldCase t.text

/-- Whether the token is the operator written `symbol`. -/
def isOperator (t : Token) (symbol : String) : Bool :=
  t.kind = .operator && t.text == symbol

/-- Whether the token is an operator that may stand before its only operand. -/
def isSign (t : Token) : Bool :=
  t.isOperator "!" || t.isOperator "-" || t.isOperator "+"

/-- The value of a string literal : the quotes at the ends dropped and doubled quotes made
one. Other tokens have none. -/
def stringValue (t : Token) : Option String :=
  match t.kind, t.text.toList with
  | .string, quote :: c :: cs =>
    some (String.ofList (undoubleQuotes quote (c :: cs).dropLast))
  | _, _ => none

/-- What is wrong with an invalid token. -/
def invalidReason (t : Token) : String :=
  match t.text.toList with
  | '"' :: _ | '\'' :: _ => "unterminated string literal"
  | '/' :: '*' :: _ => "unterminated block comment"
  | _ => "unexpected character '" ++ t.text ++ "'"

/-- The end of the text, at `span`. -/
def ending (span : Span) (comment : Option Comment) : Token :=
  ⟨.endOfInput, "", span, comment⟩

end Token

end SqfCheck
