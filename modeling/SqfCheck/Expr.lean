import SqfCheck.OperandType
import SqfCheck.Token

/-!
# Statements and expressions

The tree of a script. A command stands in it with the operands that were written : none, one
to the right, one on either side, or one to the left only, which no script gives but which can
be checked like the others. Nodes keep their tokens, so the span of an expression can be read
off it (`Expr.span`).

Parentheses are nodes of their own. What an expression is as a literal is asked of it without
them (`Expr.bare`).
-/

namespace SqfCheck

mutual

/-- An expression. -/
inductive Expr where
  /-- A number. -/
  | number (token : Token)
  /-- A string literal. -/
  | string (token : Token)
  /-- A variable. -/
  | reference (token : Token)
  /-- A macro, with the span of its name and its arguments. -/
  | expansion (name : Token) (span : Span)
  /-- An array, between brackets. -/
  | array (elements : List Expr) (span : Span)
  /-- A block of code, between braces. -/
  | code (body : List Statement) (span : Span)
  /-- An expression between parentheses. -/
  | paren (inner : Expr) (span : Span)
  /-- A command without operands. -/
  | nullary (op : Token)
  /-- A command with an operand to the right. -/
  | unary (op : Token) (right : Expr)
  /-- A command with an operand on either side. -/
  | binary (left : Expr) (op : Token) (right : Expr)
  /-- A command with an operand to the left only. -/
  | dangling (left : Expr) (op : Token)
  /-- What stands in for text that is no expression. -/
  | invalid (span : Span)

/-- A statement. -/
inductive Statement where
  /-- A value given to a variable or to what a macro stands for. -/
  | assignment (isPrivate : Bool) (target value : Expr)
  /-- An expression by itself. -/
  | expression (value : Expr)

end

instance : Inhabited Expr := ⟨.invalid default⟩

instance : Inhabited Statement := ⟨.expression default⟩

/-- A whole script. -/
structure Script where
  /-- Its statements in order. -/
  statements : List Statement
  /-- From its first token to its end. -/
  span : Span
deriving Inhabited

/-- The expression whose value the statement computes. -/
def Statement.value : Statement → Expr
  | assignment _ _ value => value
  | expression value => value

namespace Expr

/-- The application of a command to the operands there are. -/
def command (op : Token) : Option Expr → Option Expr → Expr
  | none, none => nullary op
  | none, some right => unary op right
  | some left, some right => binary left op right
  | some left, none => dangling left op

/-- Where the expression stands, from its first to its last token. -/
def span : Expr → Span
  | number t | string t | reference t | nullary t => t.span
  | expansion _ s | array _ s | code _ s | paren _ s | invalid s => s
  | unary op right => op.span.through right.span
  | binary left _ right => left.span.through right.span
  | dangling left op => left.span.through op.span

/-- The expression without the parentheses around it. -/
def bare : Expr → Expr
  | paren inner _ => inner.bare
  | e => e

/-- Whether the expression is a macro. -/
def isExpansion : Expr → Bool
  | expansion _ _ => true
  | _ => false

/-- The elements, if the expression is an array literal. -/
def elements? (e : Expr) : Option (List Expr) :=
  match e.bare with
  | array elements _ => some elements
  | _ => none

/-- The token, if the expression is a string literal. -/
def stringToken? (e : Expr) : Option Token :=
  match e.bare with
  | string t => some t
  | _ => none

/-- The type that the expression has as a literal ; any type if it is none. -/
def literalType (e : Expr) : OperandType :=
  match e.bare with
  | number _ => .number
  | string _ => .string
  | array _ _ => .array
  | code _ _ => .code
  | _ => .any

end Expr

end SqfCheck
