import SqfCheck.Catalogue
import SqfCheck.Ledger
import SqfCheck.Variable

/-!
# What names mean

The meaning of a name depends on the command catalogue and on the macros of the script. A
`Vocabulary` has both. `Vocabulary.classify` looks a name up : a command comes before a macro,
a macro before a name of the engine, and every other name is a variable.

Commands between two operands bind as strongly as `precedence` says. A name that has no place
in that table binds more strongly than a comparison and less strongly than `else`.
-/

namespace SqfCheck

/-- What the names of a script can mean. -/
structure Vocabulary where
  /-- The commands. -/
  catalogue : Catalogue := {}
  /-- The macros. -/
  ledger : Ledger := {}

/-- What a name means. -/
inductive Meaning where
  /-- A command with these overloads. -/
  | command (overloads : Overloads)
  /-- A macro. -/
  | expansion
  /-- A variable of the engine. -/
  | magic
  /-- A variable of the script. -/
  | plain
deriving DecidableEq, Repr, Inhabited

/-- How strongly a command binds its operands, by folded name ; more is stronger. -/
def precedence (name : String) : Nat :=
  ([("||", 1), ("or", 1), ("&&", 2), ("and", 2), ("==", 3), ("!=", 3), (">", 3), ("<", 3),
    (">=", 3), ("<=", 3), (">>", 3), ("else", 5), ("+", 6), ("-", 6), ("max", 6), ("min", 6),
    ("*", 7), ("/", 7), ("%", 7), ("mod", 7), ("atan2", 7), ("^", 8), ("#", 9)].lookup
    name).getD 4

namespace Vocabulary

/-- The meaning of a folded name. -/
def classify (v : Vocabulary) (name : String) : Meaning :=
  match v.catalogue.command? name with
  | some overloads => .command overloads
  | none =>
    if v.ledger.contains name then .expansion
    else if name ∈ magicNames then .magic
    else .plain

/-- How strongly the token binds as a command between two operands, if it can be one. -/
def precedence? (v : Vocabulary) (t : Token) : Option Nat :=
  match t.kind with
  | .operator => if t.text = "!" then none else some (precedence t.text)
  | .identifier =>
    if v.catalogue.supports t.name .binary then some (precedence t.name) else none
  | _ => none

/-- Whether an operand can start with the token. -/
def startsOperand (v : Vocabulary) (t : Token) : Bool :=
  match t.kind with
  | .number | .string | .leftBracket | .leftBrace | .leftParen => true
  | .operator => t.isSign
  | .identifier =>
    match v.catalogue.command? t.name with
    | some o => o.nullary || o.unary
    | none => true
  | _ => false

end Vocabulary

end SqfCheck
