import SqfCheck.Application
import SqfCheck.Files
import SqfCheck.Options

/-!
# Types of expressions

`Expr.typed` gives the type of an expression together with the entries that a walk over it adds to
the journal : those of the operands of a command first, from left to right, then those of the
command itself. A walk does the same with a run in hand (`Walk.expr`).

The type of a command's value is known for some commands by name (`resultType`), and for
arithmetic from the operands ; it is any type otherwise.
-/

namespace SqfCheck

/-- What the walk over expressions needs to know. -/
structure Checker where
  /-- The commands. -/
  catalogue : Catalogue := {}
  /-- Where files have to be, if that is to be checked. -/
  paths : Option PathCheck := none

/-- The checker that the options ask for. -/
def Checker.ofOptions (catalogue : Catalogue) (options : Options) (files : Files) : Checker where
  catalogue := catalogue
  paths := if options.checkPaths then some ⟨options.root, files.isFile⟩ else none

/-- The type of an expression and what the walk over it found. -/
structure Typed where
  /-- The type. -/
  type : OperandType
  /-- What was found, in order. -/
  entries : List Entry := []
deriving Inhabited

/-! ## Types of values -/

/-- The commands whose value has one type, by folded name. -/
def fixedResults : List (String × OperandType) :=
  [("if", .ifType), ("for", .forType), ("from", .forType), ("to", .forType),
    ("step", .forType), ("while", .whileType), ("switch", .switchType), ("with", .withType),
    ("try", .exceptionType), ("else", .array), ("compile", .code), ("compilefinal", .code),
    ("true", .boolean), ("false", .boolean), ("!", .boolean), ("not", .boolean),
    ("==", .boolean), ("!=", .boolean), ("<", .boolean), (">", .boolean), ("<=", .boolean),
    (">=", .boolean), ("&&", .boolean), ("and", .boolean), ("||", .boolean), ("or", .boolean),
    ("isnil", .boolean), ("isnull", .boolean), ("alive", .boolean), ("isequalto", .boolean),
    ("in", .boolean), ("isserver", .boolean), ("hasinterface", .boolean),
    ("isdedicated", .boolean), ("str", .string), ("format", .string), ("typename", .string),
    ("tolower", .string), ("toupper", .string), ("joinstring", .string),
    ("localize", .string), ("count", .number), ("random", .number), ("floor", .number),
    ("ceil", .number), ("round", .number), ("abs", .number), ("sqrt", .number),
    ("distance", .number), ("time", .number), ("diag_ticktime", .number),
    ("servertime", .number)]

/-- The commands whose value has the type of their operands. -/
def arithmetic : List String :=
  ["+", "-", "*", "/", "%", "^", "mod", "max", "min"]

/-- The type of a command's value, by its folded name and the types of its operands. -/
def resultType (name : String) (left right : Option OperandType) : OperandType :=
  match fixedResults.lookup name with
  | some t => t
  | none =>
    if name ∈ arithmetic then
      match left, right with
      | some l, some r => if l = r then l else .any
      | none, some r => r
      | _, none => .any
    else .any

/-! ## The walk -/

/-- The loop counter that a string after the word `for` defines. -/
def loopCounter (a : Application) : List Entry :=
  if a.op.name = "for" ∧ a.left.isNone then
    match a.right.bind (·.expr.stringToken?) with
    | none => []
    | some t =>
      match t.stringValue with
      | none => []
      | some name => if isLocalName name then [.definition name t] else []
  else []

namespace Checker

/-- What is found about an application whose operands were walked over. Operands are only
looked at if the command takes them. -/
def checkApplication (c : Checker) (a : Application) : List Entry :=
  match (c.catalogue.command? a.op.name).bind a.arityComplaint with
  | some complaint => [.diagnostic complaint]
  | none =>
    (match c.catalogue.operator? a.op.name with
      | some operator => operator.check c.paths a
      | none => [])
    ++ loopCounter a

/-- The type of an application and what was found about it. -/
def applied (c : Checker) (a : Application) : Typed where
  type := resultType a.op.name (a.left.map Operand.type) (a.right.map Operand.type)
  entries := c.checkApplication a

end Checker

/-- The same type, with more found before it. -/
def Typed.after (t : Typed) (entries : List Entry) : Typed :=
  { t with entries := entries ++ t.entries }

mutual

/-- The type of an expression and what is found in it. -/
def Expr.typed (c : Checker) : Expr → Typed
  | .number _ => ⟨.number, []⟩
  | .string _ => ⟨.string, []⟩
  | .reference _ | .expansion _ _ | .invalid _ => ⟨.any, []⟩
  | .array elements _ => ⟨.array, entriesOfExprs c elements⟩
  | .code body _ => ⟨.code, entriesOfStatements c body⟩
  | .paren inner _ => inner.typed c
  | .nullary op => c.applied ⟨op, none, none⟩
  | .unary op right =>
    let r := right.typed c
    (c.applied ⟨op, none, some ⟨r.type, right⟩⟩).after r.entries
  | .binary left op right =>
    let l := left.typed c
    let r := right.typed c
    (c.applied ⟨op, some ⟨l.type, left⟩, some ⟨r.type, right⟩⟩).after (l.entries ++ r.entries)
  | .dangling left op =>
    let l := left.typed c
    (c.applied ⟨op, some ⟨l.type, left⟩, none⟩).after l.entries

/-- What is found in expressions, one after the other. -/
def entriesOfExprs (c : Checker) : List Expr → List Entry
  | [] => []
  | e :: es => (e.typed c).entries ++ entriesOfExprs c es

/-- What is found in a statement : in the value it computes. -/
def Statement.entries (c : Checker) : Statement → List Entry
  | .assignment _ _ value => (value.typed c).entries
  | .expression value => (value.typed c).entries

/-- What is found in statements, one after the other. -/
def entriesOfStatements (c : Checker) : List Statement → List Entry
  | [] => []
  | s :: ss => s.entries c ++ entriesOfStatements c ss

end

end SqfCheck
