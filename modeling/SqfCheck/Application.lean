import SqfCheck.Expr
import SqfCheck.Journal

/-!
# Applications of commands

An `Application` is a command with its operands, each with the type it was found to have. Two
things are checked about it : that the command takes operands in these places
(`Application.arityComplaint`), and what the rule of the command says about them
(`Operator.check`). Here a check gives the entries that the journal of the run is to have ; in a
walk it writes them there (`Walk.check`). The wording of complaints is the same for both.
-/

namespace SqfCheck

/-- An operand with its type. -/
structure Operand where
  /-- The type it was found to have. -/
  type : OperandType
  /-- The operand itself. -/
  expr : Expr
deriving Inhabited

/-- A command with the operands that were written. -/
structure Application where
  /-- The command. -/
  op : Token
  /-- The operand before it. -/
  left : Option Operand
  /-- The operand after it. -/
  right : Option Operand
deriving Inhabited

/-- Where files that commands load have to be. -/
structure PathCheck where
  /-- Where the paths begin. -/
  root : Path
  /-- Whether a file stands at a path. -/
  isFile : Path → Bool

/-- A complaint about an operand. -/
def Entry.typeMismatch (span : Span) (message : String) : Entry :=
  .diagnostic (.error .typeMismatch span message)

namespace Operand

/-- Whether the operand has the wanted type, or one that is not known. -/
def mayBe (o : Operand) (wanted : OperandType) : Bool :=
  o.type = wanted || o.type = .any

/-- Where the operand stands. -/
def span (o : Operand) : Span :=
  o.expr.span

end Operand

namespace Application

/-- The places in which the application has operands. -/
def arity (a : Application) : Arity :=
  match a.left, a.right with
  | none, none => .nullary
  | none, some _ => .unary
  | some _, _ => .binary

/-- Where the application stands. -/
def span (a : Application) : Span :=
  ((a.left.map Operand.span).getD a.op.span).through ((a.right.map Operand.span).getD a.op.span)

/-- Whether the application has the operands of some overload. -/
def fits (a : Application) (o : Overloads) : Bool :=
  o.supports a.arity && (a.arity ≠ .binary || a.right.isSome)

/-- What is wrong with the number of operands. -/
def arityMessage (a : Application) (o : Overloads) : String :=
  let name := "'" ++ a.op.text ++ "'"
  match a.arity with
  | .nullary =>
    if o.unary then name ++ " requires an argument"
    else name ++ " requires left and right arguments"
  | .unary =>
    if o.binary then name ++ " requires a left argument"
    else name ++ " does not take arguments"
  | .binary =>
    if a.right.isNone then name ++ " requires a right argument"
    else if o.unary then name ++ " does not take a left argument"
    else name ++ " does not take arguments"

/-- The complaint about the number of operands, if no overload has them. -/
def arityComplaint (a : Application) (o : Overloads) : Option Diagnostic :=
  if a.fits o then none
  else some (.error .arityMismatch a.span (a.arityMessage o))

end Application

namespace Operator

/-! ## Wording -/

/-- The operand on one side has a type that is not among those expected. -/
def sideMessage (types : TypeSet) (side : String) (op : Token) (type : OperandType) : String :=
  "Type " ++ type.name ++ " is not accepted as " ++ side ++ " argument of '" ++ op.text
    ++ "', expected " ++ types.describe

/-- A condition is no boolean. -/
def conditionMessage (op : Token) (type : OperandType) : String :=
  "Condition of '" ++ op.text ++ "' must be Boolean, got " ++ type.name

/-- What stands before is no condition. -/
def followsMessage (op : Token) (type : OperandType) : String :=
  "'" ++ op.text ++ "' must follow an if condition, got " ++ type.name

/-- A branch is no code. -/
def branchMessage (op : Token) (type : OperandType) : String :=
  "Branch of '" ++ op.text ++ "' must be Code, got " ++ type.name

/-- There are no branches, or too many. -/
def branchesMessage (op : Token) (count : Nat) : String :=
  "'" ++ op.text ++ "' expects one or two code branches, got " ++ toString count

/-- What follows a condition is neither code nor an array. -/
def thenMessage (op : Token) (type : OperandType) : String :=
  "'" ++ op.text ++ "' expects code or an array of code, got " ++ type.name

/-- What leaves a scope is no code. -/
def leaveMessage (op : Token) (type : OperandType) : String :=
  "'" ++ op.text ++ "' expects Code, got " ++ type.name

/-- A parameter has the name of a variable that is not local. -/
def parameterNameMessage (name : String) : String :=
  "Parameter '" ++ name ++ "' must be a local variable name starting with '_'"

/-- A parameter is an array that does not start with a name. -/
def unnamedParameterMessage : String :=
  "Parameter definition must start with a variable name string"

/-- A parameter is neither a name nor an array. -/
def parameterMessage : String :=
  "Parameter must be a variable name string or a definition array"

/-- A file to load is missing. -/
def fileMessage (written : String) (root : Path) : String :=
  "File '" ++ written ++ "' not found under " ++ root.text

/-! ## Operand types -/

/-- The complaint about the operand on one side, if the types there do not include its type. -/
def checkSide (types : TypeSet) (side : String) (op : Token) : Option Operand → List Entry
  | none => []
  | some o =>
    if types.accepts o.type then []
    else [.typeMismatch o.span (sideMessage types side op o.type)]

/-- The complaints about operand types that the catalogue does not list. -/
def checkTypes (o : Operator) (a : Application) : List Entry :=
  checkSide o.left "left" a.op a.left ++ checkSide o.right "right" a.op a.right

/-! ## Conditions and what follows them -/

/-- A condition is a boolean. -/
def checkCondition (a : Application) : List Entry :=
  match a.right with
  | none => []
  | some o =>
    if o.mayBe .boolean then []
    else [.typeMismatch o.span (conditionMessage a.op o.type)]

/-- What stands before is a condition. -/
def checkFollows (a : Application) : List Entry :=
  match a.left with
  | none => []
  | some o =>
    if o.mayBe .ifType then []
    else [.typeMismatch o.span (followsMessage a.op o.type)]

/-- A branch is code, as far as it is a literal. -/
def checkBranch (op : Token) (branch : Expr) : List Entry :=
  if branch.literalType = .code ∨ branch.literalType = .any then []
  else [.typeMismatch branch.span (branchMessage op branch.literalType)]

/-- There are one or two branches, and each is code. -/
def checkBranches (op : Token) (body : Operand) : List Entry :=
  match body.expr.elements? with
  | none => []
  | some branches =>
    if branches.isEmpty || branches.length > 2 then
      [.typeMismatch body.span (branchesMessage op branches.length)]
    else branches.flatMap (checkBranch op)

/-- What follows a condition is code, or an array of branches. -/
def checkThen (a : Application) : List Entry :=
  checkFollows a ++
    match a.right with
    | none => []
    | some o =>
      match o.type with
      | .code | .any => []
      | .array => checkBranches a.op o
      | t => [.typeMismatch o.span (thenMessage a.op t)]

/-- What leaves a scope on a condition is code. -/
def checkLeave (a : Application) : List Entry :=
  checkFollows a ++
    match a.right with
    | none => []
    | some o =>
      if o.mayBe .code then []
      else [.typeMismatch o.span (leaveMessage a.op o.type)]

/-! ## Parameters -/

/-- The variable that a parameter name defines. An empty name skips a parameter. -/
def parameterName (t : Token) : List Entry :=
  match t.stringValue with
  | none => []
  | some name =>
    if name = "" then []
    else if isLocalName name then [.definition name t]
    else [.typeMismatch t.span (parameterNameMessage name)]

/-- What one element of a list of parameters defines : a name, or an array that starts with
one. A macro may stand in either place. -/
def parameter (e : Expr) : List Entry :=
  match e.bare with
  | .string t => parameterName t
  | .array elements span =>
    match elements.head?.map Expr.bare with
    | some (.string t) => parameterName t
    | some (.expansion _ _) => []
    | _ => [.typeMismatch span unnamedParameterMessage]
  | .expansion _ _ => []
  | other => [.typeMismatch other.span parameterMessage]

/-- What a list of parameters defines, if it is an array literal. -/
def checkParameters (a : Application) : List Entry :=
  match a.right.bind (·.expr.elements?) with
  | none => []
  | some list => list.flatMap parameter

/-! ## Files -/

/-- The file that a string literal names exists. -/
def checkFile (paths : Option PathCheck) (a : Application) : List Entry :=
  match paths, a.right with
  | some check, some o =>
    match o.expr.stringToken?.bind Token.stringValue with
    | none => []
    | some written =>
      if check.isFile (check.root.join (Path.ofScript written)) then []
      else [.diagnostic (.error .missingFile o.span (fileMessage written check.root))]
  | _, _ => []

/-! ## All rules -/

/-- What the rule of the command has to say about an application of it. -/
def check (o : Operator) (paths : Option PathCheck) (a : Application) : List Entry :=
  match o.rule with
  | .types => o.checkTypes a
  | .condition => checkCondition a
  | .branches => checkThen a
  | .leaves => checkLeave a
  | .parameters => o.checkTypes a ++ checkParameters a
  | .loader => o.checkTypes a ++ checkFile paths a

end Operator

end SqfCheck
