import SqfCheck.Run
import SqfCheck.Typing

/-!
# The walk over a script

A `Walk` takes a run with it : it asks the run for its commands, its options and its files, and it
writes down what it finds. `Walk.block` walks over statements, `Walk.expr` over an expression, whose
type it comes to. Operands are walked over from left to right. Then the command is checked, if it
takes operands in these places, by its rule (`Walk.check`).
-/

namespace SqfCheck

/-- A part of a walk, which reads a run and writes to it. -/
abbrev Walk := StateM Run

namespace Walk

/-- A complaint is written down. -/
def record (d : Diagnostic) : Walk Unit :=
  modify (Run.record d)

/-- A definition is written down that is no assignment. -/
def defineLocal (t : Token) (name : String) : Walk Unit :=
  modify (Run.defineLocal t name)

/-- A complaint about an operand is written down. -/
def mismatch (span : Span) (message : String) : Walk Unit :=
  record (.error .typeMismatch span message)

/-! ## Operand types -/

/-- The types on one side include that of the operand there. -/
def checkSide (types : TypeSet) (side : String) (op : Token) : Option Operand → Walk Unit
  | none => return ()
  | some o =>
    if types.accepts o.type then return ()
    else mismatch o.span (Operator.sideMessage types side op o.type)

/-- The catalogue lists the types of the operands. -/
def checkTypes (o : Operator) (a : Application) : Walk Unit := do
  checkSide o.left "left" a.op a.left
  checkSide o.right "right" a.op a.right

/-! ## Conditions and what follows them -/

/-- A condition is a boolean. -/
def checkCondition (a : Application) : Walk Unit :=
  match a.right with
  | none => return ()
  | some o =>
    if o.mayBe .boolean then return ()
    else mismatch o.span (Operator.conditionMessage a.op o.type)

/-- What stands before is a condition. -/
def checkFollows (a : Application) : Walk Unit :=
  match a.left with
  | none => return ()
  | some o =>
    if o.mayBe .ifType then return ()
    else mismatch o.span (Operator.followsMessage a.op o.type)

/-- A branch is code, as far as it is a literal. -/
def checkBranch (op : Token) (branch : Expr) : Walk Unit :=
  if branch.literalType = .code ∨ branch.literalType = .any then return ()
  else mismatch branch.span (Operator.branchMessage op branch.literalType)

/-- There are one or two branches, and each is code. -/
def checkBranches (op : Token) (body : Operand) : Walk Unit :=
  match body.expr.elements? with
  | none => return ()
  | some branches =>
    if branches.isEmpty || branches.length > 2 then
      mismatch body.span (Operator.branchesMessage op branches.length)
    else branches.forM (checkBranch op)

/-- What follows a condition is code, or an array of branches. -/
def checkThen (a : Application) : Walk Unit := do
  checkFollows a
  match a.right with
  | none => return ()
  | some o =>
    match o.type with
    | .code | .any => return ()
    | .array => checkBranches a.op o
    | t => mismatch o.span (Operator.thenMessage a.op t)

/-- What leaves a scope on a condition is code. -/
def checkLeave (a : Application) : Walk Unit := do
  checkFollows a
  match a.right with
  | none => return ()
  | some o =>
    if o.mayBe .code then return ()
    else mismatch o.span (Operator.leaveMessage a.op o.type)

/-! ## Parameters -/

/-- A parameter name defines a variable, unless it is empty. -/
def parameterName (t : Token) : Walk Unit :=
  match t.stringValue with
  | none => return ()
  | some name =>
    if name = "" then return ()
    else if isLocalName name then defineLocal t name
    else mismatch t.span (Operator.parameterNameMessage name)

/-- An element of a list of parameters is a name or an array that starts with one. A macro may
stand in either place. -/
def parameter (e : Expr) : Walk Unit :=
  match e.bare with
  | .string t => parameterName t
  | .array elements span =>
    match elements.head?.map Expr.bare with
    | some (.string t) => parameterName t
    | some (.expansion _ _) => return ()
    | _ => mismatch span Operator.unnamedParameterMessage
  | .expansion _ _ => return ()
  | other => mismatch other.span Operator.parameterMessage

/-- What follows is a list of parameters, if it is an array literal. -/
def checkParameters (a : Application) : Walk Unit :=
  match a.right.bind (·.expr.elements?) with
  | none => return ()
  | some list => list.forM parameter

/-! ## Files -/

/-- The file that a string literal names exists, if the options ask for that. -/
def checkFile (a : Application) : Walk Unit := do
  let run ← get
  if run.options.checkPaths then
    match a.right with
    | none => return ()
    | some o =>
      match o.expr.stringToken?.bind Token.stringValue with
      | none => return ()
      | some written =>
        if run.files.isFile (run.options.root.join (Path.ofScript written)) then return ()
        else record (.error .missingFile o.span (Operator.fileMessage written run.options.root))
  else return ()

/-! ## Applications -/

/-- An application is checked by the rule of its command. -/
def check (o : Operator) (a : Application) : Walk Unit :=
  match o.rule with
  | .types => checkTypes o a
  | .condition => checkCondition a
  | .branches => checkThen a
  | .leaves => checkLeave a
  | .parameters => do
    checkTypes o a
    checkParameters a
  | .loader => do
    checkTypes o a
    checkFile a

/-- A string after the word `for` defines the counter of the loop. -/
def loopCounter (a : Application) : Walk Unit :=
  if a.op.name = "for" ∧ a.left.isNone then
    match a.right.bind (·.expr.stringToken?) with
    | none => return ()
    | some t =>
      match t.stringValue with
      | none => return ()
      | some name => if isLocalName name then defineLocal t name else return ()
  else return ()

/-- An application is checked by the operator of its name, if there is one. -/
def checkName : Option Operator → Application → Walk Unit
  | none, _ => return ()
  | some o, a => check o a

/-- An application is checked whose operands were walked over. They are only looked at if the
command takes them. -/
def checkApplication (a : Application) : Walk Unit := do
  let run ← get
  match (run.catalogue.command? a.op.name).bind a.arityComplaint with
  | some complaint => record complaint
  | none => do
    checkName (run.catalogue.operator? a.op.name) a
    loopCounter a

/-- An application is checked, and comes to the type of its value. -/
def command (a : Application) : Walk OperandType := do
  checkApplication a
  return resultType a.op.name (a.left.map Operand.type) (a.right.map Operand.type)

/-! ## Trees -/

mutual

/-- The walk over an expression comes to its type. -/
def expr : Expr → Walk OperandType
  | .number _ => return .number
  | .string _ => return .string
  | .reference _ | .expansion _ _ | .invalid _ => return .any
  | .array elements _ => do
    exprs elements
    return .array
  | .code body _ => do
    block body
    return .code
  | .paren inner _ => expr inner
  | .nullary op => command ⟨op, none, none⟩
  | .unary op right => do
    let r ← expr right
    command ⟨op, none, some ⟨r, right⟩⟩
  | .binary left op right => do
    let l ← expr left
    let r ← expr right
    command ⟨op, some ⟨l, left⟩, some ⟨r, right⟩⟩
  | .dangling left op => do
    let l ← expr left
    command ⟨op, some ⟨l, left⟩, none⟩

/-- The walk over expressions, one after the other. -/
def exprs : List Expr → Walk Unit
  | [] => return ()
  | e :: es => do
    let _ ← expr e
    exprs es

/-- The walk over a statement goes over the value that it computes. -/
def statement : Statement → Walk Unit
  | .assignment _ _ value | .expression value => do
    let _ ← expr value
    return ()

/-- The walk over statements, one after the other. -/
def block : List Statement → Walk Unit
  | [] => return ()
  | s :: ss => do
    statement s
    block ss

end

end Walk

/-- The run after a walk over statements. -/
def Run.walk (r : Run) (statements : List Statement) : Run :=
  (Walk.block statements r).2

end SqfCheck
