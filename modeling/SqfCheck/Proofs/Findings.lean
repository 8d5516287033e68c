import Mathlib.Tactic.SplitIfs
import SqfCheck.Walk

/-!
# What a walk writes

A walk takes a run with it, which it reads and writes to. This module shows that it reads nothing
of what the run has found : from any run, every part of a walk adds a list of entries to the journal
and changes nothing else, and the list only depends on what the run was given (`Walk.Writes`). These
lists are `Operator.check` for an application and `entriesOfStatements` for a tree
(`Run.journal_walk`).

A part that writes keeps what the run was given, so the parts after it write what they would have
written from the start (`Walk.Writes.bind`).
-/

namespace SqfCheck

theorem Journal.writeAll_append (j : Journal) (es fs : List Entry) :
    j.writeAll (es ++ fs) = (j.writeAll es).writeAll fs :=
  List.foldl_append

namespace Run

/-- The run with more entries in its journal. -/
def writeAll (r : Run) (es : List Entry) : Run :=
  { r with journal := r.journal.writeAll es }

/-- What a walk needs to know of the run. -/
def checker (r : Run) : Checker :=
  .ofOptions r.catalogue r.options r.files

theorem writeAll_append (r : Run) (es fs : List Entry) :
    r.writeAll (es ++ fs) = (r.writeAll es).writeAll fs := by
  rw [writeAll, Journal.writeAll_append]
  rfl

end Run

namespace Walk

variable {α β : Type} {p q : Walk α} {r : Run} {a : α} {es fs : List Entry}

/-- From the run, the part of a walk comes to the value and writes the entries, and that is all. -/
def Writes (p : Walk α) (r : Run) (a : α) (es : List Entry) : Prop :=
  p r = (a, r.writeAll es)

theorem Writes.pure (a : α) : Writes (Pure.pure a : Walk α) r a [] :=
  rfl

theorem Writes.bind {f : α → Walk β} {b : β} (h : Writes p r a es)
    (hf : Writes (f a) (r.writeAll es) b fs) : Writes (p >>= f) r b (es ++ fs) := by
  rw [Writes, show (p >>= f) r = f (p r).1 (p r).2 from rfl, show p r = _ from h, r.writeAll_append]
  exact hf

/-- One of two parts, by a condition. -/
theorem Writes.ite {c : Prop} [Decidable c] (hp : Writes p r a es) (hq : Writes q r a fs) :
    Writes (if c then p else q) r a (if c then es else fs) := by
  split_ifs
  · exact hp
  · exact hq

/-- A part for each element of a list, one after the other. -/
theorem Writes.forM {f : α → Walk PUnit} {g : α → List Entry}
    (h : ∀ (a : α) (r : Run), Writes (f a) r () (g a)) :
    ∀ (as : List α) (r : Run), Writes (as.forM f) r () (as.flatMap g)
  | [], _ => .pure ()
  | a :: as, r => (h a r).bind (Writes.forM h as _)

/-- A part that asks for the run first. -/
theorem Writes.get {f : Run → Walk β} {b : β} (h : Writes (f r) r b es) :
    Writes (MonadStateOf.get >>= f) r b es :=
  h

theorem writes_record (d : Diagnostic) : Writes (record d) r () [.diagnostic d] :=
  rfl

theorem writes_mismatch (span : Span) (message : String) :
    Writes (mismatch span message) r () [.typeMismatch span message] :=
  rfl

theorem writes_defineLocal (t : Token) (name : String) :
    Writes (defineLocal t name) r () [.definition name t] :=
  rfl

/-! ## Rules -/

theorem writes_checkSide (types : TypeSet) (side : String) (op : Token) (o : Option Operand) :
    Writes (checkSide types side op o) r () (Operator.checkSide types side op o) := by
  cases o with
  | none => exact .pure ()
  | some o => exact .ite (.pure ()) (writes_mismatch _ _)

theorem writes_checkTypes (o : Operator) (a : Application) :
    Writes (checkTypes o a) r () (o.checkTypes a) :=
  (writes_checkSide o.left "left" a.op a.left).bind (writes_checkSide o.right "right" a.op a.right)

theorem writes_checkCondition (a : Application) :
    Writes (checkCondition a) r () (Operator.checkCondition a) := by
  unfold checkCondition Operator.checkCondition
  cases a.right with
  | none => exact .pure ()
  | some o => exact .ite (.pure ()) (writes_mismatch _ _)

theorem writes_checkFollows (a : Application) :
    Writes (checkFollows a) r () (Operator.checkFollows a) := by
  unfold checkFollows Operator.checkFollows
  cases a.left with
  | none => exact .pure ()
  | some o => exact .ite (.pure ()) (writes_mismatch _ _)

theorem writes_checkBranch (op : Token) (branch : Expr) :
    Writes (checkBranch op branch) r () (Operator.checkBranch op branch) :=
  .ite (.pure ()) (writes_mismatch _ _)

theorem writes_checkBranches (op : Token) (body : Operand) :
    Writes (checkBranches op body) r () (Operator.checkBranches op body) := by
  unfold checkBranches Operator.checkBranches
  cases body.expr.elements? with
  | none => exact .pure ()
  | some branches =>
    exact .ite (writes_mismatch _ _) (.forM (fun branch _ => writes_checkBranch op branch) _ _)

theorem writes_checkThen (a : Application) :
    Writes (checkThen a) r () (Operator.checkThen a) := by
  refine (writes_checkFollows a).bind ?_
  cases a.right with
  | none => exact .pure ()
  | some o =>
    dsimp only
    cases o.type with
    | code | any => exact .pure ()
    | array => exact writes_checkBranches a.op o
    | _ => exact writes_mismatch _ _

theorem writes_checkLeave (a : Application) :
    Writes (checkLeave a) r () (Operator.checkLeave a) := by
  refine (writes_checkFollows a).bind ?_
  cases a.right with
  | none => exact .pure ()
  | some o => exact .ite (.pure ()) (writes_mismatch _ _)

theorem writes_parameterName (t : Token) :
    Writes (parameterName t) r () (Operator.parameterName t) := by
  unfold parameterName Operator.parameterName
  cases t.stringValue with
  | none => exact .pure ()
  | some name => exact .ite (.pure ()) (.ite (writes_defineLocal t name) (writes_mismatch _ _))

theorem writes_parameter (e : Expr) : Writes (parameter e) r () (Operator.parameter e) := by
  unfold parameter Operator.parameter
  cases e.bare with
  | string t => exact writes_parameterName t
  | array elements span =>
    dsimp only
    cases elements.head?.map Expr.bare with
    | none => exact writes_mismatch _ _
    | some first =>
      cases first with
      | string t => exact writes_parameterName t
      | expansion name span => exact .pure ()
      | _ => exact writes_mismatch _ _
  | expansion name span => exact .pure ()
  | _ => exact writes_mismatch _ _

theorem writes_checkParameters (a : Application) :
    Writes (checkParameters a) r () (Operator.checkParameters a) := by
  unfold checkParameters Operator.checkParameters
  cases a.right.bind (·.expr.elements?) with
  | none => exact .pure ()
  | some list => exact .forM (fun e _ => writes_parameter e) list r

theorem writes_checkFile (a : Application) :
    Writes (checkFile a) r () (Operator.checkFile r.checker.paths a) := by
  refine Writes.get ?_
  unfold Operator.checkFile Run.checker Checker.ofOptions
  by_cases hpaths : r.options.checkPaths = true
  · rw [if_pos hpaths, if_pos hpaths]
    cases a.right with
    | none => exact .pure ()
    | some o =>
      dsimp only
      cases o.expr.stringToken?.bind Token.stringValue with
      | none => exact .pure ()
      | some written => exact .ite (.pure ()) (writes_record _)
  · rw [if_neg hpaths, if_neg hpaths]
    exact .pure ()

theorem writes_check (o : Operator) (a : Application) :
    Writes (check o a) r () (o.check r.checker.paths a) := by
  unfold check Operator.check
  cases o.rule with
  | types => exact writes_checkTypes o a
  | condition => exact writes_checkCondition a
  | branches => exact writes_checkThen a
  | leaves => exact writes_checkLeave a
  | parameters => exact (writes_checkTypes o a).bind (writes_checkParameters a)
  | loader => exact (writes_checkTypes o a).bind (writes_checkFile a)

/-! ## Applications -/

theorem writes_loopCounter (a : Application) :
    Writes (loopCounter a) r () (SqfCheck.loopCounter a) := by
  unfold loopCounter SqfCheck.loopCounter
  split_ifs
  · cases a.right.bind (·.expr.stringToken?) with
    | none => exact .pure ()
    | some t =>
      dsimp only
      cases t.stringValue with
      | none => exact .pure ()
      | some name => exact .ite (writes_defineLocal t name) (.pure ())
  · exact .pure ()

theorem writes_checkApplication (a : Application) :
    Writes (checkApplication a) r () (r.checker.checkApplication a) := by
  refine Writes.get ?_
  rw [Checker.checkApplication, show r.checker.catalogue = r.catalogue from rfl]
  cases (r.catalogue.command? a.op.name).bind a.arityComplaint with
  | some complaint => exact writes_record complaint
  | none =>
    cases r.catalogue.operator? a.op.name with
    | none => exact (Writes.pure ()).bind (writes_loopCounter a)
    | some o => exact (writes_check o a).bind (writes_loopCounter a)

/-- An application comes to the type of its value and writes what is found about it. -/
theorem writes_command (a : Application) (r : Run) :
    Writes (command a) r (r.checker.applied a).type (r.checker.applied a).entries := by
  rw [command, Checker.applied, ← List.append_nil (r.checker.checkApplication a)]
  exact (writes_checkApplication a).bind (.pure _)

/-! ## Trees -/

mutual

/-- The walk over an expression comes to the type that is found for it. -/
theorem writes_expr : ∀ (e : Expr) (r : Run),
    Writes (expr e) r (e.typed r.checker).type (e.typed r.checker).entries
  | .number _, _ => .pure _
  | .string _, _ => .pure _
  | .reference _, _ => .pure _
  | .expansion _ _, _ => .pure _
  | .invalid _, _ => .pure _
  | .array elements _, r => by
    rw [expr, Expr.typed, ← List.append_nil (entriesOfExprs _ _)]
    exact (writes_exprs elements r).bind (.pure _)
  | .code body _, r => by
    rw [expr, Expr.typed, ← List.append_nil (entriesOfStatements _ _)]
    exact (writes_block body r).bind (.pure _)
  | .paren inner _, r => by
    rw [expr, Expr.typed]
    exact writes_expr inner r
  | .nullary op, r => by
    rw [expr, Expr.typed]
    exact writes_command _ r
  | .unary op right, r => by
    rw [expr, Expr.typed]
    exact (writes_expr right r).bind (writes_command _ _)
  | .binary left op right, r => by
    rw [expr, Expr.typed, Typed.after, List.append_assoc]
    exact (writes_expr left r).bind ((writes_expr right _).bind (writes_command _ _))
  | .dangling left op, r => by
    rw [expr, Expr.typed]
    exact (writes_expr left r).bind (writes_command _ _)

theorem writes_exprs : ∀ (es : List Expr) (r : Run),
    Writes (exprs es) r () (entriesOfExprs r.checker es)
  | [], _ => .pure ()
  | e :: es, r => by
    rw [exprs, entriesOfExprs]
    exact (writes_expr e r).bind (writes_exprs es _)

theorem writes_statement : ∀ (s : Statement) (r : Run),
    Writes (statement s) r () (s.entries r.checker)
  | .assignment _ _ value, r => by
    rw [statement, Statement.entries, ← List.append_nil (Typed.entries _)]
    exact (writes_expr value r).bind (.pure _)
  | .expression value, r => by
    rw [statement, Statement.entries, ← List.append_nil (Typed.entries _)]
    exact (writes_expr value r).bind (.pure _)

theorem writes_block : ∀ (ss : List Statement) (r : Run),
    Writes (block ss) r () (entriesOfStatements r.checker ss)
  | [], _ => .pure ()
  | s :: ss, r => by
    rw [block, entriesOfStatements]
    exact (writes_statement s r).bind (writes_block ss _)

end

end Walk

namespace Run

variable (r : Run) (ss : List Statement)

/-- A walk adds what is found in the statements to the journal of the run, and does nothing else. -/
theorem walk_eq : r.walk ss = r.writeAll (entriesOfStatements r.checker ss) :=
  congrArg Prod.snd (Walk.writes_block ss r)

/-- A walk keeps what the run was given. -/
theorem toSurroundings_walk : (r.walk ss).toSurroundings = r.toSurroundings := by
  rw [walk_eq]
  rfl

theorem journal_walk :
    (r.walk ss).journal = r.journal.writeAll (entriesOfStatements r.checker ss) := by
  rw [walk_eq]
  rfl

end Run

end SqfCheck
