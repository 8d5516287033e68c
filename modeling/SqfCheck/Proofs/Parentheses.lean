import SqfCheck.Proofs.Effects

/-!
# Parentheses around parts of an expression

Parentheses group, and mean nothing else. An expression in which parts are put between parentheses
(`Expr.Altered` with `Expr.Wraps`), as often as one likes, has the type that it had. What is found
in it is the same, in the same order, but for the places of complaints, which take the parentheses
in (`typed_wrapped`).

Both expressions are compared with the one that has no parentheses at all (`Expr.unwrapped`). They
have that one in common (`Expr.unwrapped_congr`), and the walk finds the same in it as in the
expression (`typed_unwrapped`). Types come through parentheses as they are. So what has to be looked
at are the checks that ask how an operand is written : each of them looks behind parentheses
wherever it asks, also around the elements of an array and around the first of those.
-/

namespace SqfCheck

/-! ## Expressions without parentheses -/

mutual

/-- The expression without its parentheses, at any depth. -/
def Expr.unwrapped : Expr → Expr
  | .number t => .number t
  | .string t => .string t
  | .reference t => .reference t
  | .expansion name span => .expansion name span
  | .array elements span => .array (unwrappedExprs elements) span
  | .code body span => .code (unwrappedStatements body) span
  | .paren inner _ => inner.unwrapped
  | .nullary op => .nullary op
  | .unary op right => .unary op right.unwrapped
  | .binary left op right => .binary left.unwrapped op right.unwrapped
  | .dangling left op => .dangling left.unwrapped op
  | .invalid span => .invalid span

/-- The same of expressions one after the other. -/
def unwrappedExprs : List Expr → List Expr
  | [] => []
  | e :: es => e.unwrapped :: unwrappedExprs es

/-- The same of a statement. -/
def Statement.unwrapped : Statement → Statement
  | .assignment isPrivate target value =>
    .assignment isPrivate target.unwrapped value.unwrapped
  | .expression value => .expression value.unwrapped

/-- The same of statements one after the other. -/
def unwrappedStatements : List Statement → List Statement
  | [] => []
  | s :: ss => s.unwrapped :: unwrappedStatements ss

end

/-- `e'` is `e` between parentheses. -/
def Expr.Wraps (e e' : Expr) : Prop :=
  ∃ span : Span, e' = .paren e span

mutual

/-- Expressions that differ in parentheses are the same without them. What was put between
parentheses last is a part of the expression with them, so that one is taken apart. -/
theorem Expr.unwrapped_congr : ∀ (e' : Expr) {e : Expr}, e.Altered Expr.Wraps e' →
    e'.unwrapped = e.unwrapped
  | .number _, _, h | .string _, _, h | .reference _, _, h | .expansion _ _, _, h
  | .invalid _, _, h | .nullary _, _, h => by
    cases h with
    | same => rfl
    | change _ hwraps => nomatch hwraps
  | .array elements _, _, h => by
    cases h with
    | same => rfl
    | change _ hwraps => nomatch hwraps
    | array span hes => rw [Expr.unwrapped, Expr.unwrapped, unwrappedExprs_congr elements hes]
  | .code body _, _, h => by
    cases h with
    | same => rfl
    | change _ hwraps => nomatch hwraps
    | code span hss => rw [Expr.unwrapped, Expr.unwrapped, unwrappedStatements_congr body hss]
  | .paren inner _, _, h => by
    cases h with
    | same => rfl
    | change h hwraps =>
      obtain ⟨span, hparen⟩ := hwraps
      cases hparen
      rw [Expr.unwrapped, inner.unwrapped_congr h]
    | paren span h => rw [Expr.unwrapped, Expr.unwrapped, inner.unwrapped_congr h]
  | .unary op right, _, h => by
    cases h with
    | same => rfl
    | change _ hwraps => nomatch hwraps
    | unary _ h => rw [Expr.unwrapped, Expr.unwrapped, right.unwrapped_congr h]
  | .binary left op right, _, h => by
    cases h with
    | same => rfl
    | change _ hwraps => nomatch hwraps
    | binary _ hl hr =>
      rw [Expr.unwrapped, Expr.unwrapped, left.unwrapped_congr hl, right.unwrapped_congr hr]
  | .dangling left op, _, h => by
    cases h with
    | same => rfl
    | change _ hwraps => nomatch hwraps
    | dangling _ h => rw [Expr.unwrapped, Expr.unwrapped, left.unwrapped_congr h]
termination_by structural e' => e'

theorem unwrappedExprs_congr : ∀ (es' : List Expr) {es : List Expr},
    AlteredExprs Expr.Wraps es es' → unwrappedExprs es' = unwrappedExprs es
  | [], _, .nil => rfl
  | e' :: es', _, .cons h hes => by
    rw [unwrappedExprs, unwrappedExprs, e'.unwrapped_congr h, unwrappedExprs_congr es' hes]

theorem Statement.unwrapped_congr : ∀ (s' : Statement) {s : Statement},
    s.Altered Expr.Wraps s' → s'.unwrapped = s.unwrapped
  | .assignment _ target value, _, .assignment _ ht hv => by
    rw [Statement.unwrapped, Statement.unwrapped, target.unwrapped_congr ht,
      value.unwrapped_congr hv]
  | .expression value, _, .expression h => by
    rw [Statement.unwrapped, Statement.unwrapped, value.unwrapped_congr h]

theorem unwrappedStatements_congr : ∀ (ss' : List Statement) {ss : List Statement},
    AlteredStatements Expr.Wraps ss ss' → unwrappedStatements ss' = unwrappedStatements ss
  | [], _, .nil => rfl
  | s' :: ss', _, .cons h hss => by
    rw [unwrappedStatements, unwrappedStatements, s'.unwrapped_congr h,
      unwrappedStatements_congr ss' hss]

end

/-! ## How an expression is written -/

theorem unwrappedExprs_eq_map (es : List Expr) : unwrappedExprs es = es.map Expr.unwrapped := by
  induction es with
  | nil => rfl
  | cons e es ih => rw [unwrappedExprs, List.map_cons, ih]

namespace Expr

theorem elements?_unwrapped : ∀ e : Expr,
    e.unwrapped.elements? = e.elements?.map (List.map unwrapped)
  | paren inner _ => inner.elements?_unwrapped
  | array elements _ => congrArg some (unwrappedExprs_eq_map elements)
  | number _ | string _ | reference _ | expansion _ _ | code _ _ | nullary _ | unary _ _
  | binary _ _ _ | dangling _ _ | invalid _ => rfl

theorem stringToken?_unwrapped : ∀ e : Expr, e.unwrapped.stringToken? = e.stringToken?
  | paren inner _ => inner.stringToken?_unwrapped
  | number _ | string _ | reference _ | expansion _ _ | array _ _ | code _ _ | nullary _
  | unary _ _ | binary _ _ _ | dangling _ _ | invalid _ => rfl

theorem literalType_unwrapped : ∀ e : Expr, e.unwrapped.literalType = e.literalType
  | paren inner _ => inner.literalType_unwrapped
  | number _ | string _ | reference _ | expansion _ _ | array _ _ | code _ _ | nullary _
  | unary _ _ | binary _ _ _ | dangling _ _ | invalid _ => rfl

end Expr

/-! ## Findings without their places -/

/-- What a diagnostic says, wherever it says so. -/
def Diagnostic.said (d : Diagnostic) : DiagnosticKind × Severity × String :=
  (d.kind, d.severity, d.message)

namespace Entry

/-- The entry without the place of its diagnostic, if it is one. -/
def unplaced : Entry → Entry
  | diagnostic d => diagnostic { d with span := default }
  | e => e

/-- A complaint that depends on a condition says the same wherever it is made. -/
theorem map_unplaced_unless (p : Prop) [Decidable p] (span span' : Span) (message : String) :
    (if p then [] else [typeMismatch span message]).map unplaced =
      (if p then [] else [typeMismatch span' message]).map unplaced := by
  split_ifs <;> rfl

variable {es fs : List Entry} (h : es.map unplaced = fs.map unplaced)
include h

/-- What can be picked out of entries without a look at places is the same. -/
theorem filterMap_eq_of_unplaced {α : Type} {f : Entry → Option α}
    (hf : ∀ e : Entry, f e.unplaced = f e) : es.filterMap f = fs.filterMap f := by
  have hmap : ∀ l : List Entry, l.filterMap f = (l.map unplaced).filterMap f := by
    intro l
    rw [List.filterMap_map]
    exact List.filterMap_congr fun e _ => (hf e).symm
  rw [hmap es, h, ← hmap fs]

theorem said_eq_of_unplaced : (es.filterMap diagnostic?).map Diagnostic.said =
    (fs.filterMap diagnostic?).map Diagnostic.said := by
  rw [List.map_filterMap, List.map_filterMap]
  refine filterMap_eq_of_unplaced h fun e => ?_
  cases e <;> rfl

theorem definitions_eq_of_unplaced : es.filterMap definition? = fs.filterMap definition? := by
  refine filterMap_eq_of_unplaced h fun e => ?_
  cases e <;> rfl

end Entry

/-! ## Checks of applications -/

/-- The operand without its parentheses. -/
def Operand.unwrapped (o : Operand) : Operand :=
  ⟨o.type, o.expr.unwrapped⟩

/-- The application with its operands without their parentheses. -/
def Application.unwrapped (a : Application) : Application :=
  ⟨a.op, a.left.map Operand.unwrapped, a.right.map Operand.unwrapped⟩

namespace Operator

open Entry

variable (a : Application)

/-! ### Checks of types -/

theorem checkSide_unwrapped (types : TypeSet) (side : String) (op : Token) :
    ∀ o : Option Operand, (checkSide types side op (o.map Operand.unwrapped)).map unplaced =
      (checkSide types side op o).map unplaced
  | none => rfl
  | some o => map_unplaced_unless (types.accepts o.type = true) _ _ _

theorem checkTypes_unwrapped (o : Operator) :
    (o.checkTypes a.unwrapped).map unplaced = (o.checkTypes a).map unplaced := by
  simp only [checkTypes, Application.unwrapped, List.map_append, checkSide_unwrapped]

theorem checkCondition_unwrapped :
    (checkCondition a.unwrapped).map unplaced = (checkCondition a).map unplaced := by
  rcases a with ⟨op, l, _ | r⟩
  · rfl
  · exact map_unplaced_unless (r.mayBe .boolean = true) _ _ _

theorem checkFollows_unwrapped :
    (checkFollows a.unwrapped).map unplaced = (checkFollows a).map unplaced := by
  rcases a with ⟨op, _ | l, r⟩
  · rfl
  · exact map_unplaced_unless (l.mayBe .ifType = true) _ _ _

theorem checkLeave_unwrapped :
    (checkLeave a.unwrapped).map unplaced = (checkLeave a).map unplaced := by
  rw [checkLeave, checkLeave, List.map_append, List.map_append, checkFollows_unwrapped]
  rcases a with ⟨op, l, _ | r⟩
  · rfl
  · congr 1
    exact map_unplaced_unless (r.mayBe .code = true) _ _ _

/-! ### Checks of what is written -/

theorem checkBranch_unwrapped (op : Token) (branch : Expr) :
    (checkBranch op branch.unwrapped).map unplaced = (checkBranch op branch).map unplaced := by
  rw [checkBranch, checkBranch, branch.literalType_unwrapped]
  exact map_unplaced_unless _ _ _ _

theorem checkBranches_unwrapped (op : Token) (body : Operand) :
    (checkBranches op body.unwrapped).map unplaced = (checkBranches op body).map unplaced := by
  unfold checkBranches
  rw [Operand.unwrapped, Expr.elements?_unwrapped]
  cases body.expr.elements? with
  | none => rfl
  | some branches =>
    simp only [Option.map_some, List.isEmpty_map, List.length_map]
    split_ifs
    · rfl
    · rw [List.flatMap_map, List.map_flatMap, List.map_flatMap]
      exact congrArg (List.flatMap · branches) (funext (checkBranch_unwrapped op))

theorem checkThen_unwrapped :
    (checkThen a.unwrapped).map unplaced = (checkThen a).map unplaced := by
  rw [checkThen, checkThen, List.map_append, List.map_append, checkFollows_unwrapped]
  rcases a with ⟨op, l, _ | r⟩
  · rfl
  · congr 1
    simp only [Application.unwrapped, Option.map_some]
    rw [show r.unwrapped.type = r.type from rfl]
    cases r.type with
    | array => exact checkBranches_unwrapped op r
    | _ => rfl

/-- The first element of a definition may have parentheses of its own. -/
theorem parameter_array_unwrapped (es es' : List Expr) (span : Span) : ∀ first : Expr,
    (parameter (.array (first.unwrapped :: es') span)).map unplaced =
      (parameter (.array (first :: es) span)).map unplaced
  | .paren inner _ => parameter_array_unwrapped es es' span inner
  | .number _ | .string _ | .reference _ | .expansion _ _ | .array _ _ | .code _ _ | .nullary _
  | .unary _ _ | .binary _ _ _ | .dangling _ _ | .invalid _ => rfl

theorem parameter_unwrapped : ∀ e : Expr,
    (parameter e.unwrapped).map unplaced = (parameter e).map unplaced
  | .paren inner _ => parameter_unwrapped inner
  | .array [] _ => rfl
  | .array (first :: es) span => parameter_array_unwrapped es (unwrappedExprs es) span first
  | .number _ | .string _ | .reference _ | .expansion _ _ | .code _ _ | .nullary _
  | .unary _ _ | .binary _ _ _ | .dangling _ _ | .invalid _ => rfl

theorem checkParameters_unwrapped :
    (checkParameters a.unwrapped).map unplaced = (checkParameters a).map unplaced := by
  rcases a with ⟨op, l, _ | r⟩
  · rfl
  · simp only [checkParameters, Application.unwrapped, Option.map_some, Option.bind_some,
      Operand.unwrapped, Expr.elements?_unwrapped]
    cases r.expr.elements? with
    | none => rfl
    | some list =>
      simp only [Option.map_some, List.flatMap_map, List.map_flatMap]
      exact congrArg (List.flatMap · list) (funext parameter_unwrapped)

theorem checkFile_unwrapped (paths : Option PathCheck) :
    (checkFile paths a.unwrapped).map unplaced = (checkFile paths a).map unplaced := by
  rcases a with ⟨op, l, _ | r⟩
  · cases paths <;> rfl
  · cases paths with
    | none => rfl
    | some check =>
      simp only [checkFile, Application.unwrapped, Option.map_some, Operand.unwrapped,
        Expr.stringToken?_unwrapped]
      cases r.expr.stringToken?.bind Token.stringValue with
      | none => rfl
      | some written =>
        dsimp only
        split_ifs <;> rfl

/-- What the rule of a command says does not depend on parentheses. -/
theorem check_unwrapped (o : Operator) (paths : Option PathCheck) :
    (o.check paths a.unwrapped).map unplaced = (o.check paths a).map unplaced := by
  unfold check
  cases o.rule with
  | types => exact checkTypes_unwrapped a o
  | condition => exact checkCondition_unwrapped a
  | branches => exact checkThen_unwrapped a
  | leaves => exact checkLeave_unwrapped a
  | parameters => simp only [List.map_append, checkTypes_unwrapped, checkParameters_unwrapped]
  | loader => simp only [List.map_append, checkTypes_unwrapped, checkFile_unwrapped]

end Operator

theorem loopCounter_unwrapped (a : Application) : loopCounter a.unwrapped = loopCounter a := by
  have hleft : a.unwrapped.left.isNone = a.left.isNone := Option.isNone_map
  have hstring : a.unwrapped.right.bind (·.expr.stringToken?) =
      a.right.bind (·.expr.stringToken?) := by
    simp only [Application.unwrapped, Option.bind_map, Function.comp_def, Operand.unwrapped,
      Expr.stringToken?_unwrapped]
  rw [loopCounter, loopCounter, hleft, hstring, show a.unwrapped.op = a.op from rfl]

namespace Application

variable (a : Application) (o : Overloads)

theorem arity_unwrapped : a.unwrapped.arity = a.arity := by
  rcases a with ⟨op, _ | l, _ | r⟩ <;> rfl

theorem fits_unwrapped : a.unwrapped.fits o = a.fits o := by
  rw [fits, fits, arity_unwrapped, unwrapped, Option.isSome_map]

theorem arityMessage_unwrapped : a.unwrapped.arityMessage o = a.arityMessage o := by
  have hright : a.unwrapped.right.isNone = a.right.isNone := Option.isNone_map
  rw [arityMessage, arityMessage, arity_unwrapped, hright, show a.unwrapped.op = a.op from rfl]

end Application

/-! ## The walk -/

/-- The type with what was found, without the places of complaints. -/
def Typed.unplaced (t : Typed) : Typed :=
  ⟨t.type, t.entries.map Entry.unplaced⟩

theorem Typed.unplaced_eq {t u : Typed} : t.unplaced = u.unplaced ↔
    t.type = u.type ∧ t.entries.map Entry.unplaced = u.entries.map Entry.unplaced := by
  rw [unplaced, unplaced, Typed.mk.injEq]

theorem Typed.type_after (t : Typed) (es : List Entry) : (t.after es).type = t.type :=
  rfl

theorem Typed.entries_after (t : Typed) (es : List Entry) :
    (t.after es).entries = es ++ t.entries :=
  rfl

namespace Checker

variable (c : Checker) (a : Application)

theorem checkApplication_unwrapped : (c.checkApplication a.unwrapped).map Entry.unplaced =
    (c.checkApplication a).map Entry.unplaced := by
  rw [checkApplication, checkApplication, show a.unwrapped.op = a.op from rfl]
  cases c.catalogue.command? a.op.name with
  | none =>
    cases c.catalogue.operator? a.op.name <;>
      simp [Operator.check_unwrapped, loopCounter_unwrapped]
  | some o =>
    simp only [Option.bind_some, Application.arityComplaint, a.fits_unwrapped,
      a.arityMessage_unwrapped]
    split_ifs with hfits
    · cases c.catalogue.operator? a.op.name <;>
        simp [Operator.check_unwrapped, loopCounter_unwrapped]
    · -- the two complaints only differ in where the application stands
      rfl

theorem applied_unwrapped : (c.applied a.unwrapped).unplaced = (c.applied a).unplaced := by
  have htypes : ∀ o : Option Operand,
      (o.map Operand.unwrapped).map Operand.type = o.map Operand.type := by
    rintro (_ | o) <;> rfl
  rw [Typed.unplaced_eq]
  refine ⟨?_, c.checkApplication_unwrapped a⟩
  simp only [applied, Application.unwrapped, htypes]

/-- The operands before the command may come with what was found in them. -/
theorem applied_after_unwrapped {es fs : List Entry}
    (h : es.map Entry.unplaced = fs.map Entry.unplaced) :
    ((c.applied a.unwrapped).after es).unplaced = ((c.applied a).after fs).unplaced := by
  obtain ⟨htype, hentries⟩ := Typed.unplaced_eq.1 (c.applied_unwrapped a)
  rw [Typed.unplaced_eq, Typed.type_after, Typed.type_after, Typed.entries_after,
    Typed.entries_after, List.map_append, List.map_append, h, hentries]
  exact ⟨htype, rfl⟩

end Checker

section

variable (c : Checker)

mutual

/-- An expression has the type that it has without parentheses, and the same is found in it. -/
theorem typed_unwrapped : ∀ e : Expr, (e.unwrapped.typed c).unplaced = (e.typed c).unplaced
  | .number _ | .string _ | .reference _ | .expansion _ _ | .invalid _ => rfl
  | .array elements _ => congrArg (Typed.mk .array) (entriesOfExprs_unwrapped elements)
  | .code body _ => congrArg (Typed.mk .code) (entriesOfStatements_unwrapped body)
  | .paren inner _ => typed_unwrapped inner
  | .nullary op => c.applied_unwrapped ⟨op, none, none⟩
  | .unary op right => by
    obtain ⟨htype, hentries⟩ := Typed.unplaced_eq.1 (typed_unwrapped right)
    rw [Expr.unwrapped, Expr.typed, Expr.typed, htype]
    exact c.applied_after_unwrapped ⟨op, none, some ⟨_, right⟩⟩ hentries
  | .binary left op right => by
    obtain ⟨hleft, hentries⟩ := Typed.unplaced_eq.1 (typed_unwrapped left)
    obtain ⟨hright, hentries'⟩ := Typed.unplaced_eq.1 (typed_unwrapped right)
    rw [Expr.unwrapped, Expr.typed, Expr.typed, hleft, hright]
    refine c.applied_after_unwrapped ⟨op, some ⟨_, left⟩, some ⟨_, right⟩⟩ ?_
    rw [List.map_append, List.map_append, hentries, hentries']
  | .dangling left op => by
    obtain ⟨htype, hentries⟩ := Typed.unplaced_eq.1 (typed_unwrapped left)
    rw [Expr.unwrapped, Expr.typed, Expr.typed, htype]
    exact c.applied_after_unwrapped ⟨op, some ⟨_, left⟩, none⟩ hentries

theorem entriesOfExprs_unwrapped : ∀ es : List Expr,
    (entriesOfExprs c (unwrappedExprs es)).map Entry.unplaced =
      (entriesOfExprs c es).map Entry.unplaced
  | [] => rfl
  | e :: es => by
    have he := congrArg Typed.entries (typed_unwrapped e)
    have hes := entriesOfExprs_unwrapped es
    rw [unwrappedExprs, entriesOfExprs, entriesOfExprs, List.map_append, List.map_append, hes]
    exact congrArg (· ++ _) he

theorem entries_unwrapped : ∀ s : Statement,
    (s.unwrapped.entries c).map Entry.unplaced = (s.entries c).map Entry.unplaced
  | .assignment _ _ value => congrArg Typed.entries (typed_unwrapped value)
  | .expression value => congrArg Typed.entries (typed_unwrapped value)

theorem entriesOfStatements_unwrapped : ∀ ss : List Statement,
    (entriesOfStatements c (unwrappedStatements ss)).map Entry.unplaced =
      (entriesOfStatements c ss).map Entry.unplaced
  | [] => rfl
  | s :: ss => by
    have hs := entries_unwrapped s
    have hss := entriesOfStatements_unwrapped ss
    rw [unwrappedStatements, entriesOfStatements, entriesOfStatements, List.map_append,
      List.map_append, hs, hss]

end

end

/-! ## Runs -/

/-- Parentheses around parts of an expression change nothing. Whatever the commands, the options and
the files are, and whatever was found before, the expression has the same type with them and without
them, the same diagnostics are written down in the same order, but for their places, and the same
definitions are added to the table, by the same tokens and in the same order. -/
theorem typed_wrapped (catalogue : Catalogue) (options : Options) (files : Files) {e e' : Expr}
    (h : e.Altered Expr.Wraps e') (j : Journal) :
    let c := Checker.ofOptions catalogue options files
    let after (x : Expr) := j.writeAll (x.typed c).entries
    (e'.typed c).type = (e.typed c).type ∧
    (∃ found found' : List Diagnostic, (after e).diagnostics = j.diagnostics ++ found ∧
      (after e').diagnostics = j.diagnostics ++ found' ∧
      found'.map Diagnostic.said = found.map Diagnostic.said) ∧
    ∃ added : List (String × Token),
      (after e).table = added.foldl VariableTable.define j.table ∧
      (after e').table = added.foldl VariableTable.define j.table := by
  intro c after
  have hsame : (e'.typed c).unplaced = (e.typed c).unplaced := by
    rw [← typed_unwrapped c e', e'.unwrapped_congr h, typed_unwrapped c e]
  obtain ⟨htype, hentries⟩ := Typed.unplaced_eq.1 hsame
  have hfindings : ∀ x : Expr, ∀ f ∈ (x.typed c).entries, f.IsFinding :=
    fun x f hf => (isFoundAt_typed c x f hf).isFinding
  refine ⟨htype, ⟨_, _, j.diagnostics_writeAll _, j.diagnostics_writeAll _,
    Entry.said_eq_of_unplaced hentries⟩, _, j.table_writeAll_findings (hfindings e), ?_⟩
  rw [j.table_writeAll_findings (hfindings e'), Entry.definitions_eq_of_unplaced hentries]

/-- Parentheses around the list of parameters, around the definition in it and around the name in
that, and around a number where a string has to be. The complaint about the number takes its
parentheses in. -/
theorem typed_wrapped_parameters :
    let place (first last : Nat) : Span := ⟨⟨1, first⟩, ⟨1, last⟩⟩
    let word (text : String) (column : Nat) : Token :=
      ⟨.identifier, text, place column (column + text.length - 1), none⟩
    let token : Token := ⟨.string, "\"_Unit\"", place 13 19, none⟩
    let name : Expr := .string token
    let number : Expr := .number ⟨.number, "5", place 30 30, none⟩
    let e : Expr := .array [.unary (word "params" 2) (.array [.array [name] (place 11 21)]
      (place 10 22)), .unary (word "hint" 24) number] (place 1 32)
    let e' : Expr := .array [.unary (word "params" 2) (.paren (.array [.paren (.array
      [.paren (.paren name (place 12 20)) (place 12 20)] (place 11 21)) (place 10 22)]
      (place 10 22)) (place 9 23)), .unary (word "hint" 24) (.paren number (place 29 31))]
      (place 1 32)
    let catalogue := Catalogue.ofLines
      [⟨"params", .unary, [], [.array]⟩, ⟨"hint", .unary, [], [.string]⟩]
    let c := Checker.ofOptions catalogue {} (.memory [])
    let after (x : Expr) := ({} : Journal).writeAll (x.typed c).entries
    e.Altered Expr.Wraps e' ∧
      (after e).diagnostics.map Diagnostic.span = [place 30 30] ∧
      (after e').diagnostics.map Diagnostic.span = [place 29 31] ∧
      (after e).table.records = [⟨"_unit", [], [token], [none]⟩] ∧
      ∃ added : List (String × Token), (after e).table = added.foldl VariableTable.define {} ∧
        (after e').table = added.foldl VariableTable.define {} := by
  intro place word token name number e e' catalogue c after
  have hname : name.Altered Expr.Wraps (.paren (.paren name (place 12 20)) (place 12 20)) :=
    .change (.change (.same name) ⟨_, rfl⟩) ⟨_, rfl⟩
  have h : e.Altered Expr.Wraps e' :=
    .array _ (.cons (.unary _ (.change (.array _ (.cons (.change
      (.array _ (.cons hname .nil)) ⟨_, rfl⟩) .nil)) ⟨_, rfl⟩))
      (.cons (.unary _ (.change (.same number) ⟨_, rfl⟩)) .nil))
  exact ⟨h, by decide +kernel, by decide +kernel, by decide +kernel,
    (typed_wrapped catalogue {} (.memory []) h {}).2.2⟩

end SqfCheck
