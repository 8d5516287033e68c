import Mathlib.Data.List.Basic
import SqfCheck.Proofs.Entries
import SqfCheck.Lint

/-!
# Hiding parts of an expression

Nothing is known of what a macro stands for, so what is hidden behind one passes every check. An
expression in which parts are replaced by macros (`Expr.Altered` with `Expr.Hides`) has the type
that it had, or any type, and nothing is found in it that was not found before (`fades_typed`).

The argument has two sides. Types reach a command from its operands, and the checks that only read
types let any type pass (`sublist_of_fades`). Other checks look at how an operand is written. What
they ask about it is answered as before, or there is no answer and they have nothing to say
(`Expr.Altered.stringToken?_eq_or`, `Expr.Altered.elements?_eq_or`,
`Expr.Altered.literalType_eq_or`).
-/

namespace SqfCheck

/-! ## Altered trees -/

mutual

/-- `e'` is `e` with some of its parts replaced, each by one that `R` allows in its place. A part
may have been altered itself before it is replaced. -/
inductive Expr.Altered (R : Expr → Expr → Prop) : Expr → Expr → Prop
  | same (e : Expr) : Expr.Altered R e e
  | change {e mid e' : Expr} : Expr.Altered R e mid → R mid e' → Expr.Altered R e e'
  | array {es es' : List Expr} (span : Span) :
    AlteredExprs R es es' → Expr.Altered R (.array es span) (.array es' span)
  | code {ss ss' : List Statement} (span : Span) :
    AlteredStatements R ss ss' → Expr.Altered R (.code ss span) (.code ss' span)
  | paren {e e' : Expr} (span : Span) :
    Expr.Altered R e e' → Expr.Altered R (.paren e span) (.paren e' span)
  | unary {right right' : Expr} (op : Token) :
    Expr.Altered R right right' → Expr.Altered R (.unary op right) (.unary op right')
  | binary {left left' right right' : Expr} (op : Token) :
    Expr.Altered R left left' → Expr.Altered R right right' →
      Expr.Altered R (.binary left op right) (.binary left' op right')
  | dangling {left left' : Expr} (op : Token) :
    Expr.Altered R left left' → Expr.Altered R (.dangling left op) (.dangling left' op)

/-- The same of expressions one after the other. -/
inductive AlteredExprs (R : Expr → Expr → Prop) : List Expr → List Expr → Prop
  | nil : AlteredExprs R [] []
  | cons {e e' : Expr} {es es' : List Expr} :
    Expr.Altered R e e' → AlteredExprs R es es' → AlteredExprs R (e :: es) (e' :: es')

/-- The same of a statement. -/
inductive Statement.Altered (R : Expr → Expr → Prop) : Statement → Statement → Prop
  | assignment {target target' value value' : Expr} (isPrivate : Bool) :
    Expr.Altered R target target' → Expr.Altered R value value' →
      Statement.Altered R (.assignment isPrivate target value)
        (.assignment isPrivate target' value')
  | expression {value value' : Expr} :
    Expr.Altered R value value' → Statement.Altered R (.expression value) (.expression value')

/-- The same of statements one after the other. -/
inductive AlteredStatements (R : Expr → Expr → Prop) : List Statement → List Statement → Prop
  | nil : AlteredStatements R [] []
  | cons {s s' : Statement} {ss ss' : List Statement} :
    Statement.Altered R s s' → AlteredStatements R ss ss' →
      AlteredStatements R (s :: ss) (s' :: ss')

end

theorem AlteredExprs.refl {R : Expr → Expr → Prop} (es : List Expr) : AlteredExprs R es es := by
  induction es with
  | nil => exact .nil
  | cons e es ih => exact .cons (.same e) ih

theorem AlteredExprs.length_eq {R : Expr → Expr → Prop} :
    ∀ {es es' : List Expr}, AlteredExprs R es es' → es'.length = es.length
  | _, _, .nil => rfl
  | _, _, .cons _ hes => congrArg (· + 1) hes.length_eq

/-- `e'` is a macro that stands where `e` stood. -/
def Expr.Hides (e e' : Expr) : Prop :=
  ∃ name : Token, e' = .expansion name e.span

/-! ## How a hidden expression is written -/

namespace Expr.Altered

/-- Macros stand where the parts stood that they hide, so nothing is moved. -/
theorem span_eq {e e' : Expr} (h : e.Altered Hides e') : e'.span = e.span := by
  match h with
  | same _ => rfl
  | change h ⟨name, rfl⟩ => exact h.span_eq
  | array span _ => rfl
  | code span _ => rfl
  | paren span _ => rfl
  | unary op h => rw [span, h.span_eq, span]
  | binary op hl hr => rw [span, hl.span_eq, hr.span_eq, span]
  | dangling op h => rw [span, h.span_eq, span]

/-- A string literal is still seen to be one, or it is hidden. -/
theorem stringToken?_eq_or {e e' : Expr} (h : e.Altered Hides e') :
    e'.stringToken? = e.stringToken? ∨ e'.stringToken? = none := by
  cases h with
  | change h hide =>
    obtain ⟨name, rfl⟩ := hide
    exact .inr rfl
  | paren span h => exact h.stringToken?_eq_or
  | _ => exact .inl rfl

/-- What kind of literal an expression is can still be seen, or it is hidden. -/
theorem literalType_eq_or {e e' : Expr} (h : e.Altered Hides e') :
    e'.literalType = e.literalType ∨ e'.literalType = .any := by
  cases h with
  | change h hide =>
    obtain ⟨name, rfl⟩ := hide
    exact .inr rfl
  | paren span h => exact h.literalType_eq_or
  | _ => exact .inl rfl

/-- The elements of an array literal are still there, though parts of them may be hidden, or the
array is hidden as a whole. -/
theorem elements?_eq_or {e e' : Expr} (h : e.Altered Hides e') :
    e'.elements? = none ∨ ∃ es es', e.elements? = some es ∧ e'.elements? = some es' ∧
      AlteredExprs Hides es es' := by
  cases h with
  | same =>
    cases he : e.elements? with
    | none => exact .inl rfl
    | some es => exact .inr ⟨es, es, rfl, rfl, .refl es⟩
  | change h hide =>
    obtain ⟨name, rfl⟩ := hide
    exact .inl rfl
  | paren span h => exact h.elements?_eq_or
  | array span hes => exact .inr ⟨_, _, rfl, rfl, hes⟩
  | _ => exact .inl rfl

end Expr.Altered

/-! ## Operands -/

/-- `t'` is the type `t`, or nothing is known of it any more. -/
def OperandType.FadesTo (t t' : OperandType) : Prop :=
  t' = t ∨ t' = .any

/-- `o'` is `o` with parts of it hidden. -/
structure Operand.Fades (o o' : Operand) : Prop where
  /-- The operand is altered. -/
  expr : o.expr.Altered Expr.Hides o'.expr
  /-- Its type may be lost. -/
  type : o.type.FadesTo o'.type

theorem Operand.mayBe_congr {o o' : Operand} (h : o'.type = o.type) (wanted : OperandType) :
    o'.mayBe wanted = o.mayBe wanted := by
  rw [mayBe, mayBe, h]

theorem Operand.Fades.span_eq {o o' : Operand} (h : o.Fades o') : o'.span = o.span :=
  h.expr.span_eq

/-- `a'` is `a` with parts of its operands hidden. -/
inductive Application.Fades : Application → Application → Prop
  | intro (op : Token) {left left' right right' : Option Operand} :
    Option.Rel Operand.Fades left left' → Option.Rel Operand.Fades right right' →
      Application.Fades ⟨op, left, right⟩ ⟨op, left', right'⟩

/-- A check that reads only the type of an operand and where it stands, and has nothing to say
about one of any type, finds no more than before. -/
theorem sublist_of_fades (check : Option Operand → List Entry) {o o' : Option Operand}
    (h : Option.Rel Operand.Fades o o')
    (hany : ∀ x : Operand, x.type = .any → check (some x) = [])
    (hsame : ∀ x x' : Operand, x'.type = x.type → x'.span = x.span →
      check (some x') = check (some x)) : (check o').Sublist (check o) := by
  cases h with
  | none => exact List.Sublist.refl _
  | some h =>
    rcases h.type with htype | htype
    · rw [hsame _ _ htype h.span_eq]
    · rw [hany _ htype]
      exact List.nil_sublist _

namespace Operator

variable {a a' : Application}

/-! ### Checks of types -/

theorem sublist_checkSide {types : TypeSet} {side : String} {op : Token} {o o' : Option Operand}
    (h : Option.Rel Operand.Fades o o') :
    (checkSide types side op o').Sublist (checkSide types side op o) := by
  refine sublist_of_fades (checkSide types side op) h (fun x hx => ?_) (fun x x' htype hspan => ?_)
  · simp [checkSide, TypeSet.accepts, hx]
  · simp only [checkSide, htype, hspan]

theorem sublist_checkTypes {o : Operator} (h : a.Fades a') :
    (o.checkTypes a').Sublist (o.checkTypes a) := by
  obtain ⟨op, hleft, hright⟩ := h
  exact (sublist_checkSide hleft).append (sublist_checkSide hright)

theorem sublist_checkCondition (h : a.Fades a') :
    (checkCondition a').Sublist (checkCondition a) := by
  obtain ⟨op, -, hright⟩ := h
  refine sublist_of_fades (fun o => checkCondition ⟨op, none, o⟩) hright (fun x hx => ?_)
    (fun x x' htype hspan => ?_)
  · simp [checkCondition, Operand.mayBe, hx]
  · simp only [checkCondition, Operand.mayBe_congr htype, htype, hspan]

theorem sublist_checkFollows (h : a.Fades a') : (checkFollows a').Sublist (checkFollows a) := by
  obtain ⟨op, hleft, -⟩ := h
  refine sublist_of_fades (fun o => checkFollows ⟨op, o, none⟩) hleft (fun x hx => ?_)
    (fun x x' htype hspan => ?_)
  · simp [checkFollows, Operand.mayBe, hx]
  · simp only [checkFollows, Operand.mayBe_congr htype, htype, hspan]

theorem sublist_checkLeave (h : a.Fades a') : (checkLeave a').Sublist (checkLeave a) := by
  refine (sublist_checkFollows h).append ?_
  obtain ⟨op, -, hright⟩ := h
  -- without an operand before it, all that is checked is the operand after it
  refine sublist_of_fades (fun o => checkLeave ⟨op, none, o⟩) hright (fun x hx => ?_)
    (fun x x' htype hspan => ?_)
  · simp [checkLeave, checkFollows, Operand.mayBe, hx]
  · simp only [checkLeave, checkFollows, Operand.mayBe_congr htype, htype, hspan]

/-! ### Checks of what is written -/

theorem sublist_checkBranch {op : Token} {e e' : Expr} (h : e.Altered Expr.Hides e') :
    (checkBranch op e').Sublist (checkBranch op e) := by
  unfold checkBranch
  rcases h.literalType_eq_or with htype | htype
  · rw [htype, h.span_eq]
  · rw [htype, if_pos (.inr rfl)]
    exact List.nil_sublist _

/-- If no more is found in each expression than before, no more is found in all of them. -/
theorem sublist_flatMap {find : Expr → List Entry}
    (hfind : ∀ e e', e.Altered Expr.Hides e' → (find e').Sublist (find e)) :
    ∀ {es es' : List Expr}, AlteredExprs Expr.Hides es es' →
      (es'.flatMap find).Sublist (es.flatMap find)
  | _, _, .nil => List.Sublist.refl _
  | _, _, .cons h hes => (hfind _ _ h).append (sublist_flatMap hfind hes)

/-- Branches are counted as before, since an array has as many elements as it had. -/
theorem sublist_checkBranches {op : Token} {body body' : Operand} (h : body.Fades body') :
    (checkBranches op body').Sublist (checkBranches op body) := by
  unfold checkBranches
  rcases h.expr.elements?_eq_or with hnone | ⟨es, es', hes, hes', halt⟩
  · rw [hnone]
    exact List.nil_sublist _
  · have hempty : es'.isEmpty = es.isEmpty := by cases halt <;> rfl
    simp only [hes, hes', hempty, halt.length_eq, h.span_eq]
    split_ifs
    · exact List.Sublist.refl _
    · exact sublist_flatMap (fun _ _ => sublist_checkBranch) halt

theorem sublist_checkThen (h : a.Fades a') : (checkThen a').Sublist (checkThen a) := by
  refine (sublist_checkFollows h).append ?_
  obtain ⟨op, hleft, hright⟩ := h
  cases hright with
  | none => exact List.Sublist.refl _
  | @some o o' hright =>
    simp only
    rcases hright.type with htype | htype
    · rw [htype, hright.span_eq]
      cases o.type with
      | array => exact sublist_checkBranches hright
      | _ => exact List.Sublist.refl _
    · rw [htype]
      exact List.nil_sublist _

/-- The first element of a definition may be hidden like the definition itself. -/
theorem sublist_parameter_array {e e' : Expr} (h : e.Altered Expr.Hides e') (es es' : List Expr)
    (span : Span) :
    (parameter (.array (e' :: es') span)).Sublist (parameter (.array (e :: es) span)) := by
  cases h with
  | change h hide =>
    obtain ⟨name, rfl⟩ := hide
    exact List.nil_sublist _
  | paren _ h => exact sublist_parameter_array h es es' span
  | _ => exact List.Sublist.refl _

theorem sublist_parameter {e e' : Expr} (h : e.Altered Expr.Hides e') :
    (parameter e').Sublist (parameter e) := by
  have hspan := h.span_eq
  cases h with
  | change h hide =>
    obtain ⟨name, rfl⟩ := hide
    exact List.nil_sublist _
  | paren _ h => exact (sublist_parameter h :)
  | array span hes =>
    cases hes with
    | nil => exact List.Sublist.refl _
    | cons h _ => exact sublist_parameter_array h _ _ span
  | unary op _ | binary op _ _ | dangling op _ =>
    simp only [parameter, Expr.bare, hspan, List.Sublist.refl]
  | _ => exact List.Sublist.refl _

theorem sublist_checkParameters (h : a.Fades a') :
    (checkParameters a').Sublist (checkParameters a) := by
  obtain ⟨op, -, hright⟩ := h
  cases hright with
  | none => exact List.Sublist.refl _
  | @some o o' hright =>
    simp only [checkParameters, Option.bind_some]
    rcases hright.expr.elements?_eq_or with hnone | ⟨es, es', hes, hes', halt⟩
    · rw [hnone]
      exact List.nil_sublist _
    · rw [hes, hes']
      exact sublist_flatMap (fun _ _ => sublist_parameter) halt

theorem sublist_checkFile {paths : Option PathCheck} (h : a.Fades a') :
    (checkFile paths a').Sublist (checkFile paths a) := by
  obtain ⟨op, -, hright⟩ := h
  cases paths with
  | none => exact List.Sublist.refl _
  | some check =>
    cases hright with
    | none => exact List.Sublist.refl _
    | @some o o' hright =>
      simp only [checkFile, hright.span_eq]
      rcases hright.expr.stringToken?_eq_or with htoken | htoken
      · rw [htoken]
      · rw [htoken]
        exact List.nil_sublist _

/-- What a command has to say about operands that are partly hidden it said before. -/
theorem sublist_check (o : Operator) (paths : Option PathCheck) (h : a.Fades a') :
    (o.check paths a').Sublist (o.check paths a) := by
  unfold check
  cases o.rule with
  | types => exact sublist_checkTypes h
  | condition => exact sublist_checkCondition h
  | branches => exact sublist_checkThen h
  | leaves => exact sublist_checkLeave h
  | parameters => exact (sublist_checkTypes h).append (sublist_checkParameters h)
  | loader => exact (sublist_checkTypes h).append (sublist_checkFile h)

end Operator

/-! ## Applications -/

namespace Application.Fades

variable {a a' : Application}

theorem op_eq (h : a.Fades a') : a'.op = a.op := by
  cases h
  rfl

theorem span_eq (h : a.Fades a') : a'.span = a.span := by
  obtain ⟨op, hleft, hright⟩ := h
  have hspan : ∀ {o o' : Option Operand}, Option.Rel Operand.Fades o o' →
      o'.map Operand.span = o.map Operand.span
    | _, _, .none => rfl
    | _, _, .some h => congrArg some h.span_eq
  rw [span, span, hspan hleft, hspan hright]

/-- Operands may be hidden, but they are there. -/
theorem arityComplaint_eq (h : a.Fades a') : a'.arityComplaint = a.arityComplaint := by
  have harity : a'.arity = a.arity := by
    obtain ⟨op, hleft, hright⟩ := h
    cases hleft <;> cases hright <;> rfl
  have hright : a'.right.isSome = a.right.isSome := by
    obtain ⟨op, hleft, hright⟩ := h
    cases hright <;> rfl
  funext o
  rw [arityComplaint, arityComplaint, fits, fits, arityMessage, arityMessage, h.span_eq, h.op_eq,
    harity, ← Option.not_isSome, ← Option.not_isSome, hright]

theorem sublist_loopCounter (h : a.Fades a') : (loopCounter a').Sublist (loopCounter a) := by
  obtain ⟨op, hleft, hright⟩ := h
  cases hleft with
  | some h => simp [loopCounter]
  | none =>
    cases hright with
    | none => exact List.Sublist.refl _
    | some hright =>
      simp only [loopCounter, Option.bind_some]
      rcases hright.expr.stringToken?_eq_or with htoken | htoken
      · rw [htoken]
      · rw [htoken]
        simp

theorem sublist_checkApplication (h : a.Fades a') (c : Checker) :
    (c.checkApplication a').Sublist (c.checkApplication a) := by
  unfold Checker.checkApplication
  rw [h.op_eq, h.arityComplaint_eq]
  split
  · exact List.Sublist.refl _
  · refine List.Sublist.append ?_ h.sublist_loopCounter
    split
    · exact Operator.sublist_check _ _ h
    · exact List.Sublist.refl _

/-- The type of a value is known as before, or it is not known. -/
theorem fadesTo_resultType (h : a.Fades a') (name : String) :
    (resultType name (a.left.map Operand.type) (a.right.map Operand.type)).FadesTo
      (resultType name (a'.left.map Operand.type) (a'.right.map Operand.type)) := by
  obtain ⟨op, hleft, hright⟩ := h
  unfold resultType OperandType.FadesTo
  split
  · exact .inl rfl
  split_ifs
  · cases hleft with
    | none =>
      cases hright with
      | none => exact .inl rfl
      | some hr => exact hr.type
    | some hl =>
      cases hright with
      | none => exact .inl rfl
      | some hr =>
        have hltype := hl.type
        have hrtype := hr.type
        unfold OperandType.FadesTo at hltype hrtype
        grind
  · exact .inl rfl

end Application.Fades

/-! ## Trees -/

/-- `t'` has a type that `t` may fade to, and nothing was found that was not found for `t`. -/
structure Typed.Fades (t t' : Typed) : Prop where
  /-- The type is the same, or it is not known. -/
  type : t.type.FadesTo t'.type
  /-- Something may not have been found. -/
  entries : t'.entries.Sublist t.entries

theorem Typed.Fades.refl (t : Typed) : t.Fades t :=
  ⟨.inl rfl, List.Sublist.refl _⟩

theorem Application.Fades.fades_applied {a a' : Application} (h : a.Fades a') (c : Checker)
    {es es' : List Entry} (hes : es'.Sublist es) :
    ((c.applied a).after es).Fades ((c.applied a').after es') := by
  constructor
  · simp only [Typed.after, Checker.applied, h.op_eq]
    exact h.fadesTo_resultType _
  · exact hes.append (h.sublist_checkApplication c)

/-- Of what a macro stands for nothing is known. -/
theorem Expr.Hides.fades_typed {mid e' : Expr} (h : mid.Hides e') (c : Checker) (t : Typed) :
    t.Fades (e'.typed c) := by
  obtain ⟨name, rfl⟩ := h
  rw [Expr.typed]
  exact ⟨.inr rfl, List.nil_sublist _⟩

mutual

theorem fades_typed (c : Checker) :
    ∀ (e : Expr) {e' : Expr}, e.Altered Expr.Hides e' → (e.typed c).Fades (e'.typed c)
  | .number _, _, h | .string _, _, h | .reference _, _, h | .expansion _ _, _, h
  | .invalid _, _, h | .nullary _, _, h => by
    cases h with
    | same => exact .refl _
    | change _ hide => exact hide.fades_typed c _
  | .array elements _, _, h => by
    cases h with
    | same => exact .refl _
    | change _ hide => exact hide.fades_typed c _
    | array span hes =>
      rw [Expr.typed, Expr.typed]
      exact ⟨.inl rfl, sublist_entriesOfExprs c elements hes⟩
  | .code body _, _, h => by
    cases h with
    | same => exact .refl _
    | change _ hide => exact hide.fades_typed c _
    | code span hss =>
      rw [Expr.typed, Expr.typed]
      exact ⟨.inl rfl, sublist_entriesOfStatements c body hss⟩
  | .paren inner _, _, h => by
    cases h with
    | same => exact .refl _
    | change _ hide => exact hide.fades_typed c _
    | paren span h =>
      rw [Expr.typed, Expr.typed]
      exact fades_typed c inner h
  | .unary op right, _, h => by
    cases h with
    | same => exact .refl _
    | change _ hide => exact hide.fades_typed c _
    | unary _ h =>
      have hright := fades_typed c right h
      rw [Expr.typed, Expr.typed]
      exact Application.Fades.fades_applied ⟨op, .none, .some ⟨h, hright.type⟩⟩ c hright.entries
  | .binary left op right, _, h => by
    cases h with
    | same => exact .refl _
    | change _ hide => exact hide.fades_typed c _
    | binary _ hl hr =>
      have hleft := fades_typed c left hl
      have hright := fades_typed c right hr
      rw [Expr.typed, Expr.typed]
      exact Application.Fades.fades_applied
        ⟨op, .some ⟨hl, hleft.type⟩, .some ⟨hr, hright.type⟩⟩ c
        (hleft.entries.append hright.entries)
  | .dangling left op, _, h => by
    cases h with
    | same => exact .refl _
    | change _ hide => exact hide.fades_typed c _
    | dangling _ h =>
      have hleft := fades_typed c left h
      rw [Expr.typed, Expr.typed]
      exact Application.Fades.fades_applied ⟨op, .some ⟨h, hleft.type⟩, .none⟩ c hleft.entries

theorem sublist_entriesOfExprs (c : Checker) :
    ∀ (es : List Expr) {es' : List Expr}, AlteredExprs Expr.Hides es es' →
      (entriesOfExprs c es').Sublist (entriesOfExprs c es)
  | [], _, .nil => List.Sublist.refl _
  | e :: es, _, .cons h hes => by
    rw [entriesOfExprs, entriesOfExprs]
    exact (fades_typed c e h).entries.append (sublist_entriesOfExprs c es hes)

theorem sublist_entries (c : Checker) :
    ∀ (s : Statement) {s' : Statement}, s.Altered Expr.Hides s' →
      (s'.entries c).Sublist (s.entries c)
  | .assignment _ _ value, _, .assignment _ _ h => by
    rw [Statement.entries, Statement.entries]
    exact (fades_typed c value h).entries
  | .expression value, _, .expression h => by
    rw [Statement.entries, Statement.entries]
    exact (fades_typed c value h).entries

theorem sublist_entriesOfStatements (c : Checker) :
    ∀ (ss : List Statement) {ss' : List Statement}, AlteredStatements Expr.Hides ss ss' →
      (entriesOfStatements c ss').Sublist (entriesOfStatements c ss)
  | [], _, .nil => List.Sublist.refl _
  | s :: ss, _, .cons h hss => by
    rw [entriesOfStatements, entriesOfStatements]
    exact (sublist_entries c s h).append (sublist_entriesOfStatements c ss hss)

end

/-! ## Runs -/

theorem Journal.errors_writeAll (j : Journal) (es : List Entry) :
    (j.writeAll es).errors =
      j.errors ++ (es.filterMap Entry.diagnostic?).filter Diagnostic.isError := by
  rw [errors, diagnostics_eq_filterMap, toList_entries_writeAll, List.filterMap_append,
    List.filter_append, ← diagnostics_eq_filterMap]
  rfl

/-- To hide parts of an expression behind macros adds no complaint. Whatever the commands, the
options and the files are, and whatever was found before, the errors that are found in what is left
of the expression are among those that are found in the expression, and in the same order. Its type
is the type of the expression, or it is not known. -/
theorem errors_hidden (catalogue : Catalogue) (options : Options) (files : Files) {e e' : Expr}
    (h : e.Altered Expr.Hides e') (j : Journal) :
    let c := Checker.ofOptions catalogue options files
    (∃ found found' : List Diagnostic,
      (j.writeAll (e.typed c).entries).errors = j.errors ++ found ∧
      (j.writeAll (e'.typed c).entries).errors = j.errors ++ found' ∧ found'.Sublist found) ∧
    ((e'.typed c).type = (e.typed c).type ∨ (e'.typed c).type = .any) := by
  intro c
  have hfades := fades_typed c e h
  refine ⟨⟨_, _, j.errors_writeAll _, j.errors_writeAll _, ?_⟩, hfades.type⟩
  exact (hfades.entries.filterMap _).filter _

/-- Two numbers stand where names of parameters have to be. The second is hidden, and with it what
is wrong about it. -/
theorem errors_hidden_parameters :
    let word (text : String) (span : Span) : Token := ⟨.identifier, text, span, none⟩
    let place (column : Nat) : Span := ⟨⟨1, column⟩, ⟨1, column⟩⟩
    let number (column : Nat) : Expr := .number ⟨.number, "5", place column, none⟩
    let list (second : Expr) : Expr :=
      .unary (word "params" ⟨⟨1, 1⟩, ⟨1, 6⟩⟩) (.array [number 9, second] ⟨⟨1, 8⟩, ⟨1, 13⟩⟩)
    let e := list (number 12)
    let e' := list (.expansion (word "N" (place 12)) (place 12))
    let catalogue := Catalogue.ofLines [⟨"params", .unary, [], [.array]⟩]
    let c := Checker.ofOptions catalogue {} (.memory [])
    let errors (x : Expr) := (({} : Journal).writeAll (x.typed c).entries).errors
    (errors e).map (·.span) = [place 9, place 12] ∧ (errors e').map (·.span) = [place 9] ∧
      ∃ found found' : List Diagnostic, errors e = found ∧ errors e' = found' ∧
        found'.Sublist found := by
  intro word place number list e e' catalogue c errors
  have h : e.Altered Expr.Hides e' :=
    .unary _ (.array _
      (.cons (.same _) (.cons (.change (.same _) ⟨word "N" (place 12), rfl⟩) .nil)))
  exact ⟨by decide +kernel, by decide +kernel,
    (errors_hidden catalogue {} (.memory []) h {}).1⟩

end SqfCheck
