import SqfCheck.Lint
import SqfCheck.Proofs.Entries
import SqfCheck.Proofs.Overloads
import SqfCheck.Proofs.Paths
import SqfCheck.Proofs.Walk

/-!
# Applications that are accepted

An application is accepted if nothing is complained of about it (`Checker.Accepts`). More overloads
only widen what is accepted, and an overload that takes the operands is enough for a command that
has no rule of its own (`accepts_overloads`).

Sets of types are not monotone by themselves : an empty set lets everything pass, and one more type
makes it strict. But a side on which no types are listed is never asked. If the application has an
operand there and the command takes operands in these places, then some line of the command takes
them, and a line names a type on each side on which it takes an operand
(`CatalogueLine.NamesTypes`, `Application.fits_asks`). On the sides that are asked a set with more
types accepts more (`TypeSet.accepts_mono`), and what rules ask besides types does not depend on the
catalogue (`Operator.silent_check_mono`).
-/

namespace SqfCheck

/-! ## Sets of types -/

/-- The types have a place for an operand of type `t` : they list it or any type, or it is not
known. -/
def OperandType.ListedIn (t : OperandType) (types : List OperandType) : Prop :=
  t = .any ∨ .any ∈ types ∨ t ∈ types

theorem OperandType.ListedIn.mono {t : OperandType} {types types' : List OperandType}
    (h : t.ListedIn types) (hsub : types ⊆ types') : t.ListedIn types' :=
  h.imp_right (Or.imp (@hsub _) (@hsub _))

namespace TypeSet

variable {s s' : TypeSet} {t : OperandType}

theorem accepts_iff : s.accepts t = true ↔ s.members = [] ∨ t.ListedIn s.members := by
  simp only [accepts, OperandType.ListedIn, Bool.or_eq_true, decide_eq_true_eq,
    List.isEmpty_iff, List.contains_iff_mem]
  tauto

/-- More types let more pass, unless nothing was asked before. -/
theorem accepts_mono (hne : s.members ≠ []) (hsub : s.members ⊆ s'.members)
    (h : s.accepts t = true) : s'.accepts t = true := by
  have hlisted : t.ListedIn s.members := (accepts_iff.1 h).resolve_left hne
  exact accepts_iff.2 (.inr (hlisted.mono hsub))

end TypeSet

/-! ## Lines -/

namespace CatalogueLine

/-- The line names a type on each side on which it takes an operand. -/
def NamesTypes (line : CatalogueLine) : Prop :=
  (line.arity = .binary → line.left ≠ []) ∧ (line.arity ≠ .nullary → line.right ≠ [])

instance (line : CatalogueLine) : Decidable line.NamesTypes :=
  inferInstanceAs (Decidable (_ ∧ _))

/-- The line has the places of the application, and lists the type of each operand. -/
def Takes (line : CatalogueLine) (a : Application) : Prop :=
  match line.arity, a.left, a.right with
  | .nullary, none, none => True
  | .unary, none, some r => r.type.ListedIn line.right
  | .binary, some l, some r => l.type.ListedIn line.left ∧ r.type.ListedIn line.right
  | _, _, _ => False

/-- Text after a line break adds its lines. -/
theorem readAll_append (text more : String) :
    readAll (text ++ "\n" ++ more) = readAll text ++ readAll more := by
  have hchars : (text ++ "\n" ++ more).toList = text.toList ++ '\n' :: more.toList := by simp
  rw [readAll, hchars, Text.splitOn_eq, List.splitOn_append_cons_self, List.filterMap_append,
    ← Text.splitOn_eq, ← Text.splitOn_eq]
  rfl

end CatalogueLine

/-! ## Types on lines -/

namespace Operator

variable {lines lines' : List CatalogueLine}

theorem left_subset (rule : Rule) (h : lines ⊆ lines') :
    (ofLines rule lines).left.members ⊆ (ofLines rule lines').left.members := by
  intro t ht
  obtain ⟨line, hline, ht⟩ := mem_left_ofLines.1 ht
  exact mem_left_ofLines.2 ⟨line, h hline, ht⟩

theorem right_subset (rule : Rule) (h : lines ⊆ lines') :
    (ofLines rule lines).right.members ⊆ (ofLines rule lines').right.members := by
  intro t ht
  obtain ⟨line, hline, ht⟩ := mem_right_ofLines.1 ht
  exact mem_right_ofLines.2 ⟨line, h hline, ht⟩

end Operator

namespace Application

variable {a : Application} {lines lines' : List CatalogueLine}

theorem fits_iff {o : Overloads} : a.fits o = true ↔
    o.supports a.arity = true ∧ (a.arity = .binary → a.right.isSome = true) := by
  simp [fits, Decidable.imp_iff_not_or]

theorem fits_mono (h : lines ⊆ lines') (hfits : a.fits (.ofLines lines) = true) :
    a.fits (.ofLines lines') = true := by
  obtain ⟨harity, hright⟩ := fits_iff.1 hfits
  obtain ⟨line, hline, hline'⟩ := Overloads.supports_ofLines.1 harity
  exact fits_iff.2 ⟨Overloads.supports_ofLines.2 ⟨line, h hline, hline'⟩, hright⟩

/-- If lines name types, there are types on the sides on which an application has operands that the
lines take. -/
theorem fits_asks (rule : Rule) (hlines : ∀ line ∈ lines, line.NamesTypes)
    (hfits : a.fits (.ofLines lines) = true) :
    (∀ o ∈ a.left, (Operator.ofLines rule lines).left.members ≠ []) ∧
      ∀ o ∈ a.right, (Operator.ofLines rule lines).right.members ≠ [] := by
  obtain ⟨line, hline, harity⟩ := Overloads.supports_ofLines.1 (fits_iff.1 hfits).1
  obtain ⟨hleft, hright⟩ := hlines line hline
  constructor
  · intro o ho
    have hbinary : a.arity = .binary := by
      rw [arity, Option.mem_def.1 ho]
    obtain ⟨t, ht⟩ := List.exists_mem_of_ne_nil _ (hleft (harity.trans hbinary))
    exact List.ne_nil_of_mem (Operator.mem_left_ofLines.2 ⟨line, hline, ht⟩)
  · intro o ho
    have hoperand : a.arity ≠ .nullary := by
      rw [arity, Option.mem_def.1 ho]
      cases a.left <;> simp
    obtain ⟨t, ht⟩ := List.exists_mem_of_ne_nil _ (hright (harity ▸ hoperand))
    exact List.ne_nil_of_mem (Operator.mem_right_ofLines.2 ⟨line, hline, ht⟩)

theorem fits_of_takes {line : CatalogueLine} (hline : line ∈ lines) (h : line.Takes a) :
    a.fits (.ofLines lines) = true := by
  have hplaces : line.arity = a.arity ∧ (a.arity = .binary → a.right.isSome = true) := by
    rcases a with ⟨op, _ | l, _ | r⟩ <;> cases harity : line.arity <;>
      simp_all [CatalogueLine.Takes, arity]
  exact fits_iff.2 ⟨Overloads.supports_ofLines.2 ⟨line, hline, hplaces.1⟩, hplaces.2⟩

end Application

/-- The types of all lines include those of a line that takes the operands. -/
theorem CatalogueLine.Takes.accepts {line : CatalogueLine} {lines : List CatalogueLine}
    {a : Application} (rule : Rule) (h : line.Takes a) (hline : line ∈ lines) :
    (∀ x ∈ a.left, (Operator.ofLines rule lines).left.accepts x.type = true) ∧
      ∀ x ∈ a.right, (Operator.ofLines rule lines).right.accepts x.type = true := by
  have hleft : line.left ⊆ (Operator.ofLines rule lines).left.members :=
    fun t ht => Operator.mem_left_ofLines.2 ⟨line, hline, ht⟩
  have hright : line.right ⊆ (Operator.ofLines rule lines).right.members :=
    fun t ht => Operator.mem_right_ofLines.2 ⟨line, hline, ht⟩
  unfold Takes at h
  split at h
  · next hl hr => simp [hl, hr]
  · next r _ hl hr =>
    simp only [hl, hr, Option.mem_def, reduceCtorEq, false_imp_iff, implies_true, true_and,
      Option.some.injEq, forall_eq']
    exact TypeSet.accepts_iff.2 (.inr (h.mono hright))
  · next l r _ hl hr =>
    simp only [hl, hr, Option.mem_def, Option.some.injEq, forall_eq']
    exact ⟨TypeSet.accepts_iff.2 (.inr (h.1.mono hleft)),
      TypeSet.accepts_iff.2 (.inr (h.2.mono hright))⟩
  · exact absurd h id

/-! ## Checks without complaints -/

/-- Entries among which there is no diagnostic. -/
def Silent (es : List Entry) : Prop :=
  es.filterMap Entry.diagnostic? = []

theorem silent_append {es fs : List Entry} : Silent (es ++ fs) ↔ Silent es ∧ Silent fs := by
  rw [Silent, List.filterMap_append, List.append_eq_nil_iff]
  rfl

namespace Operator

variable {a : Application}

theorem silent_checkSide {types : TypeSet} {side : String} {op : Token} {o : Option Operand} :
    Silent (checkSide types side op o) ↔ ∀ x ∈ o, types.accepts x.type = true := by
  cases o with
  | none => simp [checkSide, Silent]
  | some x =>
    by_cases h : types.accepts x.type = true <;>
      simp [checkSide, Silent, h, Entry.typeMismatch, Entry.diagnostic?]

theorem silent_checkTypes {o : Operator} : Silent (o.checkTypes a) ↔
    (∀ x ∈ a.left, o.left.accepts x.type = true) ∧
      ∀ x ∈ a.right, o.right.accepts x.type = true := by
  rw [checkTypes, silent_append, silent_checkSide, silent_checkSide]

/-- Rules differ from one catalogue to another by the types that they ask for. -/
theorem silent_check_mono {o o' : Operator} {paths : Option PathCheck}
    (h : Silent (o.check paths a)) (hrule : o'.rule = o.rule)
    (htypes : Silent (o.checkTypes a) → Silent (o'.checkTypes a)) :
    Silent (o'.check paths a) := by
  unfold check at h ⊢
  rw [hrule]
  cases hr : o.rule with
  | types =>
    rw [hr] at h
    exact htypes h
  | parameters | loader =>
    simp only [hr, silent_append] at h ⊢
    exact ⟨htypes h.1, h.2⟩
  | condition | branches | leaves =>
    rw [hr] at h
    exact h

end Operator

theorem silent_loopCounter (a : Application) : Silent (loopCounter a) := by
  refine List.filterMap_eq_nil_iff.2 fun e he => ?_
  obtain ⟨name, t, rfl⟩ := exists_of_mem_loopCounter he
  rfl

/-! ## Applications -/

namespace Checker

/-- Nothing is complained of about the application. -/
def Accepts (c : Checker) (a : Application) : Prop :=
  Silent (c.checkApplication a)

/-- An application of a command is accepted if the command takes operands in these places and its
rule has nothing to complain of. -/
theorem accepts_iff {c : Checker} {a : Application} {o : Overloads} {operator : Operator}
    (hcommand : c.catalogue.command? a.op.name = some o)
    (hoperator : c.catalogue.operator? a.op.name = some operator) :
    c.Accepts a ↔ a.fits o = true ∧ Silent (operator.check c.paths a) := by
  rw [Accepts, checkApplication, hcommand, hoperator, Option.bind_some, Application.arityComplaint]
  split_ifs with hfits
  · simp only [silent_append, silent_loopCounter, and_true, hfits, true_and]
  · simp [Silent, Entry.diagnostic?, hfits]

end Checker

/-- What the checks know of a command are its overloads, and its rule with the types of its
lines. -/
theorem Catalogue.lookups_ofLines {lines : List CatalogueLine} {name : String}
    (h : ∃ line ∈ lines, line.name = name) :
    let named := CatalogueLine.named name lines
    (ofLines lines).command? name = some (.ofLines named) ∧
      (ofLines lines).operator? name =
        some (.ofLines ((Rule.fixed? name).getD .types) named) := by
  intro named
  have hsome := (isSome_command?_ofLines lines name).2 h
  obtain ⟨overloads, hcommand⟩ := Option.isSome_iff_exists.1 hsome
  obtain rfl := eq_ofLines_of_command? hcommand
  obtain ⟨operator, hoperator⟩ := Option.isSome_iff_exists.1
    ((isSome_operator? (ofLines lines) name).2 (.inl hsome))
  obtain rfl := eq_of_operator? hoperator
  exact ⟨hcommand, hoperator⟩

namespace Checker

variable {paths : Option PathCheck} {lines lines' : List CatalogueLine} {a : Application}

open CatalogueLine

/-- With more lines what was accepted is accepted. -/
theorem accepts_mono (hsub : lines ⊆ lines') (hlines : ∀ line ∈ lines, line.NamesTypes)
    (hname : ∃ line ∈ lines, line.name = a.op.name)
    (h : Accepts ⟨.ofLines lines, paths⟩ a) : Accepts ⟨.ofLines lines', paths⟩ a := by
  have hname' : ∃ line ∈ lines', line.name = a.op.name := by
    obtain ⟨line, hline, hn⟩ := hname
    exact ⟨line, hsub hline, hn⟩
  have hnamed : named a.op.name lines ⊆ named a.op.name lines' := by
    intro line hline
    obtain ⟨hline, hn⟩ := mem_named.1 hline
    exact mem_named.2 ⟨hsub hline, hn⟩
  obtain ⟨hcommand, hoperator⟩ := Catalogue.lookups_ofLines hname
  obtain ⟨hcommand', hoperator'⟩ := Catalogue.lookups_ofLines hname'
  obtain ⟨hfits, hsilent⟩ := (accepts_iff hcommand hoperator).1 h
  -- what fits is taken by some line of the command, so types are listed wherever an operand is
  obtain ⟨hleft, hright⟩ := Application.fits_asks ((Rule.fixed? a.op.name).getD .types)
    (fun line hline => hlines line (mem_named.1 hline).1) hfits
  refine (accepts_iff hcommand' hoperator').2 ⟨Application.fits_mono hnamed hfits, ?_⟩
  refine Operator.silent_check_mono hsilent rfl fun htypes => ?_
  obtain ⟨hl, hr⟩ := Operator.silent_checkTypes.1 htypes
  refine Operator.silent_checkTypes.2 ⟨fun x hx => ?_, fun x hx => ?_⟩
  · exact TypeSet.accepts_mono (hleft x hx) (Operator.left_subset _ hnamed) (hl x hx)
  · exact TypeSet.accepts_mono (hright x hx) (Operator.right_subset _ hnamed) (hr x hx)

/-- A line that takes the operands is enough if only types are checked. -/
theorem accepts_of_takes {line : CatalogueLine}
    (hrule : (Rule.fixed? a.op.name).getD .types = .types) (hline : line ∈ lines)
    (hname : line.name = a.op.name) (htakes : line.Takes a) :
    Accepts ⟨.ofLines lines, paths⟩ a := by
  have hnamed : line ∈ named a.op.name lines := mem_named.2 ⟨hline, hname⟩
  obtain ⟨hcommand, hoperator⟩ := Catalogue.lookups_ofLines ⟨line, hline, hname⟩
  refine (accepts_iff hcommand hoperator).2 ⟨Application.fits_of_takes hnamed htakes, ?_⟩
  rw [hrule]
  exact Operator.silent_checkTypes.2 (htakes.accepts _ hnamed)

end Checker

open CatalogueLine in
/-- More overloads only widen what is accepted. Take a catalogue whose lines name a type on each
side on which they take an operand, and any application of one of its commands. If the application
is accepted, then it is accepted with any more lines after those of the catalogue. If the command
has no rule of its own and some line of it has the places of the application and lists the type of
each operand, then the application is accepted. -/
theorem accepts_overloads (options : Options) (files : Files) {text : String}
    (htext : ∀ line ∈ readAll text, line.NamesTypes) {a : Application}
    (hname : (Catalogue.ofText text).isCommand a.op.name = true) :
    let accepts (text : String) := (Checker.ofOptions (.ofText text) options files).Accepts a
    (∀ more : String, accepts text → accepts (text ++ "\n" ++ more)) ∧
    (((Catalogue.ofText text).operator? a.op.name).map Operator.rule = some .types →
      (∃ line ∈ readAll text, line.name = a.op.name ∧ line.Takes a) → accepts text) := by
  intro accepts
  have hline := (Catalogue.isSome_command?_ofLines _ _).1 hname
  refine ⟨fun more h => ?_, fun hrule ⟨line, hline, hn, htakes⟩ => ?_⟩
  · have hsub : readAll text ⊆ readAll (text ++ "\n" ++ more) := by
      rw [readAll_append]
      exact List.subset_append_left _ _
    exact Checker.accepts_mono hsub htext hline h
  · obtain ⟨operator, hoperator, htypes⟩ := Option.map_eq_some_iff.1 hrule
    have hfixed := (Catalogue.rule_of_operator? _ hoperator).symm.trans htypes
    exact Checker.accepts_of_takes hfixed hline hn htakes

open CatalogueLine in
/-- A number after a command that takes one. Of the lines that come after it, one has the command
take an array between two operands. -/
theorem accepts_overloads_number :
    let text := "n:player\nu:Foo SCALAR,BOOL"
    let more := "b:OBJECT foo ARRAY\nu:bar STRING"
    let place : Span := ⟨⟨1, 5⟩, ⟨1, 5⟩⟩
    let a : Application := ⟨⟨.identifier, "foo", ⟨⟨1, 1⟩, ⟨1, 3⟩⟩, none⟩, none,
      some ⟨.number, .number ⟨.number, "5", place, none⟩⟩⟩
    let accepts (text : String) := (Checker.ofOptions (.ofText text) {} (.memory [])).Accepts a
    (∀ line ∈ readAll text, line.NamesTypes) ∧
      (Catalogue.ofText text).isCommand a.op.name = true ∧
      ((Catalogue.ofText text).operator? a.op.name).map Operator.rule = some .types ∧
      (∃ line ∈ readAll text, line.name = a.op.name ∧ line.Takes a) ∧
      accepts text ∧ accepts (text ++ "\n" ++ more) := by
  intro text more place a accepts
  have htext : ∀ line ∈ readAll text, line.NamesTypes := by decide +kernel
  have hname : (Catalogue.ofText text).isCommand a.op.name = true := by decide +kernel
  have hrule : ((Catalogue.ofText text).operator? a.op.name).map Operator.rule = some .types := by
    decide +kernel
  have hline : ∃ line ∈ readAll text, line.name = a.op.name ∧ line.Takes a := by
    refine ⟨⟨"foo", .unary, [], [.number, .boolean]⟩, by decide +kernel, by decide +kernel, ?_⟩
    exact .inr (.inr (by decide))
  obtain ⟨hmore, htakes⟩ := accepts_overloads {} (.memory []) htext hname
  exact ⟨htext, hname, hrule, hline, htakes hrule hline, hmore more (htakes hrule hline)⟩

end SqfCheck
