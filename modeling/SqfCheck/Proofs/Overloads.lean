import Mathlib.Data.List.Dedup
import Mathlib.Data.List.Induction
import SqfCheck.Catalogue

/-!
# The overloads of a catalogue

A catalogue is the union of its lines (`Catalogue.IsUnionOf`). What it knows of a name are the
overloads on the lines of that name, taken together, so the order of lines does not matter, nor how
often a line stands there, nor what stands on lines that are no overload (`ofText_union`).

Lines are added one by one, to two maps. One more line changes what either map knows of its own name
and of no other (`Catalogue.command?_add`, `Catalogue.operator?_add`), and it leaves the rule of the
name as it is. What all lines of a name come to is said at once by `Overloads.ofLines` and
`Operator.ofLines`, in which lines are only asked for what some of them has
(`Catalogue.command?_ofLines`, `Catalogue.operator?_ofLines`).
-/

namespace SqfCheck

/-! ## Sets of types -/

namespace TypeSet

variable (s : TypeSet) {types types' : List OperandType}

theorem insertAll_congr (h : ∀ t, t ∈ types ↔ t ∈ types') :
    s.insertAll types = s.insertAll types' := by
  simp only [insertAll, h]

theorem insertAll_append (types types' : List OperandType) :
    s.insertAll (types ++ types') = (s.insertAll types).insertAll types' := by
  rw [insertAll, insertAll]
  simp only [mem_insertAll, List.mem_append, or_assoc]

end TypeSet

/-! ## The overloads of one name -/

namespace Overloads

/-- The overloads on the given lines taken together. -/
def ofLines (lines : List CatalogueLine) : Overloads where
  nullary := lines.any (·.arity = .nullary)
  unary := lines.any (·.arity = .unary)
  binary := lines.any (·.arity = .binary)

theorem ofLines_append_singleton (lines : List CatalogueLine) (line : CatalogueLine) :
    ofLines (lines ++ [line]) = (ofLines lines).add line := by
  simp [ofLines, add]

variable {lines : List CatalogueLine}

theorem supports_ofLines {arity : Arity} :
    (ofLines lines).supports arity = true ↔ ∃ line ∈ lines, line.arity = arity := by
  cases arity <;> simp [ofLines, supports]

/-- What lines come to depends on which lines there are, and on nothing else. -/
theorem ofLines_congr {lines' : List CatalogueLine} (h : ∀ line, line ∈ lines ↔ line ∈ lines') :
    ofLines lines = ofLines lines' := by
  have hany : ∀ p : CatalogueLine → Bool, lines.any p = lines'.any p := by
    intro p
    rw [Bool.eq_iff_iff, List.any_eq_true, List.any_eq_true]
    simp only [h]
  simp only [ofLines, hany]

end Overloads

namespace Operator

/-- What applications are checked against by a rule and the types on the given lines. -/
def ofLines (rule : Rule) (lines : List CatalogueLine) : Operator where
  rule := rule
  left := ({} : TypeSet).insertAll (lines.flatMap (·.left))
  right := ({} : TypeSet).insertAll (lines.flatMap (·.right))

theorem ofLines_nil (rule : Rule) : ofLines rule [] = { rule } :=
  rfl

theorem ofLines_append_singleton (rule : Rule) (lines : List CatalogueLine)
    (line : CatalogueLine) : ofLines rule (lines ++ [line]) = (ofLines rule lines).add line := by
  simp [ofLines, add, TypeSet.insertAll_append]

variable {rule : Rule} {lines : List CatalogueLine}

theorem mem_left_ofLines {t : OperandType} :
    t ∈ (ofLines rule lines).left.members ↔ ∃ line ∈ lines, t ∈ line.left := by
  simp [ofLines]

theorem mem_right_ofLines {t : OperandType} :
    t ∈ (ofLines rule lines).right.members ↔ ∃ line ∈ lines, t ∈ line.right := by
  simp [ofLines]

theorem ofLines_congr {lines' : List CatalogueLine} (h : ∀ line, line ∈ lines ↔ line ∈ lines') :
    ofLines rule lines = ofLines rule lines' := by
  have hflat : ∀ (f : CatalogueLine → List OperandType) (t : OperandType),
      t ∈ lines.flatMap f ↔ t ∈ lines'.flatMap f := by
    intro f t
    simp only [List.mem_flatMap, h]
  simp only [ofLines, TypeSet.insertAll_congr _ (hflat _)]

end Operator

/-! ## Lookups -/

/-- The lines of the given name. -/
def CatalogueLine.named (name : String) (lines : List CatalogueLine) : List CatalogueLine :=
  lines.filter (·.name = name)

theorem CatalogueLine.mem_named {name : String} {lines : List CatalogueLine}
    {line : CatalogueLine} : line ∈ named name lines ↔ line ∈ lines ∧ line.name = name := by
  simp [named]

namespace Catalogue

open CatalogueLine

/-- One more line changes what is known of its name. -/
theorem command?_add (c : Catalogue) (line : CatalogueLine) (name : String) :
    (c.add line).command? name =
      if line.name = name then some (((c.command? name).getD {}).add line)
      else c.command? name := by
  rw [command?, add, Std.TreeMap.getElem?_alter]
  simp only [Std.LawfulEqCmp.compare_eq_iff_eq]
  split_ifs with h
  · rw [h]
    rfl
  · rfl

/-- One more line changes what applications of its name are checked against, but not the rule. -/
theorem operator?_add (c : Catalogue) (line : CatalogueLine) (name : String) :
    (c.add line).operator? name =
      if line.name = name then some (((c.operator? name).getD { rule := .types }).add line)
      else c.operator? name := by
  rw [operator?, add, Std.TreeMap.getElem?_alter]
  simp only [Std.LawfulEqCmp.compare_eq_iff_eq]
  split_ifs with h
  · rw [h]
    rfl
  · rfl

theorem named_append_singleton (name : String) (lines : List CatalogueLine)
    (line : CatalogueLine) : named name (lines ++ [line]) =
      named name lines ++ if line.name = name then [line] else [] := by
  simp [named, List.filter_append, List.filter_singleton]

theorem command?_ofLines (lines : List CatalogueLine) (name : String) :
    (ofLines lines).command? name =
      if named name lines = [] then none else some (Overloads.ofLines (named name lines)) := by
  induction lines using List.reverseRecOn with
  | nil => exact Std.TreeMap.getElem?_emptyc
  | append_singleton lines line ih =>
    rw [ofLines, List.foldl_append, List.foldl_cons, List.foldl_nil, command?_add,
      show (lines.foldl add {}).command? name = _ from ih, named_append_singleton]
    by_cases hname : line.name = name
    · -- without lines of this name before it, the line is added to no overloads
      by_cases hnone : named name lines = []
      · simp only [if_pos hname, hnone, if_true, Option.getD_none]
        exact congrArg some (Overloads.ofLines_append_singleton [] line).symm
      · simp [hname, hnone, Overloads.ofLines_append_singleton]
    · simp [hname]

theorem isSome_command?_ofLines (lines : List CatalogueLine) (name : String) :
    ((ofLines lines).command? name).isSome = true ↔ ∃ line ∈ lines, line.name = name := by
  rw [command?_ofLines]
  split_ifs with h
  · simpa [named] using h
  · simpa [named] using h

/-- What is known of a command is what its lines come to. -/
theorem eq_ofLines_of_command? {lines : List CatalogueLine} {name : String} {o : Overloads}
    (h : (ofLines lines).command? name = some o) : o = Overloads.ofLines (named name lines) := by
  rw [command?_ofLines] at h
  split_ifs at h
  exact (Option.some.inj h).symm

/-- Applications of a name are checked by its own rule, if it has one, and by types if lines have
the name. In either case the types are those of the lines. -/
theorem operator?_ofLines (lines : List CatalogueLine) (name : String) :
    (ofLines lines).operator? name =
      ((Rule.fixed? name).or (if named name lines = [] then none else some .types)).map
        (Operator.ofLines · (named name lines)) := by
  induction lines using List.reverseRecOn with
  | nil =>
    rw [ofLines, List.foldl_nil, operator?, Operator.getElem?_ofRules]
    simp [named, Rule.fixed?, Operator.ofLines_nil]
  | append_singleton lines line ih =>
    rw [ofLines, List.foldl_append, List.foldl_cons, List.foldl_nil, operator?_add,
      show (lines.foldl add {}).operator? name = _ from ih, named_append_singleton]
    by_cases hname : line.name = name
    · cases hfixed : Rule.fixed? name with
      | some rule => simp [hname, Operator.ofLines_append_singleton]
      | none =>
        by_cases hnone : named name lines = []
        · simp only [if_pos hname, hnone, if_true, Option.or_none, Option.map_none,
            Option.getD_none, ← Operator.ofLines_nil, ← Operator.ofLines_append_singleton]
          simp
        · simp [hname, hnone, Operator.ofLines_append_singleton]
    · simp [hname]

/-! ## The catalogue as a union -/

/-- The catalogue knows what the lines say, and nothing else. -/
structure IsUnionOf (c : Catalogue) (lines : List CatalogueLine) : Prop where
  /-- The commands are the names of lines. -/
  commands : ∀ name, (c.command? name).isSome = true ↔ ∃ line ∈ lines, line.name = name
  /-- A command has the arities of its lines. -/
  arities : ∀ name o, c.command? name = some o → ∀ arity,
    o.supports arity = true ↔ ∃ line ∈ lines, line.name = name ∧ line.arity = arity
  /-- Applications are checked of commands, and of eight names in any case. -/
  operators : ∀ name, (c.operator? name).isSome = true ↔
    (∃ line ∈ lines, line.name = name) ∨ name ∈ ["params", "if", "then", "exitwith", "execvm",
      "preprocessfile", "preprocessfilelinenumbers", "loadfile"]
  /-- The names with rules of their own keep them, and all others have their types checked. -/
  rules : ∀ name o, c.operator? name = some o → o.rule = (Rule.fixed? name).getD .types
  /-- The types to the left are those of the lines. -/
  left : ∀ name o, c.operator? name = some o → ∀ t,
    t ∈ o.left.members ↔ ∃ line ∈ lines, line.name = name ∧ t ∈ line.left
  /-- The types to the right are those of the lines. -/
  right : ∀ name o, c.operator? name = some o → ∀ t,
    t ∈ o.right.members ↔ ∃ line ∈ lines, line.name = name ∧ t ∈ line.right
  /-- Commands are counted by name. -/
  size : c.size = (lines.map (·.name)).dedup.length

theorem isSome_fixed? {name : String} : (Rule.fixed? name).isSome = true ↔
    name ∈ ["params", "if", "then", "exitwith", "execvm", "preprocessfile",
      "preprocessfilelinenumbers", "loadfile"] := by
  rw [Rule.fixed?, List.lookup_isSome_iff]
  simp only [Rule.fixed, List.mem_cons, List.not_mem_nil]
  grind

/-- What applications of a name are checked against are its rule and the types of its lines, of
which there may be none if the name has a rule of its own. -/
theorem eq_of_operator? {lines : List CatalogueLine} {name : String} {o : Operator}
    (h : (ofLines lines).operator? name = some o) :
    o = Operator.ofLines ((Rule.fixed? name).getD .types) (named name lines) := by
  have hrule := rule_of_operator? _ h
  rw [operator?_ofLines] at h
  obtain ⟨rule, -, rfl⟩ := Option.map_eq_some_iff.1 h
  rw [← hrule]
  rfl

theorem size_ofLines (lines : List CatalogueLine) :
    (ofLines lines).size = (lines.map (·.name)).dedup.length := by
  have hperm : (ofLines lines).commands.keys.Perm (lines.map (·.name)).dedup := by
    refine (List.perm_ext_iff_of_nodup Std.TreeMap.nodup_keys (List.nodup_dedup _)).2 fun name => ?_
    rw [Std.TreeMap.mem_keys, Std.TreeMap.mem_iff_isSome_getElem?, List.mem_dedup, List.mem_map]
    exact isSome_command?_ofLines lines name
  rw [size, ← Std.TreeMap.length_keys, hperm.length_eq]

theorem isUnionOf_ofLines (lines : List CatalogueLine) : (ofLines lines).IsUnionOf lines where
  commands := isSome_command?_ofLines lines
  arities name o h arity := by
    rw [eq_ofLines_of_command? h, Overloads.supports_ofLines]
    simp only [mem_named, and_assoc]
  operators name := by
    rw [isSome_operator?, isSome_command?_ofLines, isSome_fixed?]
  rules _ _ := rule_of_operator? _
  left name o h t := by
    rw [eq_of_operator? h, Operator.mem_left_ofLines]
    simp only [mem_named, and_assoc]
  right name o h t := by
    rw [eq_of_operator? h, Operator.mem_right_ofLines]
    simp only [mem_named, and_assoc]
  size := size_ofLines lines

/-- Catalogues of the same lines know the same, in whatever order the lines stand and however
often. -/
theorem lookups_congr {lines lines' : List CatalogueLine}
    (h : ∀ line, line ∈ lines ↔ line ∈ lines') (name : String) :
    (ofLines lines).command? name = (ofLines lines').command? name ∧
      (ofLines lines).operator? name = (ofLines lines').operator? name := by
  have hnamed : ∀ line, line ∈ named name lines ↔ line ∈ named name lines' := by
    intro line
    rw [mem_named, mem_named, h]
  have hnil : named name lines = [] ↔ named name lines' = [] := by
    simp only [List.eq_nil_iff_forall_not_mem, hnamed]
  constructor
  · rw [command?_ofLines, command?_ofLines, Overloads.ofLines_congr hnamed, if_congr hnil rfl rfl]
  · rw [operator?_ofLines, operator?_ofLines, if_congr hnil rfl rfl]
    simp only [Operator.ofLines_congr hnamed]

theorem size_congr {lines lines' : List CatalogueLine}
    (h : ∀ line, line ∈ lines ↔ line ∈ lines') : (ofLines lines).size = (ofLines lines').size := by
  have hperm : (lines.map (·.name)).dedup.Perm (lines'.map (·.name)).dedup := by
    refine (List.perm_ext_iff_of_nodup (List.nodup_dedup _) (List.nodup_dedup _)).2 fun name => ?_
    simp only [List.mem_dedup, List.mem_map, h]
  rw [size_ofLines, size_ofLines, hperm.length_eq]

end Catalogue

open CatalogueLine in
/-- A catalogue is the union of its lines, whatever text it is read from. It has a command for each
name on a line that is an overload, with the arities of the lines of that name. Applications are
checked of these names and of eight names with rules of their own, by the rule of the name, and
against the types on the lines of that name, side by side. Commands are counted by name. So two
texts with the same overloads make the same catalogue : neither their order matters, nor how often
they stand there, nor what else stands between them. -/
theorem ofText_union (text : String) :
    (Catalogue.ofText text).IsUnionOf (readAll text) ∧
    ∀ other : String, (∀ line, line ∈ readAll other ↔ line ∈ readAll text) →
      (∀ name, (Catalogue.ofText other).command? name = (Catalogue.ofText text).command? name ∧
        (Catalogue.ofText other).operator? name = (Catalogue.ofText text).operator? name) ∧
      (Catalogue.ofText other).size = (Catalogue.ofText text).size := by
  exact ⟨Catalogue.isUnionOf_ofLines _, fun other h =>
    ⟨Catalogue.lookups_congr h, Catalogue.size_congr h⟩⟩

open CatalogueLine in
/-- Lines in another order and another case, one of them twice, with a line between them that is no
overload. -/
theorem ofText_union_reordered :
    let text := "u:foo SCALAR\nb:OBJECT Foo ARRAY\nu:params ARRAY"
    let other := "U:params array\n// more\nb:OBJECT foo ARRAY\nu:FOO SCALAR\nunary:foo scalar\n"
    (∀ line, line ∈ readAll other ↔ line ∈ readAll text) ∧
      (Catalogue.ofText text).size = 2 ∧ (Catalogue.ofText other).size = 2 ∧
      (Catalogue.ofText other).operator? "foo" = some ⟨.types, ⟨[.object]⟩, ⟨[.number, .array]⟩⟩ ∧
      (Catalogue.ofText other).operator? "foo" = (Catalogue.ofText text).operator? "foo" := by
  intro text other
  have htext : readAll text = [⟨"foo", .unary, [], [.number]⟩,
      ⟨"foo", .binary, [.object], [.array]⟩, ⟨"params", .unary, [], [.array]⟩] := by
    decide +kernel
  have hother : readAll other = [⟨"params", .unary, [], [.array]⟩,
      ⟨"foo", .binary, [.object], [.array]⟩, ⟨"foo", .unary, [], [.number]⟩,
      ⟨"foo", .unary, [], [.number]⟩] := by
    decide +kernel
  have hlines : ∀ line, line ∈ readAll other ↔ line ∈ readAll text := by
    intro line
    simp only [htext, hother, List.mem_cons, List.not_mem_nil, or_false]
    tauto
  obtain ⟨hunion, hsame⟩ := ofText_union text
  obtain ⟨hnames, hsize⟩ := hsame other hlines
  have htwo : (Catalogue.ofText text).size = 2 := by
    rw [hunion.size, htext]
    decide +kernel
  exact ⟨hlines, htwo, hsize.trans htwo, by decide +kernel, (hnames "foo").2⟩

end SqfCheck
