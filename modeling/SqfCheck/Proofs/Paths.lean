import Mathlib.Data.List.DropRight
import SqfCheck.Path

/-!
# Steps of paths

A path is what its steps come to. Joining a relative path adds its steps (`components_join`), the
parent of a path lacks its last step (`components_parent`), and two paths are the same after
`Path.normalise` just if their steps leave the same stack (`normalise_eq_iff`). So beside a file
whose path ends in a name, a relative path leads to the same place however the path of the file
was written (`normalise_join_parent`).
-/

namespace SqfCheck

open Text

/-- Cutting at a separator, as the standard library has it. -/
theorem Text.splitOn_eq (sep : Char) : ∀ cs : List Char, splitOn sep cs = cs.splitOn sep
  | [] => rfl
  | c :: cs => by
    have ih := splitOn_eq sep cs
    rw [splitOn, List.splitOn_cons_eq_if_modifyHead, ← ih]
    by_cases hc : c = sep
    · rw [if_pos hc, if_pos (beq_iff_eq.2 hc)]
    · rw [if_neg hc, if_neg (by simpa using hc)]
      cases hs : splitOn sep cs with
      | nil => exact absurd hs (splitOn_ne_nil sep cs)
      | cons piece pieces => rfl

namespace Path

/-! ## Steps of a text -/

/-- The steps between the slashes of a text. -/
def stepsOf (cs : List Char) : List PathComponent :=
  (splitOn '/' cs).filterMap PathComponent.ofPiece

theorem components_eq (p : Path) :
    p.components = (if p.isAbsolute then [.root] else []) ++ stepsOf p.text.toList :=
  rfl

theorem stepsOf_append (xs ys : List Char) :
    stepsOf (xs ++ '/' :: ys) = stepsOf xs ++ stepsOf ys := by
  simp only [stepsOf, splitOn_eq, List.splitOn_append_cons_self, List.filterMap_append]

@[simp]
theorem stepsOf_nil : stepsOf [] = [] := by
  decide

@[simp]
theorem stepsOf_slash (ys : List Char) : stepsOf ('/' :: ys) = stepsOf ys :=
  stepsOf_append [] ys

/-- The steps of pieces that are put together with slashes. -/
theorem stepsOf_intercalate {pieces : List (List Char)} (h : ∀ piece ∈ pieces, '/' ∉ piece) :
    stepsOf (['/'].intercalate pieces) = pieces.filterMap PathComponent.ofPiece := by
  by_cases hne : pieces = []
  · subst hne
    decide
  · rw [stepsOf, splitOn_eq, List.splitOn_intercalate '/' h hne]

/-! ## Joining -/

/-- More text at the end of a path adds no root. -/
theorem isAbsolute_append {p : Path} (hp : p.text.toList ≠ []) (more : String) :
    isAbsolute ⟨p.text ++ more⟩ = p.isAbsolute := by
  rw [isAbsolute, isAbsolute, String.toList_append, List.head?_append_of_ne_nil _ hp]

/-- A relative path, joined to a directory, adds its steps. -/
theorem components_join (p : Path) {q : Path} (hq : q.isAbsolute = false) :
    (p.join q).components = p.components ++ q.components := by
  have hqs : q.components = stepsOf q.text.toList := by simp [components_eq, hq]
  rw [join, if_neg (by simp [hq]), components_eq p]
  by_cases hempty : p.text = ""
  · have hroot : p.isAbsolute = false := by simp [isAbsolute, hempty]
    simp [hempty, hroot]
  · have hne : p.text.toList ≠ [] := by simpa using hempty
    rw [hqs, List.append_assoc]
    by_cases hslash : p.text.toList.getLast? = some '/'
    · obtain ⟨xs, hxs⟩ := List.getLast?_eq_some_iff.1 hslash
      have hsteps : stepsOf p.text.toList = stepsOf xs := by
        rw [hxs, stepsOf_append, stepsOf_nil, List.append_nil]
      rw [if_pos (by simp [hslash]), components_eq, isAbsolute_append hne, hsteps,
        ← stepsOf_append, String.toList_append, hxs, List.append_assoc, List.singleton_append]
    · rw [if_neg (by simp [hempty, hslash]), components_eq, String.append_assoc,
        isAbsolute_append hne, ← stepsOf_append, String.toList_append, String.toList_append]
      rfl

theorem isAbsolute_ofScript (file : String) : (ofScript file).isAbsolute = false := by
  rw [isAbsolute, ofScript, String.toList_ofList, beq_eq_false_iff_ne]
  intro hhead
  have hnot := List.head?_dropWhile_not (· == '/')
    (file.toList.map fun c => if c = '\\' then '/' else c)
  rw [hhead] at hnot
  exact absurd hnot (by decide)

/-! ## Parents -/

/-- The pieces up to the last step have the same steps. -/
theorem filterMap_dropIdle (pieces : List (List Char)) :
    (dropIdle pieces).filterMap PathComponent.ofPiece =
      pieces.filterMap PathComponent.ofPiece := by
  induction pieces using List.reverseRecOn with
  | nil => rfl
  | append_singleton pieces piece ih =>
    have hdrop : dropIdle (pieces ++ [piece]) =
        if (PathComponent.ofPiece piece).isNone then dropIdle pieces else pieces ++ [piece] :=
      List.rdropWhile_concat _ _ _
    rw [hdrop]
    split_ifs with hnone
    · rw [ih, List.filterMap_append, List.filterMap_cons, Option.isNone_iff_eq_none.1 hnone]
      simp
    · rfl

theorem dropIdle_isPrefix (pieces : List (List Char)) : dropIdle pieces <+: pieces :=
  List.rdropWhile_prefix _ _

/-- Without its last piece, what is left up to the last step lacks just that step. -/
theorem filterMap_dropLast_dropIdle (pieces : List (List Char)) :
    (dropIdle pieces).dropLast.filterMap PathComponent.ofPiece =
      (pieces.filterMap PathComponent.ofPiece).dropLast := by
  rw [← filterMap_dropIdle pieces]
  by_cases hne : dropIdle pieces = []
  · rw [hne]
    rfl
  · have hlast : ¬(PathComponent.ofPiece ((dropIdle pieces).getLast hne)).isNone :=
      List.rdropWhile_last_not _ _ hne
    obtain ⟨c, hc⟩ := Option.ne_none_iff_exists'.1 (mt Option.isNone_iff_eq_none.2 hlast)
    nth_rewrite 2 [← List.dropLast_append_getLast hne]
    rw [List.filterMap_append, List.filterMap_cons, hc, List.filterMap_nil, List.dropLast_concat]

/-- What a path starts with that its parent keeps, whatever the steps are. -/
def lead : List Char → List Char
  | '/' :: _ => ['/']
  | ['.'] | '.' :: '/' :: _ => ['.']
  | _ => []

/-- The pieces of a path that its parent keeps. -/
def kept (cs : List Char) : List (List Char) :=
  dropIdle (dropIdle (splitOn '/' (cs.drop (lead cs).length))).dropLast

theorem stepsOf_drop_lead (cs : List Char) :
    stepsOf (cs.drop (lead cs).length) = stepsOf cs := by
  unfold lead
  split
  · exact (stepsOf_slash _).symm
  · rfl
  · next rest => exact (stepsOf_slash rest).trans (stepsOf_append ['.'] rest).symm
  · rfl

/-- The lead of a path and some of the text after it have the steps of that text. -/
theorem stepsOf_lead_append {cs text : List Char} (h : text <+: cs.drop (lead cs).length) :
    stepsOf (lead cs ++ text) = stepsOf text := by
  revert h
  unfold lead
  split
  · intro _
    exact stepsOf_slash text
  · intro h
    rw [List.prefix_nil.1 h]
    decide
  · intro h
    rcases List.prefix_cons_iff.1 h with rfl | ⟨later, rfl, -⟩
    · decide
    · exact (stepsOf_append ['.'] later).trans (stepsOf_slash later).symm
  · intro _
    rfl

/-- They have a root if the path has one. -/
theorem head?_lead_append {cs text : List Char} (h : text <+: cs.drop (lead cs).length) :
    (lead cs ++ text).head? = some '/' ↔ cs.head? = some '/' := by
  revert h
  unfold lead
  split
  · simp
  · simp
  · simp
  · next hslash _ _ =>
    rintro ⟨later, hlater⟩
    have hcs : cs.head? ≠ some '/' := fun hhead =>
      (List.head?_eq_some_iff.1 hhead).elim hslash
    refine iff_of_false (fun hhead => ?_) hcs
    obtain ⟨rest, rfl⟩ := List.head?_eq_some_iff.1 hhead
    exact hslash (rest ++ later) hlater.symm

theorem isPrefix_intercalate (sep : List Char) :
    ∀ {few pieces : List (List Char)}, few <+: pieces →
      sep.intercalate few <+: sep.intercalate pieces
  | [], _, _ => List.nil_prefix
  | [piece], _, ⟨more, rfl⟩ => by
    cases more with
    | nil => exact List.prefix_refl _
    | cons next more =>
      rw [List.intercalate_singleton, List.singleton_append, List.intercalate_cons_cons,
        List.append_assoc]
      exact List.prefix_append _ _
  | piece :: next :: few, _, ⟨more, rfl⟩ => by
    rw [List.cons_append, List.cons_append, List.intercalate_cons_cons,
      List.intercalate_cons_cons, List.prefix_append_right_inj]
    exact isPrefix_intercalate sep ⟨more, rfl⟩

theorem kept_isPrefix (cs : List Char) :
    kept cs <+: splitOn '/' (cs.drop (lead cs).length) :=
  (dropIdle_isPrefix _).trans ((List.dropLast_prefix _).trans (dropIdle_isPrefix _))

theorem parent_eq {p : Path} (h : stepsOf p.text.toList ≠ []) :
    p.parent = ⟨String.ofList (lead p.text.toList ++ ['/'].intercalate (kept p.text.toList))⟩ := by
  have hne : dropIdle (splitOn '/' (p.text.toList.drop (lead p.text.toList).length)) ≠ [] := by
    intro hnil
    refine h ?_
    rw [← stepsOf_drop_lead, stepsOf, ← filterMap_dropIdle, hnil, List.filterMap_nil]
  simp only [parent]
  split
  · next hnil => exact absurd hnil hne
  · rfl

/-- The parent of a path with steps lacks the last of them. -/
theorem components_parent {p : Path} (h : stepsOf p.text.toList ≠ []) :
    p.parent.components = p.components.dropLast := by
  generalize hcs : p.text.toList = cs at h
  have hprefix : ['/'].intercalate (kept cs) <+: cs.drop (lead cs).length := by
    have hpieces := isPrefix_intercalate ['/'] (kept_isPrefix cs)
    rwa [intercalate_splitOn] at hpieces
  have hslash : ∀ piece ∈ kept cs, '/' ∉ piece := fun piece hpiece =>
    not_mem_of_mem_splitOn _ _ piece ((kept_isPrefix cs).subset hpiece)
  have hsteps : stepsOf (lead cs ++ ['/'].intercalate (kept cs)) = (stepsOf cs).dropLast := by
    rw [stepsOf_lead_append hprefix, stepsOf_intercalate hslash, kept, filterMap_dropIdle,
      filterMap_dropLast_dropIdle, ← stepsOf_drop_lead cs]
    rfl
  have hroot : p.parent.isAbsolute = p.isAbsolute := by
    rw [parent_eq (hcs ▸ h), isAbsolute, isAbsolute, String.toList_ofList, hcs, Bool.eq_iff_iff,
      beq_iff_eq, beq_iff_eq, head?_lead_append hprefix]
  rw [components_eq, components_eq, hroot, List.dropLast_append_of_ne_nil (hcs ▸ h), hcs,
    parent_eq (hcs ▸ h), String.toList_ofList, hcs, hsteps]

/-! ## Stacks -/

/-- The stack that the steps of the path leave, the last on top. -/
def stack (p : Path) : List PathComponent :=
  p.components.foldl PathComponent.push []

theorem stack_join (p : Path) {q : Path} (hq : q.isAbsolute = false) :
    (p.join q).stack = q.components.foldl PathComponent.push p.stack := by
  rw [stack, components_join p hq, List.foldl_append, stack]

/-- A name at the end of a path stays on top of the stack of its parent. -/
theorem stack_eq_cons {p : Path} {text : String}
    (h : p.components.getLast? = some (.name text)) : p.stack = .name text :: p.parent.stack := by
  obtain ⟨cs, hcs⟩ := List.getLast?_eq_some_iff.1 h
  have hsteps : stepsOf p.text.toList ≠ [] := by
    intro hnil
    rw [components_eq, hnil, List.append_nil] at h
    split_ifs at h <;> simp at h
  have hparent : p.parent.components = cs := by
    rw [components_parent hsteps, hcs, List.dropLast_concat]
  rw [stack, stack, hparent, hcs, List.foldl_append]
  generalize cs.foldl PathComponent.push [] = s
  cases s with
  | nil => rfl
  | cons c s => cases c <;> rfl

end Path

namespace PathComponent

/-- Whether the component can stand between slashes, written as its text. -/
def IsPiece (c : PathComponent) : Prop :=
  ofPiece c.text.toList = some c ∧ '/' ∉ c.text.toList

theorem isPiece_of_mem_stepsOf {cs : List Char} {c : PathComponent}
    (h : c ∈ Path.stepsOf cs) : c.IsPiece := by
  obtain ⟨piece, hpiece, hc⟩ := List.mem_filterMap.1 h
  have htext : c.text.toList = piece := by
    unfold ofPiece at hc
    split_ifs at hc with hidle hup
    · obtain rfl := Option.some.inj hc
      exact hup.symm
    · obtain rfl := Option.some.inj hc
      exact String.toList_ofList
  rw [IsPiece, htext]
  exact ⟨hc, not_mem_of_mem_splitOn _ _ piece hpiece⟩

/-- A stack of steps between slashes, with or without the root at the bottom. -/
inductive Settled : List PathComponent → Prop where
  | nil : Settled []
  | root : Settled [root]
  | cons {c : PathComponent} {stack : List PathComponent} (hc : c.IsPiece)
    (h : Settled stack) : Settled (c :: stack)

theorem Settled.push {c : PathComponent} {stack : List PathComponent} (h : Settled stack)
    (hc : c.IsPiece) : Settled (push stack c) := by
  cases c with
  | root => exact absurd hc.1 (by decide)
  | name text =>
    have hpush : PathComponent.push stack (.name text) = .name text :: stack := by
      cases stack with
      | nil => rfl
      | cons d stack => cases d <;> rfl
    rw [hpush]
    exact .cons hc h
  | up =>
    cases h with
    | nil => exact .cons hc .nil
    | root => exact .root
    | @cons d stack hd h =>
      cases d with
      | name text => exact h
      | root => exact .cons hd h
      | up => exact .cons hd h

/-- From the bottom up, a settled stack is made of steps between slashes, after the root or not. -/
theorem Settled.reverse_eq {stack : List PathComponent} (h : Settled stack) :
    ∃ steps : List PathComponent, (∀ c ∈ steps, c.IsPiece) ∧
      (stack.reverse = steps ∨ stack.reverse = .root :: steps) := by
  induction h with
  | nil => exact ⟨[], by simp, .inl rfl⟩
  | root => exact ⟨[], by simp, .inr rfl⟩
  | @cons c stack hc _ ih =>
    obtain ⟨steps, hsteps, heq⟩ := ih
    refine ⟨steps ++ [c], ?_, ?_⟩
    · simpa [or_imp, forall_and] using ⟨hsteps, hc⟩
    · rcases heq with heq | heq
      · exact .inl (by rw [List.reverse_cons, heq])
      · exact .inr (by rw [List.reverse_cons, heq, List.cons_append])

end PathComponent

namespace Path

open PathComponent

theorem settled_stack (p : Path) : Settled p.stack := by
  have hfold : ∀ (cs : List PathComponent) {s : List PathComponent}, Settled s →
      (∀ c ∈ cs, c.IsPiece) → Settled (cs.foldl push s) := by
    intro cs
    induction cs with
    | nil => exact fun h _ => h
    | cons c cs ih =>
      exact fun h hcs => ih (h.push (hcs c List.mem_cons_self)) fun d hd =>
        hcs d (List.mem_cons_of_mem c hd)
  rw [stack, components_eq, List.foldl_append]
  refine hfold _ ?_ fun c hc => isPiece_of_mem_stepsOf hc
  split_ifs
  · exact .root
  · exact .nil

/-- The steps that are written with slashes between them. -/
theorem stepsOf_texts {steps : List PathComponent} (h : ∀ c ∈ steps, c.IsPiece) :
    stepsOf ("/".intercalate (steps.map PathComponent.text)).toList = steps := by
  rw [String.toList_intercalate, List.map_map]
  have hslash : ∀ piece ∈ steps.map (String.toList ∘ PathComponent.text), '/' ∉ piece := by
    intro piece hpiece
    obtain ⟨c, hc, rfl⟩ := List.mem_map.1 hpiece
    exact (h c hc).2
  have hpieces : (steps.map (String.toList ∘ PathComponent.text)).filterMap ofPiece = steps := by
    rw [List.filterMap_map]
    calc steps.filterMap (ofPiece ∘ String.toList ∘ PathComponent.text)
        = steps.filterMap some := List.filterMap_congr fun c hc => (h c hc).1
      _ = steps := List.filterMap_some
  exact (stepsOf_intercalate hslash).trans hpieces

theorem components_ofComponents_root {steps : List PathComponent} (h : ∀ c ∈ steps, c.IsPiece) :
    (ofComponents (.root :: steps)).components = .root :: steps := by
  have htext : (ofComponents (.root :: steps)).text.toList =
      '/' :: ("/".intercalate (steps.map PathComponent.text)).toList := by
    rw [ofComponents, String.toList_append]
    rfl
  rw [components_eq, isAbsolute, htext, stepsOf_slash, stepsOf_texts h]
  rfl

theorem components_ofComponents {steps : List PathComponent} (h : ∀ c ∈ steps, c.IsPiece) :
    (ofComponents steps).components = steps := by
  have htext : ofComponents steps = ⟨"/".intercalate (steps.map PathComponent.text)⟩ := by
    cases steps with
    | nil => rfl
    | cons c steps =>
      cases c with
      | root => exact absurd (h _ List.mem_cons_self).1 (by decide)
      | _ => rfl
  have hroot : (ofComponents steps).isAbsolute = false := by
    rw [htext, isAbsolute, String.toList_intercalate, beq_eq_false_iff_ne]
    cases steps with
    | nil => decide
    | cons c steps =>
      obtain ⟨hpiece, hslash⟩ := h c List.mem_cons_self
      cases hc : c.text.toList with
      | nil =>
        rw [hc] at hpiece
        cases hpiece
      | cons a text =>
        rw [hc] at hslash
        rw [List.map_cons, List.map_cons, hc, List.intercalate_cons_cons_left, List.head?_cons]
        rintro ⟨⟩
        exact hslash List.mem_cons_self
  rw [components_eq, hroot, htext, stepsOf_texts h]
  rfl

/-- A path that is normalised has the steps that its stack holds. -/
theorem components_normalise (p : Path) : p.normalise.components = p.stack.reverse := by
  obtain ⟨steps, hsteps, heq | heq⟩ := p.settled_stack.reverse_eq
  · rw [normalise, ← stack, heq, components_ofComponents hsteps]
  · rw [normalise, ← stack, heq, components_ofComponents_root hsteps]

/-- Two paths are the same after `normalise` if they leave the same stack. -/
theorem normalise_eq_iff {p q : Path} : p.normalise = q.normalise ↔ p.stack = q.stack := by
  constructor
  · intro h
    have hcomponents := congrArg components h
    rw [components_normalise, components_normalise] at hcomponents
    exact List.reverse_injective hcomponents
  · intro h
    rw [normalise, normalise, ← stack, h, stack]

/-- Of paths that end in a name and are the same after `normalise`, the parents are the same after
`normalise`, and so is what a relative path comes to from there. -/
theorem normalise_join_parent {p q : Path} {s t : String}
    (hp : p.components.getLast? = some (.name s)) (hq : q.components.getLast? = some (.name t))
    (h : p.normalise = q.normalise) {r : Path} (hr : r.isAbsolute = false) :
    (p.parent.join r).normalise = (q.parent.join r).normalise := by
  rw [normalise_eq_iff, stack_eq_cons hp, stack_eq_cons hq] at h
  rw [normalise_eq_iff, stack_join _ hr, stack_join _ hr, (List.cons.inj h).2]

end Path

end SqfCheck
