import SqfCheck.Proofs.Paths

/-!
# What a path denotes

A path denotes a list of names once it is known which directory it is seen from. `Path.resolve`
follows it piece by piece, without a look at any file. `Path.normalise` keeps what an absolute path
denotes, and what a relative path denotes that climbs at most one directory above the one it is seen
from ; of the steps up that climb higher only the first is kept (`Path.resolve_normalise_iff`). So
two paths that lead to different files can be the same after `Path.normalise`
(`Path.normalise_climbing`).

The steps of a path come to some steps up and some names after them, and both the stack that
`Path.normalise` builds and what the path denotes can be read off these (`PathComponent.Leaves`).
-/

namespace SqfCheck

open Text

namespace Path

/-- The directory that a piece of a path leads to from the directory with the names `dir` : an empty
piece and a single dot stay, two dots drop the last name if there is one, all else is the name of an
entry. -/
def enter (dir : List String) (piece : List Char) : List String :=
  if piece = [] ∨ piece = ['.'] then dir
  else if piece = ['.', '.'] then dir.dropLast
  else dir ++ [String.ofList piece]

/-- The names from the root on of what the path denotes, seen from the directory with the names
`base`. An absolute path does not depend on it. -/
def resolve (p : Path) (base : List String) : List String :=
  p.pieces.foldl enter (if p.isAbsolute then [] else base)

end Path

/-! ## Steps -/

namespace PathComponent

/-- Whether the step is a name. -/
def isName : PathComponent → Bool
  | name _ => true
  | _ => false

/-- The directory that a step leads to. -/
def follow (dir : List String) : PathComponent → List String
  | root => []
  | up => dir.dropLast
  | name s => dir ++ [s]

/-- Some first steps go up more often than to a name, by `n`. -/
def Climb (steps : List PathComponent) (n : Nat) : Prop :=
  ∃ front, front <+: steps ∧ front.countP isName + n ≤ front.count up

theorem climb_concat {steps : List PathComponent} {c : PathComponent} {n : Nat} :
    Climb (steps ++ [c]) n ↔
      Climb steps n ∨ (steps ++ [c]).countP isName + n ≤ (steps ++ [c]).count up := by
  constructor
  · rintro ⟨front, hfront, hcount⟩
    rcases List.prefix_concat_iff.1 hfront with rfl | hfront
    · exact .inr hcount
    · exact .inl ⟨front, hfront, hcount⟩
  · rintro (⟨front, hfront, hcount⟩ | hcount)
    · exact ⟨front, hfront.trans (List.prefix_append _ _), hcount⟩
    · exact ⟨_, List.prefix_refl _, hcount⟩

/-- The steps come to `k` steps up and then the names. Of these steps up a stack keeps the first
one, and none if there is a root below it. -/
structure Leaves (steps : List PathComponent) (k : Nat) (names : List String) : Prop where
  stack : steps.foldl push [] = (names.map name).reverse ++ List.replicate (min k 1) up
  rooted : steps.foldl push [root] = (names.map name).reverse ++ [root]
  follow : ∀ base, steps.foldl follow base = base.take (base.length - k) ++ names
  balance : steps.count up + names.length = steps.countP isName + k
  climb : ∀ n, Climb steps n ↔ n ≤ k

theorem push_name (stack : List PathComponent) (s : String) :
    push stack (name s) = name s :: stack := by
  cases stack with
  | nil => rfl
  | cons c stack => cases c <;> rfl

theorem leaves_nil : Leaves [] 0 [] where
  stack := rfl
  rooted := rfl
  follow base := by simp
  balance := rfl
  climb n := by simp [Climb]

variable {steps : List PathComponent} {k : Nat} {names : List String}

theorem count_name (steps : List PathComponent) (s : String) :
    (steps ++ [name s]).countP isName = steps.countP isName + 1 ∧
      (steps ++ [name s]).count up = steps.count up := by
  simp [isName]

theorem count_up (steps : List PathComponent) :
    (steps ++ [up]).countP isName = steps.countP isName ∧
      (steps ++ [up]).count up = steps.count up + 1 := by
  simp [isName]

theorem Leaves.name (h : Leaves steps k names) (s : String) :
    Leaves (steps ++ [.name s]) k (names ++ [s]) where
  stack := by simp [List.foldl_append, h.stack, push_name]
  rooted := by simp [List.foldl_append, h.rooted, push_name]
  follow base := by
    rw [List.foldl_append, h.follow base, ← List.append_assoc]
    rfl
  balance := by
    have hbalance := h.balance
    rw [(count_name steps s).1, (count_name steps s).2, List.length_append, List.length_singleton]
    omega
  climb n := by
    have hbalance := h.balance
    rw [climb_concat, h.climb, (count_name steps s).1, (count_name steps s).2]
    omega

/-- A step up drops the last name. -/
theorem Leaves.up {s : String} (h : Leaves steps k (names ++ [s])) :
    Leaves (steps ++ [.up]) k names where
  stack := by
    rw [List.foldl_append, h.stack, List.map_append, List.reverse_append]
    rfl
  rooted := by
    rw [List.foldl_append, h.rooted, List.map_append, List.reverse_append]
    rfl
  follow base := by
    rw [List.foldl_append, h.follow base, ← List.append_assoc]
    exact List.dropLast_concat
  balance := by
    have hbalance := h.balance
    rw [List.length_append, List.length_singleton] at hbalance
    rw [(count_up steps).1, (count_up steps).2]
    omega
  climb n := by
    have hbalance := h.balance
    rw [List.length_append, List.length_singleton] at hbalance
    rw [climb_concat, h.climb, (count_up steps).1, (count_up steps).2]
    omega

/-- A step up with no name to drop climbs. -/
theorem Leaves.climbs (h : Leaves steps k []) : Leaves (steps ++ [.up]) (k + 1) [] where
  stack := by
    rw [List.foldl_append, h.stack, min_eq_right (Nat.le_add_left 1 k)]
    cases k with
    | zero => rfl
    | succ k =>
      rw [min_eq_right (Nat.le_add_left 1 k)]
      rfl
  rooted := by
    rw [List.foldl_append, h.rooted]
    rfl
  follow base := by
    rw [List.foldl_append, h.follow base, List.append_nil, List.append_nil]
    show (base.take (base.length - k)).dropLast = _
    rw [List.dropLast_eq_take, List.take_take, List.length_take]
    congr 1
    omega
  balance := by
    have hbalance := h.balance
    rw [(count_up steps).1, (count_up steps).2]
    omega
  climb n := by
    have hbalance := h.balance
    rw [List.length_nil] at hbalance
    rw [climb_concat, h.climb, (count_up steps).1, (count_up steps).2]
    omega

theorem exists_leaves (h : root ∉ steps) : ∃ k names, Leaves steps k names := by
  induction steps using List.reverseRecOn with
  | nil => exact ⟨0, [], leaves_nil⟩
  | append_singleton steps c ih =>
    rw [List.mem_append, not_or] at h
    obtain ⟨k, names, hleaves⟩ := ih h.1
    cases c with
    | root => exact absurd (List.mem_singleton.2 rfl) h.2
    | name s => exact ⟨k, names ++ [s], hleaves.name s⟩
    | up =>
      rcases List.eq_nil_or_concat' names with rfl | ⟨names, s, rfl⟩
      · exact ⟨k + 1, [], hleaves.climbs⟩
      · exact ⟨k, names, hleaves.up⟩

theorem foldl_follow_names (dir names : List String) :
    (names.map name).foldl follow dir = dir ++ names := by
  induction names generalizing dir with
  | nil => exact (List.append_nil dir).symm
  | cons s names ih =>
    rw [List.map_cons, List.foldl_cons, ih]
    exact List.append_assoc dir [s] names

end PathComponent

/-! ## Paths -/

namespace Path

open PathComponent

/-- Some first steps of the path go up more often than to a name, by `n`. -/
def Climbs (p : Path) (n : Nat) : Prop :=
  Climb p.components n

/-- What a path denotes can be followed step by step. -/
theorem resolve_eq (p : Path) (base : List String) :
    p.resolve base = p.components.foldl follow base := by
  have hpieces : ∀ (pieces : List (List Char)) (dir : List String),
      pieces.foldl enter dir = (pieces.filterMap ofPiece).foldl follow dir := by
    intro pieces
    induction pieces with
    | nil => exact fun _ => rfl
    | cons piece pieces ih =>
      intro dir
      rw [List.foldl_cons, ih, enter]
      split_ifs with hidle hup
      · have hpiece : ofPiece piece = none := if_pos hidle
        rw [List.filterMap_cons_none hpiece]
      · have hpiece : ofPiece piece = some up := (if_neg hidle).trans (if_pos hup)
        rw [List.filterMap_cons_some hpiece]
        rfl
      · have hpiece : ofPiece piece = some (name (String.ofList piece)) :=
          (if_neg hidle).trans (if_neg hup)
        rw [List.filterMap_cons_some hpiece]
        rfl
  rw [resolve, hpieces, components, List.foldl_append]
  split_ifs <;> rfl

theorem root_notMem_stepsOf (cs : List Char) : root ∉ stepsOf cs :=
  fun h => absurd (isPiece_of_mem_stepsOf h).1 (by decide)

/-- `normalise` keeps what an absolute path denotes. -/
theorem resolve_normalise_of_isAbsolute {p : Path} (h : p.isAbsolute = true) (base : List String) :
    p.normalise.resolve base = p.resolve base := by
  have hcomponents : p.components = root :: stepsOf p.text.toList := by
    rw [components_eq, if_pos h]
    rfl
  obtain ⟨k, names, hleaves⟩ := exists_leaves (root_notMem_stepsOf p.text.toList)
  have hstack : p.stack = (names.map name).reverse ++ [root] := by
    rw [stack, hcomponents]
    exact hleaves.rooted
  have hresolve : p.resolve base = names := by
    have hfollow := hleaves.follow []
    rw [List.take_nil, List.nil_append] at hfollow
    rw [resolve_eq, hcomponents]
    exact hfollow
  rw [hresolve, resolve_eq, components_normalise, hstack, List.reverse_append, List.reverse_reverse]
  exact foldl_follow_names [] names

/-- What a relative path denotes before and after `normalise`, by the number of directories it
climbs. -/
theorem exists_of_not_isAbsolute {p : Path} (h : p.isAbsolute = false) (base : List String) :
    ∃ k names, (∀ n, p.Climbs n ↔ n ≤ k) ∧
      p.resolve base = base.take (base.length - k) ++ names ∧
      p.normalise.resolve base = base.take (base.length - min k 1) ++ names := by
  have hcomponents : p.components = stepsOf p.text.toList := by
    rw [components_eq, if_neg (by simp [h])]
    rfl
  obtain ⟨k, names, hleaves⟩ := exists_leaves (root_notMem_stepsOf p.text.toList)
  rw [← hcomponents] at hleaves
  refine ⟨k, names, hleaves.climb, by rw [resolve_eq, hleaves.follow], ?_⟩
  have hups : (List.replicate (min k 1) up).foldl follow base =
      base.take (base.length - min k 1) := by
    cases k with
    | zero => simp
    | succ k =>
      rw [min_eq_right (Nat.le_add_left 1 k)]
      exact List.dropLast_eq_take
  rw [resolve_eq, components_normalise, stack, hleaves.stack, List.reverse_append,
    List.reverse_reverse, List.reverse_replicate, List.foldl_append, hups, foldl_follow_names]

/-- `normalise` keeps what a path denotes from a directory exactly if the path is absolute, the
directory is at most one below the root, or the path does not climb two directories. -/
theorem resolve_normalise_iff (p : Path) (base : List String) :
    p.normalise.resolve base = p.resolve base ↔
      p.isAbsolute = true ∨ base.length ≤ 1 ∨ ¬p.Climbs 2 := by
  cases habsolute : p.isAbsolute with
  | true => exact iff_of_true (resolve_normalise_of_isAbsolute habsolute base) (.inl rfl)
  | false =>
    obtain ⟨k, names, hclimbs, hresolve, hnormalise⟩ := exists_of_not_isAbsolute habsolute base
    have htake : base.take (base.length - min k 1) = base.take (base.length - k) ↔
        base.length - min k 1 = base.length - k := by
      constructor
      · intro heq
        have hlength := congrArg List.length heq
        rw [List.length_take, List.length_take] at hlength
        omega
      · exact fun heq => by rw [heq]
    rw [hnormalise, hresolve, List.append_left_inj, htake, hclimbs]
    simp only [Bool.false_eq_true, false_or]
    omega

/-- Two steps up come to one, so paths to different files are the same after `normalise`. -/
theorem normalise_climbing :
    (mk "../../a").normalise = ⟨"../a"⟩ ∧ (mk "../a").normalise = ⟨"../a"⟩ ∧
      (mk "../../a").resolve ["x", "y"] = ["a"] ∧ (mk "../a").resolve ["x", "y"] = ["x", "a"] := by
  decide +kernel

end Path

end SqfCheck
