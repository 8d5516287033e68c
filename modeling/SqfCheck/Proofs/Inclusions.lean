import Mathlib.Data.List.Nodup
import SqfCheck.Directive.Follow
import SqfCheck.Proofs.Directives
import SqfCheck.Proofs.Paths

/-!
# Following inclusions

The files that are entered from a script are those that its inclusions lead to, each of them once
(`ofSource_memory`), and what is collected are their directives. `Surveys` says what following
inclusions comes to without a bound on how deep they nest. The bound that `Survey.enter` has is
never met : an inclusion is followed into a file that can be read and was not met before, and of
these there are fewer each time (`Survey.exists_surveys`).

A file may be met under many paths, and only the first is followed further. That loses nothing if
all paths that are written end in a name, as the inclusions of a file then lead to the same places
under each of its paths.
-/

namespace SqfCheck

/-! ## One directive -/

namespace Survey

variable (files : Files) (root : Option Path)

/-- The survey after a directive of `source`, before a file is entered. -/
def note (source : Path) (s : Survey) (d : Directive) : Survey :=
  apply files root (fun _ _ s => s) source s d

/-- The file that a directive of `source` leads into : one that was not met before and can be
read. -/
def entered? (source : Path) (s : Survey) : Directive → Option (Path × String)
  | .definition .. => none
  | .inclusion file =>
    match inclusionTarget root source file with
    | none => none
    | some path =>
      if files.identity path ∈ s.met then none
      else
        match files.read path with
        | .ok text => some (path, text)
        | .error _ => none

variable {files root} {source path : Path} {s : Survey} {d : Directive} {text : String}

/-- A directive is noted, and then the file is entered that it leads into. -/
theorem apply_eq (enter : Path → String → Survey → Survey) :
    apply files root enter source s d =
      match entered? files root source s d with
      | some f => enter f.1 f.2 (note files root source s d)
      | none => note files root source s d := by
  cases d with
  | definition => rfl
  | inclusion file =>
    cases htarget : inclusionTarget root source file with
    | none => simp [note, entered?, apply, htarget]
    | some path =>
      by_cases hmet : files.identity path ∈ s.met
      · simp [note, entered?, apply, htarget, hmet]
      · cases hread : files.read path <;> simp [note, entered?, apply, htarget, hmet, hread]

theorem entered?_eq_some (h : entered? files root source s d = some (path, text)) :
    ∃ file, d = .inclusion file ∧ inclusionTarget root source file = some path ∧
      files.identity path ∉ s.met ∧ files.read path = .ok text := by
  cases d with
  | definition => cases h
  | inclusion file =>
    unfold entered? at h
    cases htarget : inclusionTarget root source file with
    | none => simp [htarget] at h
    | some q =>
      by_cases hmet : files.identity q ∈ s.met
      · simp [htarget, hmet] at h
      · cases hread : files.read q with
        | error e => simp [htarget, hmet, hread] at h
        | ok t =>
          simp only [htarget, hmet, hread, if_false, Option.some.injEq, Prod.mk.injEq] at h
          obtain ⟨rfl, rfl⟩ := h
          exact ⟨file, rfl, htarget, hmet, hread⟩

theorem entered?_eq_none {file : String} (h : entered? files root source s (.inclusion file) = none)
    (hpath : inclusionTarget root source file = some path) :
    files.identity path ∈ s.met ∨ ∃ e, files.read path = .error e := by
  rw [or_iff_not_imp_left]
  intro hmet
  cases hread : files.read path with
  | error e => exact ⟨e, rfl⟩
  | ok text => simp [entered?, hpath, hmet, hread] at h

/-- After a directive, the file it leads to is met. -/
theorem mem_met_note {id : FileId} : id ∈ (note files root source s d).met ↔
    id ∈ s.met ∨ ∃ file path, d = .inclusion file ∧
      inclusionTarget root source file = some path ∧ files.identity path = id := by
  cases d with
  | definition => simp [note, apply]
  | inclusion file =>
    cases htarget : inclusionTarget root source file with
    | none => simp [note, apply, htarget]
    | some path =>
      by_cases hmet : files.identity path ∈ s.met
      · have hsame : (note files root source s (.inclusion file)).met = s.met := by
          simp [note, apply, htarget, hmet]
        rw [hsame]
        refine ⟨.inl, ?_⟩
        rintro (h | ⟨_, _, ⟨⟩, htarget', rfl⟩)
        · exact h
        · obtain rfl := Option.some.inj (htarget.symm.trans htarget')
          exact hmet
      · have hcons : (note files root source s (.inclusion file)).met =
            files.identity path :: s.met := by
          cases hread : files.read path <;> simp [note, apply, htarget, hmet, hread]
        rw [hcons, List.mem_cons, or_comm]
        refine or_congr_right ⟨?_, ?_⟩
        · rintro rfl
          exact ⟨file, path, rfl, htarget, rfl⟩
        · rintro ⟨_, _, ⟨⟩, htarget', rfl⟩
          rw [Option.some.inj (htarget.symm.trans htarget')]

end Survey

namespace Survey

variable {files : Files} {root : Option Path} {P : Survey → Prop} {Known : Path → String → Prop}

/-- What holds of a survey and is kept by noting a directive of any text that is known holds after
all directives of such a text, if the files that can be read are known. -/
theorem enter_keeps (hread : ∀ path text, files.read path = .ok text → Known path text)
    (hnote : ∀ source text s, Known source text → ∀ d ∈ Directive.all text, P s →
      P (note files root source s d)) :
    ∀ (depth : Nat) (source : Path) (text : String) (s : Survey), Known source text → P s →
      P (enter files root depth source text s)
  | 0, _, _, _, _, h => h
  | depth + 1, source, text, s, hknown, h => by
    have hrun : ∀ ds ⊆ Directive.all text, ∀ s, P s →
        P (ds.foldl (apply files root (enter files root depth) source) s) := by
      intro ds
      induction ds with
      | nil => exact fun _ _ h => h
      | cons d ds ih =>
        intro hds s h
        obtain ⟨hd, hds⟩ := List.cons_subset.1 hds
        have hnoted := hnote source text s hknown d hd h
        refine ih hds _ ?_
        rw [apply_eq]
        split
        · next f hf =>
          obtain ⟨_, -, -, -, hf⟩ := entered?_eq_some hf
          exact enter_keeps hread hnote depth f.1 f.2 _ (hread _ _ hf) hnoted
        · exact hnoted
    exact hrun _ (List.Subset.refl _) s h

end Survey

/-! ## What a directive adds to a ledger -/

namespace Directive

/-- The inclusion that a directive of `source` is, if it is one. -/
def inclusion? (source : Path) : Directive → Option Inclusion
  | .inclusion file => some ⟨file, source⟩
  | .definition .. => none

/-- Whether the directive defines the macro, case folded. -/
def Defines (word : String) : Directive → Prop
  | .definition name .. => foldCase name = foldCase word
  | .inclusion _ => False

theorem exists_defines_iff {source word : String} :
    (∃ d ∈ all source, d.Defines word) ↔ DefinedIn source word := by
  rw [← exists_definition_mem_all_iff]
  constructor
  · rintro ⟨d, hd, hdefines⟩
    cases d with
    | definition name arguments value span => exact ⟨_, _, _, _, hd, hdefines⟩
    | inclusion file => exact absurd hdefines id
  · rintro ⟨name, arguments, value, span, hd, hword⟩
    exact ⟨_, hd, hword⟩

end Directive

namespace Ledger

theorem contains_iff {l : Ledger} {word : String} :
    l.contains word = true ↔ foldCase word ∈ l.macros.map (foldCase ·.name) := by
  simp [contains, find?]

theorem mem_names_addDefinition {name : String} {arguments : Option String}
    {d : MacroDefinition} {word : String} : ∀ {ms : List MacroRecord},
      word ∈ (addDefinition name arguments d ms).map (foldCase ·.name) ↔
        word ∈ ms.map (foldCase ·.name) ∨ foldCase name = word
  | [] => by simp [addDefinition, eq_comm]
  | m :: ms => by
    rw [addDefinition]
    split_ifs with hm
    · refine ⟨.inl, ?_⟩
      rintro (h | rfl)
      · exact h
      · exact List.mem_map.2 ⟨_, List.mem_cons_self, hm⟩
    · simp [mem_names_addDefinition, or_assoc]

end Ledger

namespace Survey

variable {files : Files} {root : Option Path} {source : Path} {s : Survey} {d : Directive}

theorem ledger_note_inclusion (file : String) :
    (note files root source s (.inclusion file)).ledger = s.ledger.addInclusion file source := by
  cases htarget : inclusionTarget root source file with
  | none => simp [note, apply, htarget]
  | some path =>
    by_cases hmet : files.identity path ∈ s.met
    · simp [note, apply, htarget, hmet]
    · cases hread : files.read path <;> simp [note, apply, htarget, hmet, hread]

theorem inclusions_note : (note files root source s d).ledger.inclusions =
    s.ledger.inclusions ++ (d.inclusion? source).toList := by
  cases d with
  | definition => simp [note, apply, Ledger.define, Directive.inclusion?]
  | inclusion file => rw [ledger_note_inclusion]; rfl

theorem contains_note {word : String} :
    (note files root source s d).ledger.contains word = true ↔
      s.ledger.contains word = true ∨ d.Defines word := by
  cases d with
  | definition name arguments value span =>
    rw [Ledger.contains_iff, Ledger.contains_iff]
    exact Ledger.mem_names_addDefinition
  | inclusion file =>
    rw [ledger_note_inclusion]
    simp [Ledger.contains, Ledger.find?, Ledger.addInclusion, Directive.Defines]

end Survey

/-! ## Runs over directives -/

/-- Following the inclusions in directives of a file leads from one survey to another, and enters
the files listed, in this order. Nothing bounds how deep inclusions nest. -/
inductive Surveys (files : Files) (root : Option Path) :
    Path → List Directive → Survey → List (Path × String) → Survey → Prop where
  | nil (source : Path) (s : Survey) : Surveys files root source [] s [] s
  | pass {source : Path} {d : Directive} {ds : List Directive} {s t : Survey}
    {scanned : List (Path × String)} (hd : s.entered? files root source d = none)
    (hds : Surveys files root source ds (s.note files root source d) scanned t) :
    Surveys files root source (d :: ds) s scanned t
  | follow {source path : Path} {text : String} {d : Directive} {ds : List Directive}
    {s t u : Survey} {inner later : List (Path × String)}
    (hd : s.entered? files root source d = some (path, text))
    (htext : Surveys files root path (Directive.all text) (s.note files root source d) inner t)
    (hds : Surveys files root source ds t later u) :
    Surveys files root source (d :: ds) s ((path, text) :: (inner ++ later)) u

namespace Surveys

variable {files : Files} {root : Option Path} {source : Path} {ds : List Directive}
  {s t : Survey} {scanned : List (Path × String)}

theorem met_subset (h : Surveys files root source ds s scanned t) : s.met ⊆ t.met := by
  induction h with
  | nil => exact List.Subset.refl _
  | pass _ _ ih => exact fun id hid => ih (Survey.mem_met_note.2 (.inl hid))
  | follow _ _ _ ihtext ihds =>
    exact fun id hid => ihds (ihtext (Survey.mem_met_note.2 (.inl hid)))

/-- The files listed can be read and no two are one. They were not met in `s` and are met in
`t`. -/
structure Fresh (files : Files) (s t : Survey) (scanned : List (Path × String)) : Prop where
  read_eq : ∀ f ∈ scanned, files.read f.1 = .ok f.2
  unmet : ∀ f ∈ scanned, files.identity f.1 ∉ s.met
  met : ∀ f ∈ scanned, files.identity f.1 ∈ t.met
  nodup : (scanned.map (files.identity ·.1)).Nodup

/-- A run enters files that were not met before, each of them once. -/
theorem fresh (h : Surveys files root source ds s scanned t) : Fresh files s t scanned := by
  induction h with
  | nil => exact ⟨by simp, by simp, by simp, by simp⟩
  | pass _ _ ih =>
    exact ⟨ih.read_eq, fun f hf hs => ih.unmet f hf (Survey.mem_met_note.2 (.inl hs)), ih.met,
      ih.nodup⟩
  | @follow source path text d ds s t u inner later hd htext hds ihtext ihds =>
    obtain ⟨file, rfl, htarget, hunmet, hread⟩ := Survey.entered?_eq_some hd
    have hnote : s.met ⊆ (s.note files root source (.inclusion file)).met :=
      fun id hid => Survey.mem_met_note.2 (.inl hid)
    have hpath : files.identity path ∈ (s.note files root source (.inclusion file)).met :=
      Survey.mem_met_note.2 (.inr ⟨file, path, rfl, htarget, rfl⟩)
    constructor
    · simp only [List.forall_mem_cons, List.forall_mem_append]
      exact ⟨hread, ihtext.read_eq, ihds.read_eq⟩
    · simp only [List.forall_mem_cons, List.forall_mem_append]
      exact ⟨hunmet, fun f hf hs => ihtext.unmet f hf (hnote hs),
        fun f hf hs => ihds.unmet f hf (htext.met_subset (hnote hs))⟩
    · simp only [List.forall_mem_cons, List.forall_mem_append]
      exact ⟨hds.met_subset (htext.met_subset hpath),
        fun f hf => hds.met_subset (ihtext.met f hf), ihds.met⟩
    · rw [List.map_cons, List.map_append, List.nodup_cons, List.mem_append, List.nodup_append]
      refine ⟨?_, ihtext.nodup, ihds.nodup, fun id hid id' hid' heq => ?_⟩
      · rintro (hmem | hmem)
        · obtain ⟨f, hf, heq⟩ := List.mem_map.1 hmem
          exact ihtext.unmet f hf (heq ▸ hpath)
        · obtain ⟨f, hf, heq⟩ := List.mem_map.1 hmem
          exact ihds.unmet f hf (heq ▸ htext.met_subset hpath)
      · obtain ⟨f, hf, rfl⟩ := List.mem_map.1 hid
        obtain ⟨f', hf', rfl⟩ := List.mem_map.1 hid'
        exact ihds.unmet f' hf' (heq ▸ ihtext.met f hf)

/-- What is met in the end was met before, is one of the files entered, or cannot be read. -/
theorem mem_met (h : Surveys files root source ds s scanned t) {id : FileId} (hid : id ∈ t.met) :
    id ∈ s.met ∨ (∃ f ∈ scanned, files.identity f.1 = id) ∨
      ∃ path e, files.identity path = id ∧ files.read path = .error e := by
  induction h with
  | nil => exact .inl hid
  | pass hd _ ih =>
    rcases ih hid with hmet | hrest
    · rcases Survey.mem_met_note.1 hmet with hs | ⟨file, path, rfl, htarget, rfl⟩
      · exact .inl hs
      · refine (Survey.entered?_eq_none hd htarget).imp_right fun ⟨e, he⟩ => ?_
        exact .inr ⟨path, e, rfl, he⟩
    · exact .inr hrest
  | @follow source path text d ds s t u inner later hd htext hds ihtext ihds =>
    rcases ihds hid with hmet | ⟨f, hf, heq⟩ | hrest
    · rcases ihtext hmet with hmet | ⟨f, hf, heq⟩ | hrest
      · rcases Survey.mem_met_note.1 hmet with hs | ⟨file, q, rfl, htarget, rfl⟩
        · exact .inl hs
        · obtain ⟨_, ⟨⟩, hpath, -, -⟩ := Survey.entered?_eq_some hd
          obtain rfl := Option.some.inj (hpath.symm.trans htarget)
          exact .inr (.inl ⟨_, List.mem_cons_self, rfl⟩)
      · exact .inr (.inl ⟨f, by simp [hf], heq⟩)
      · exact .inr (.inr hrest)
    · exact .inr (.inl ⟨f, by simp [hf], heq⟩)
    · exact .inr (.inr hrest)

/-- All files that the directives lead to, and those of the files entered, are met in the end. -/
theorem target_mem_met (h : Surveys files root source ds s scanned t) :
    (∀ file path, .inclusion file ∈ ds → inclusionTarget root source file = some path →
      files.identity path ∈ t.met) ∧
    ∀ f ∈ scanned, ∀ file path, .inclusion file ∈ Directive.all f.2 →
      inclusionTarget root f.1 file = some path → files.identity path ∈ t.met := by
  induction h with
  | nil => simp
  | @pass source d ds s t scanned hd hds ih =>
    refine ⟨fun file path hfile htarget => ?_, ih.2⟩
    rcases List.mem_cons.1 hfile with rfl | hfile
    · exact hds.met_subset (Survey.mem_met_note.2 (.inr ⟨file, path, rfl, htarget, rfl⟩))
    · exact ih.1 file path hfile htarget
  | @follow source path text d ds s t u inner later hd htext hds ihtext ihds =>
    refine ⟨fun file q hfile htarget => ?_, ?_⟩
    · rcases List.mem_cons.1 hfile with rfl | hfile
      · exact hds.met_subset (htext.met_subset
          (Survey.mem_met_note.2 (.inr ⟨file, q, rfl, htarget, rfl⟩)))
      · exact ihds.1 file q hfile htarget
    · simp only [List.forall_mem_cons, List.forall_mem_append]
      exact ⟨fun file q hfile htarget => hds.met_subset (ihtext.1 file q hfile htarget),
        fun f hf file q hfile htarget => hds.met_subset (ihtext.2 f hf file q hfile htarget),
        ihds.2⟩

/-- One inclusion is recorded for each that is written in the directives and in the files
entered. -/
theorem inclusions_perm (h : Surveys files root source ds s scanned t) :
    t.ledger.inclusions.Perm (s.ledger.inclusions ++ ds.filterMap (·.inclusion? source) ++
      scanned.flatMap fun f => (Directive.all f.2).filterMap (·.inclusion? f.1)) := by
  have hcons : ∀ (source : Path) (d : Directive) (ds : List Directive),
      (d :: ds).filterMap (·.inclusion? source) =
        (d.inclusion? source).toList ++ ds.filterMap (·.inclusion? source) := by
    intro source d ds
    cases hd : d.inclusion? source <;> simp [hd]
  induction h with
  | nil => simp
  | @pass source d ds s t scanned hd hds ih =>
    rw [Survey.inclusions_note] at ih
    rwa [hcons, ← List.append_assoc s.ledger.inclusions]
  | @follow source path text d ds s t u inner later hd htext hds ihtext ihds =>
    -- what the file entered adds stands before what is left of the directives
    rw [Survey.inclusions_note] at ihtext
    refine (ihds.trans ((ihtext.append_right _).append_right _)).trans ?_
    rw [hcons, List.flatMap_cons, List.flatMap_append]
    simp only [List.append_assoc]
    refine List.Perm.append_left _ (List.Perm.append_left _ ?_)
    simp only [← List.append_assoc]
    refine List.Perm.append_right _ ?_
    rw [List.append_assoc (List.filterMap _ ds)]
    exact List.perm_append_comm

/-- The macros are those known before and those that the directives and the files entered
define. -/
theorem contains_iff (h : Surveys files root source ds s scanned t) {word : String} :
    t.ledger.contains word = true ↔ s.ledger.contains word = true ∨ (∃ d ∈ ds, d.Defines word) ∨
      ∃ f ∈ scanned, ∃ d ∈ Directive.all f.2, d.Defines word := by
  induction h with
  | nil => simp
  | @pass source d ds s t scanned hd hds ih =>
    rw [ih, Survey.contains_note, List.exists_mem_cons_iff, or_assoc, or_assoc]
  | @follow source path text d ds s t u inner later hd htext hds ihtext ihds =>
    rw [ihds, ihtext, Survey.contains_note, List.exists_mem_cons_iff, List.exists_mem_cons_iff]
    simp only [List.mem_append, or_and_right, exists_or]
    refine iff_of_eq ?_
    ac_rfl

/-- A run is determined by where it starts. -/
theorem unique (h : Surveys files root source ds s scanned t) :
    ∀ {scanned' : List (Path × String)} {t' : Survey},
      Surveys files root source ds s scanned' t' → scanned' = scanned ∧ t' = t := by
  induction h with
  | nil =>
    rintro _ _ ⟨⟩
    exact ⟨rfl, rfl⟩
  | pass hd _ ih =>
    rintro _ _ h'
    cases h' with
    | pass _ hds => exact ih hds
    | follow hd' => simp [hd] at hd'
  | follow hd _ _ ihtext ihds =>
    rintro _ _ h'
    cases h' with
    | pass hd' => simp [hd] at hd'
    | follow hd' htext hds =>
      obtain ⟨rfl, rfl⟩ := Prod.mk.inj (Option.some.inj (hd.symm.trans hd'))
      obtain ⟨rfl, rfl⟩ := ihtext htext
      obtain ⟨rfl, rfl⟩ := ihds hds
      exact ⟨rfl, rfl⟩

end Surveys

/-! ## The bound on depth -/

namespace Survey

variable {files : Files} {root : Option Path}

/-- The files that are not met. -/
def unmet (ids : List FileId) (s : Survey) : List FileId :=
  ids.filter (· ∉ s.met)

theorem unmet_eq_filter (ids : List FileId) {s t : Survey} (h : s.met ⊆ t.met) :
    unmet ids t = (unmet ids s).filter (· ∉ t.met) := by
  rw [unmet, unmet, List.filter_filter]
  refine List.filter_congr fun id _ => ?_
  rw [Bool.eq_iff_iff]
  simpa using fun ht hs => ht (h hs)

theorem length_unmet_le (ids : List FileId) {s t : Survey} (h : s.met ⊆ t.met) :
    (unmet ids t).length ≤ (unmet ids s).length := by
  rw [unmet_eq_filter ids h]
  exact List.length_filter_le _ _

theorem length_unmet_lt {ids : List FileId} {s t : Survey} {id : FileId} (h : s.met ⊆ t.met)
    (hid : id ∈ ids) (hs : id ∉ s.met) (ht : id ∈ t.met) :
    (unmet ids t).length < (unmet ids s).length := by
  rw [unmet_eq_filter ids h, List.length_filter_lt_length_iff_exists]
  exact ⟨id, List.mem_filter.2 ⟨hid, by simpa using hs⟩, by simpa using ht⟩

/-- If all files that can be read are among `ids`, a depth above the number of those not met is
as good as none. -/
theorem exists_surveys {ids : List FileId}
    (hids : ∀ path text, files.read path = .ok text → files.identity path ∈ ids) :
    ∀ (depth : Nat) (source : Path) (text : String) (s : Survey),
      (unmet ids s).length < depth → ∃ scanned,
        Surveys files root source (Directive.all text) s scanned
          (enter files root depth source text s)
  | 0, _, _, _, hlt => absurd hlt (Nat.not_lt_zero _)
  | depth + 1, source, text, s, hlt => by
    rw [enter]
    generalize Directive.all text = ds
    induction ds generalizing s with
    | nil => exact ⟨[], .nil source s⟩
    | cons d ds ih =>
      have hnote : s.met ⊆ (s.note files root source d).met :=
        fun id hid => mem_met_note.2 (.inl hid)
      rw [List.foldl_cons, apply_eq]
      split
      · next f hd =>
        obtain ⟨path, text⟩ := f
        obtain ⟨file, rfl, htarget, hunmet, hread⟩ := entered?_eq_some hd
        have hless := length_unmet_lt hnote (hids path text hread) hunmet
          (mem_met_note.2 (.inr ⟨file, path, rfl, htarget, rfl⟩))
        obtain ⟨inner, hinner⟩ := exists_surveys hids depth path text _
          (Nat.lt_of_lt_of_le hless (Nat.le_of_lt_succ hlt))
        have hle := length_unmet_le ids hinner.met_subset
        obtain ⟨later, hlater⟩ := ih _ (Nat.lt_of_le_of_lt hle (hless.trans hlt))
        exact ⟨_, .follow hd hinner hlater⟩
      · next hd =>
        obtain ⟨scanned, hscanned⟩ := ih _ (Nat.lt_of_le_of_lt (length_unmet_le ids hnote) hlt)
        exact ⟨scanned, .pass hd hscanned⟩

end Survey

/-! ## Files in memory -/

namespace Files

variable {texts : List (Path × String)} {p q : Path} {text : String}

theorem identity_memory_eq_iff :
    (memory texts).identity p = (memory texts).identity q ↔ p.normalise = q.normalise :=
  ⟨FileId.written.inj, congrArg FileId.written⟩

theorem read_memory_congr (h : p.normalise = q.normalise) :
    (memory texts).read p = (memory texts).read q := by
  simp only [memory, h]

/-- A text that can be read is held under a path that is the same after `normalise`. -/
theorem exists_mem_of_read_memory (h : (memory texts).read p = .ok text) :
    ∃ held, (held, text) ∈ texts ∧ held.normalise = p.normalise := by
  simp only [memory] at h
  split at h
  · next found hfound =>
    obtain rfl : found = text := by simpa using h
    obtain ⟨before, after, hheld, -⟩ := List.lookup_eq_some_iff.1 hfound
    have hmem : (p.normalise, found) ∈ texts.map fun f => (f.1.normalise, f.2) := by
      rw [hheld]
      simp
    obtain ⟨f, hf, heq⟩ := List.mem_map.1 hmem
    obtain ⟨hnormalise, rfl⟩ := Prod.mk.inj heq
    exact ⟨f.1, hf, hnormalise⟩
  · cases h

/-- The identities of the files that can be read. -/
def heldIds (texts : List (Path × String)) : List FileId :=
  texts.map fun f => (memory texts).identity f.1

theorem length_heldIds : (heldIds texts).length = (memory texts).count := by
  simp [heldIds, memory]

theorem mem_heldIds_of_read (h : (memory texts).read p = .ok text) :
    (memory texts).identity p ∈ heldIds texts := by
  obtain ⟨held, hmem, hnormalise⟩ := exists_mem_of_read_memory h
  exact List.mem_map.2 ⟨_, hmem, identity_memory_eq_iff.2 hnormalise⟩

end Files

/-! ## Files that inclusions lead to -/

/-- A file with its text that is reached from the script `source` in the file `name` by
inclusions, none of which leads back to that file. -/
inductive Reaches (files : Files) (root : Option Path) (name : Path) (source : String) :
    Path → String → Prop where
  | main : Reaches files root name source name source
  | step {path target : Path} {text included : String} {file : String}
    (h : Reaches files root name source path text)
    (hfile : .inclusion file ∈ Directive.all text)
    (htarget : inclusionTarget root path file = some target)
    (hmain : files.identity target ≠ files.identity name)
    (hread : files.read target = .ok included) :
    Reaches files root name source target included

/-- The files that a run enters are reached, if that holds for the file whose directives it runs
over. -/
theorem Surveys.reaches {files : Files} {root : Option Path} {name source : Path} {main : String}
    {ds : List Directive} {s t : Survey} {scanned : List (Path × String)}
    (h : Surveys files root source ds s scanned t) (hmet : files.identity name ∈ s.met) :
    ∀ {text : String}, Reaches files root name main source text → ds ⊆ Directive.all text →
      ∀ f ∈ scanned, Reaches files root name main f.1 f.2 := by
  induction h with
  | nil => simp
  | pass _ _ ih =>
    intro text hreach hds
    exact ih (Survey.mem_met_note.2 (.inl hmet)) hreach (List.cons_subset.1 hds).2
  | @follow source path text d ds s t u inner later hd htext hds' ihtext ihds =>
    intro text' hreach hds
    obtain ⟨file, rfl, htarget, hunmet, hread⟩ := Survey.entered?_eq_some hd
    have hnote : files.identity name ∈ (s.note files root source (.inclusion file)).met :=
      Survey.mem_met_note.2 (.inl hmet)
    have hpath : Reaches files root name main path text :=
      hreach.step (hds List.mem_cons_self) htarget (fun heq => hunmet (heq ▸ hmet)) hread
    simp only [List.forall_mem_cons, List.forall_mem_append]
    exact ⟨hpath, ihtext hnote hpath (List.Subset.refl _),
      ihds (htext.met_subset hnote) hreach (List.cons_subset.1 hds).2⟩

/-- An inclusion leads to a place below the root, or beside the file that includes. -/
theorem inclusionTarget_cases (root : Option Path) (file : String) :
    (∀ source, inclusionTarget root source file = root.map (·.join (.ofScript file))) ∨
      ∀ source, inclusionTarget root source file = some (source.parent.join (.ofScript file)) := by
  unfold inclusionTarget
  split
  · exact .inl fun _ => rfl
  · exact .inl fun _ => rfl
  · exact .inr fun _ => rfl

/-- Whether the path ends in a name. -/
def Path.endsInName (p : Path) : Bool :=
  match p.components.getLast? with
  | some (.name _) => true
  | _ => false

theorem Path.endsInName_iff {p : Path} :
    p.endsInName = true ↔ ∃ text, p.components.getLast? = some (.name text) := by
  unfold endsInName
  split
  · next text h => exact iff_of_true rfl ⟨text, h⟩
  · next h => exact iff_of_false Bool.false_ne_true fun ⟨text, heq⟩ => h text heq

/-- Whether the directive includes a path that ends in a name, or none. -/
def Directive.namesFile : Directive → Bool
  | .inclusion file => (Path.ofScript file).endsInName
  | .definition .. => true

theorem endsInName_of_inclusionTarget {root : Option Path} {source target : Path} {file : String}
    (h : inclusionTarget root source file = some target)
    (hfile : (Path.ofScript file).endsInName = true) : target.endsInName = true := by
  obtain ⟨text, htext⟩ := Path.endsInName_iff.1 hfile
  have hjoin : ∀ base : Path, (base.join (.ofScript file)).endsInName = true := by
    intro base
    refine Path.endsInName_iff.2 ⟨text, ?_⟩
    rw [Path.components_join base (Path.isAbsolute_ofScript file), List.getLast?_append, htext]
    rfl
  rcases inclusionTarget_cases root file with hcase | hcase
  · rw [hcase, Option.map_eq_some_iff] at h
    obtain ⟨base, -, rfl⟩ := h
    exact hjoin base
  · rw [hcase] at h
    obtain rfl := Option.some.inj h
    exact hjoin _

/-- The inclusions of a file lead to the same places under all paths of the file that end in a
name. -/
theorem inclusionTarget_congr {root : Option Path} {p q target : Path} {file : String}
    (hp : p.endsInName = true) (hq : q.endsInName = true) (h : p.normalise = q.normalise)
    (htarget : inclusionTarget root p file = some target) :
    ∃ target', inclusionTarget root q file = some target' ∧
      target'.normalise = target.normalise := by
  rcases inclusionTarget_cases root file with hcase | hcase
  · exact ⟨target, by rw [hcase, ← hcase p, htarget], rfl⟩
  · rw [hcase] at htarget
    obtain rfl := Option.some.inj htarget
    obtain ⟨_, hp⟩ := Path.endsInName_iff.1 hp
    obtain ⟨_, hq⟩ := Path.endsInName_iff.1 hq
    exact ⟨_, hcase q,
      (Path.normalise_join_parent hp hq h (Path.isAbsolute_ofScript file)).symm⟩

section

variable {texts : List (Path × String)} {root : Option Path} {name path : Path}
  {source text : String}

theorem Reaches.text_mem (h : Reaches (.memory texts) root name source path text) :
    text ∈ source :: texts.map Prod.snd := by
  cases h with
  | main => exact List.mem_cons_self
  | step _ _ _ _ hread =>
    obtain ⟨held, hmem, -⟩ := Files.exists_mem_of_read_memory hread
    exact List.mem_cons_of_mem source (List.mem_map.2 ⟨_, hmem, rfl⟩)

variable
  (hnames : ∀ text ∈ source :: texts.map Prod.snd, ∀ d ∈ Directive.all text, d.namesFile = true)
include hnames

/-- If all paths that are included end in a name, so do the paths that inclusions of a file
reached lead to. -/
theorem Reaches.endsInName_target (h : Reaches (.memory texts) root name source path text)
    {file : String} {target : Path} (hfile : .inclusion file ∈ Directive.all text)
    (htarget : inclusionTarget root path file = some target) : target.endsInName = true :=
  endsInName_of_inclusionTarget htarget (hnames text h.text_mem (.inclusion file) hfile)

theorem Reaches.endsInName (h : Reaches (.memory texts) root name source path text) :
    path = name ∨ path.endsInName = true := by
  cases h with
  | main => exact .inl rfl
  | step h hfile htarget _ _ => exact .inr (h.endsInName_target hnames hfile htarget)

/-- A run over the directives of a script enters all files that are reached, under one of their
paths. -/
theorem exists_mem_of_reaches {scanned : List (Path × String)} {last : Survey}
    (hrun : Surveys (.memory texts) root name (Directive.all source)
      { met := [(Files.memory texts).identity name] } scanned last)
    (h : Reaches (.memory texts) root name source path text) :
    ∃ f ∈ (name, source) :: scanned, f.1.normalise = path.normalise ∧ f.2 = text ∧
      (f.1 = path ∨ f.1.endsInName = true ∧ path.endsInName = true) := by
  induction h with
  | main => exact ⟨_, List.mem_cons_self, rfl, rfl, .inl rfl⟩
  | @step path target text included file h hfile htarget hmain hread ih =>
    obtain ⟨f, hf, hnormalise, rfl, hspelled⟩ := ih
    -- the file was entered as `f`, and its inclusion leads to the same place from there
    obtain ⟨target', htarget', hplace⟩ : ∃ target', inclusionTarget root f.1 file = some target' ∧
        target'.normalise = target.normalise := by
      rcases hspelled with heq | ⟨hfname, hpname⟩
      · exact ⟨target, by rwa [heq], rfl⟩
      · exact inclusionTarget_congr hpname hfname hnormalise.symm htarget
    have hmet : (Files.memory texts).identity target' ∈ last.met := by
      rcases List.mem_cons.1 hf with rfl | hf
      · exact hrun.target_mem_met.1 file target' hfile htarget'
      · exact hrun.target_mem_met.2 f hf file target' hfile htarget'
    have htname : target.endsInName = true := h.endsInName_target hnames hfile htarget
    rcases hrun.mem_met hmet with hstart | ⟨g, hg, hgid⟩ | ⟨p, e, hpid, herror⟩
    · rw [List.mem_singleton, Files.identity_memory_eq_iff, hplace] at hstart
      exact absurd (Files.identity_memory_eq_iff.2 hstart) hmain
    · have hgplace : g.1.normalise = target.normalise :=
        (Files.identity_memory_eq_iff.1 hgid).trans hplace
      have hgread := hrun.fresh.read_eq g hg
      rw [Files.read_memory_congr hgplace, hread] at hgread
      refine ⟨g, List.mem_cons_of_mem _ hg, hgplace, (Except.ok.inj hgread).symm, .inr ⟨?_, htname⟩⟩
      have hgname := (hrun.reaches List.mem_cons_self .main (List.Subset.refl _) g hg).endsInName
        hnames
      refine hgname.resolve_left fun heq => hrun.fresh.unmet g hg ?_
      rw [heq]
      exact List.mem_cons_self
    · rw [Files.read_memory_congr ((Files.identity_memory_eq_iff.1 hpid).trans hplace),
        hread] at herror
      cases herror

end

/-- Following inclusions comes to an end and finds what there is to find. For files in memory the
run has no need of a bound on depth, and with any that is large enough it comes to the same. Each
file is entered at most once, that of the script itself too. What is collected is one inclusion
for each that is written in the script and in the files entered, and the macros that a line of one
of these defines. The files entered are reached by inclusions, and if all paths that are included
end in a name, they are all files that are. -/
theorem ofSource_memory (texts : List (Path × String)) (root : Option Path) (name : Path)
    (source : String) :
    let files := Files.memory texts
    let start : Survey := { met := [files.identity name] }
    let ledger := (Prepared.ofSource files root name source).ledger
    ∃ (scanned : List (Path × String)) (last : Survey),
      Surveys files root name (Directive.all source) start scanned last ∧
      (∀ depth, files.count + 1 ≤ depth →
        Survey.enter files root depth name source start = last) ∧
      ledger = last.ledger ∧
      (((name, source) :: scanned).map (·.1.normalise)).Nodup ∧
      ledger.inclusions.Perm (((name, source) :: scanned).flatMap fun f =>
        (Directive.all f.2).filterMap (·.inclusion? f.1)) ∧
      (∀ word, ledger.contains word = true ↔
        ∃ f ∈ (name, source) :: scanned, Directive.DefinedIn f.2 word) ∧
      (∀ f ∈ (name, source) :: scanned, Reaches files root name source f.1 f.2) ∧
      ((∀ text ∈ source :: texts.map Prod.snd, ∀ d ∈ Directive.all text, d.namesFile = true) →
        ∀ path text, Reaches files root name source path text →
          ∃ f ∈ (name, source) :: scanned, f.1.normalise = path.normalise ∧ f.2 = text) := by
  intro files start ledger
  have hruns : ∀ depth, files.count + 1 ≤ depth → ∃ scanned, Surveys files root name
      (Directive.all source) start scanned (Survey.enter files root depth name source start) := by
    intro depth hdepth
    refine Survey.exists_surveys (fun _ _ => Files.mem_heldIds_of_read) depth name source start ?_
    have hle : (Survey.unmet (Files.heldIds texts) start).length ≤ files.count := by
      rw [← Files.length_heldIds]
      exact List.length_filter_le _ _
    omega
  obtain ⟨scanned, hrun⟩ := hruns (files.count + 1) (Nat.le_refl _)
  refine ⟨scanned, _, hrun, fun depth hdepth => ?_, rfl, ?_, ?_, fun word => ?_, ?_,
    fun hnames path text hreach => ?_⟩
  · obtain ⟨_, hdeep⟩ := hruns depth hdepth
    exact (hrun.unique hdeep).2
  · have hfresh := hrun.fresh
    have hscanned : (scanned.map (·.1.normalise)).Nodup := by
      refine List.Nodup.of_map FileId.written ?_
      rw [List.map_map]
      exact hfresh.nodup
    rw [List.map_cons, List.nodup_cons]
    refine ⟨fun hmem => ?_, hscanned⟩
    obtain ⟨f, hf, heq⟩ := List.mem_map.1 hmem
    exact hfresh.unmet f hf (List.mem_singleton.2 (Files.identity_memory_eq_iff.2 heq))
  · rw [List.flatMap_cons]
    exact hrun.inclusions_perm
  · simp only [← Directive.exists_defines_iff]
    rw [List.exists_mem_cons_iff]
    exact hrun.contains_iff.trans (or_iff_right (by simp [Ledger.contains_iff, start]))
  · rw [List.forall_mem_cons]
    exact ⟨.main, hrun.reaches List.mem_cons_self .main (List.Subset.refl _)⟩
  · obtain ⟨f, hf, hplace, htext, -⟩ := exists_mem_of_reaches hnames hrun hreach
    exact ⟨f, hf, hplace, htext⟩

/-- Two files that include each other under different paths, the script and a file that is not
there : from the script both are reached, so they are entered, and the macro that a line of the
first one defines is collected. -/
theorem ofSource_memory_cycle :
    let texts : List (Path × String) :=
      [(⟨"/m/a.sqf"⟩, "#include \"lib/../b.sqf\"\n#define ONE 1"),
        (⟨"/m/b.sqf"⟩, "#include \"./a.sqf\"\n#include \"\\m\\init.sqf\"\n#include <c.sqf>")]
    let source := "#include \"a.sqf\""
    let files := Files.memory texts
    (∀ text ∈ source :: texts.map Prod.snd, ∀ d ∈ Directive.all text, d.namesFile = true) ∧
      ∃ (scanned : List (Path × String)) (last : Survey),
        Surveys files (some ⟨"/"⟩) ⟨"/m/init.sqf"⟩ (Directive.all source)
          { met := [files.identity ⟨"/m/init.sqf"⟩] } scanned last ∧
        (∃ f ∈ (⟨"/m/init.sqf"⟩, source) :: scanned,
          f.1.normalise = Path.normalise ⟨"/m/lib/../b.sqf"⟩) ∧
        (Prepared.ofSource files (some ⟨"/"⟩) ⟨"/m/init.sqf"⟩ source).ledger.contains "one" =
          true := by
  intro texts source files
  have hnames : ∀ text ∈ source :: texts.map Prod.snd, ∀ d ∈ Directive.all text,
      d.namesFile = true := by
    decide +kernel
  obtain ⟨scanned, last, hrun, -, -, -, -, hcontains, -, hall⟩ :=
    ofSource_memory texts (some ⟨"/"⟩) ⟨"/m/init.sqf"⟩ source
  have ha : Reaches files (some ⟨"/"⟩) ⟨"/m/init.sqf"⟩ source ⟨"/m/a.sqf"⟩
      "#include \"lib/../b.sqf\"\n#define ONE 1" := by
    have hfile : .inclusion "a.sqf" ∈ Directive.all source := by
      decide +kernel
    exact .step .main hfile (by decide +kernel) (by decide +kernel) (by decide +kernel)
  have hb : Reaches files (some ⟨"/"⟩) ⟨"/m/init.sqf"⟩ source ⟨"/m/lib/../b.sqf"⟩
      "#include \"./a.sqf\"\n#include \"\\m\\init.sqf\"\n#include <c.sqf>" := by
    have hfile : .inclusion "lib/../b.sqf" ∈
        Directive.all "#include \"lib/../b.sqf\"\n#define ONE 1" := by
      decide +kernel
    exact .step ha hfile (by decide +kernel) (by decide +kernel) (by decide +kernel)
  have hdefines : Directive.DefinesName "#define ONE 1".toList "ONE".toList :=
    ⟨" ONE 1".toList,
      ⟨[], ['#'], [], by decide +kernel, by simp, by simp, by simp [Text.isBlank]⟩,
      [' '], " 1".toList, by decide +kernel, List.all_eq_true.1 rfl, by decide +kernel,
      List.all_eq_true.1 rfl, by simp [Text.continuesName]⟩
  have hlines : Text.splitOn '\n' "#include \"lib/../b.sqf\"\n#define ONE 1".toList =
      ["#include \"lib/../b.sqf\"".toList, "#define ONE 1".toList] := by
    decide +kernel
  have hone : Directive.DefinedIn "#include \"lib/../b.sqf\"\n#define ONE 1" "one" := by
    refine ⟨1, "#define ONE 1".toList, "ONE".toList, ?_, by decide +kernel, ?_, ?_,
      by decide +kernel⟩
    · rw [hlines]
      rfl
    · rw [hlines]
      decide +kernel
    · rw [hlines]
      exact hdefines
  obtain ⟨f, hf, hplace, -⟩ := hall hnames _ _ hb
  obtain ⟨g, hg, -, hgtext⟩ := hall hnames _ _ ha
  exact ⟨hnames, scanned, last, hrun, ⟨f, hf, hplace⟩,
    (hcontains "one").2 ⟨g, hg, hgtext ▸ hone⟩⟩

end SqfCheck
