import Mathlib.Data.List.Forall2
import Mathlib.Data.List.TakeWhile
import Mathlib.Tactic.SplitIfs
import SqfCheck.Directive.Follow
import SqfCheck.Proofs.Paths

/-!
# Lines of directives

Emptying directives leaves every other line of a script where it was and as it was
(`blanking_ofSource`). `Directive.InDirective` says which lines are lines of directives : those
whose first character that is no blank is a number sign, and those after a line of a directive that
ends in a backslash. Going over the lines from the first on, all that has to be remembered of the
lines before is whether they leave a directive unfinished (`Directive.carries`), and so the line of
each number can be told from the lines before it (`Directive.getElem?_blankLines`,
`Directive.inDirective_iff`).

No line that is left begins a directive. So there is nothing to empty in what is left and there are
no directives to read in it.
-/

namespace SqfCheck

open Text

namespace Directive

/-- The line of the given number, counted from zero, is one of a directive : only blanks stand
before a number sign in it, or the line before it is one of a directive and ends in a backslash,
carriage returns not counted. -/
inductive InDirective (lines : List (List Char)) : Nat → Prop where
  | sign {i : Nat} {before after : List Char} (hline : lines[i]? = some (before ++ '#' :: after))
    (hblank : ∀ c ∈ before, isBlank c = true) : InDirective lines i
  | next {i : Nat} {before returns : List Char} (h : InDirective lines i)
    (hline : lines[i]? = some (before ++ '\\' :: returns)) (hreturns : ∀ c ∈ returns, c = '\r')
    (hnext : i + 1 < lines.length) : InDirective lines (i + 1)

/-! ## Single lines -/

theorem opens_iff {line : List Char} : opens line = true ↔
    ∃ before after, line = before ++ '#' :: after ∧ ∀ c ∈ before, isBlank c = true := by
  rw [opens, trimStart, beq_iff_eq, List.head?_eq_some_iff]
  constructor
  · rintro ⟨after, hafter⟩
    refine ⟨line.takeWhile isBlank, after, ?_, fun c hc => List.mem_takeWhile_imp hc⟩
    rw [← hafter, List.takeWhile_append_dropWhile]
  · rintro ⟨before, after, rfl, hblank⟩
    refine ⟨after, ?_⟩
    rw [List.dropWhile_append_of_pos hblank, List.dropWhile_cons_of_neg (by decide)]

theorem continues_iff {line : List Char} : continues line = true ↔
    ∃ before returns, line = before ++ '\\' :: returns ∧ ∀ c ∈ returns, c = '\r' := by
  rw [continues, dropReturns, dropEndWhile, beq_iff_eq, List.getLast?_reverse,
    List.head?_eq_some_iff]
  constructor
  · rintro ⟨front, hfront⟩
    refine ⟨front.reverse, (line.reverse.takeWhile (· == '\r')).reverse, ?_, fun c hc => ?_⟩
    · apply List.reverse_injective
      simp [← hfront]
    · simpa using List.mem_takeWhile_imp (List.mem_reverse.1 hc)
  · rintro ⟨before, returns, rfl, hreturns⟩
    refine ⟨before.reverse, ?_⟩
    have hdrop : ∀ c ∈ returns.reverse, (c == '\r') = true := by
      simpa using hreturns
    rw [List.reverse_append, List.reverse_cons, List.append_assoc,
      List.dropWhile_append_of_pos hdrop]
    rfl

/-! ## Lines in a row -/

/-- Whether a directive is unfinished after the lines, where `inside` says whether one is before
them. -/
def carries (inside : Bool) (lines : List (List Char)) : Bool :=
  lines.foldl (fun inside line => (inside || opens line) && continues line) inside

theorem blankLines_cons (inside : Bool) (line : List Char) (lines : List (List Char)) :
    blankLines inside (line :: lines) = (if inside || opens line then [] else line) ::
      blankLines (carries inside [line]) lines := by
  rw [blankLines]
  split_ifs with h
  · simp [carries, h]
  · simp [carries, h]

theorem blankLines_append (inside : Bool) (lines more : List (List Char)) :
    blankLines inside (lines ++ more) =
      blankLines inside lines ++ blankLines (carries inside lines) more := by
  induction lines generalizing inside with
  | nil => rfl
  | cons line lines ih =>
    rw [List.cons_append, blankLines_cons, ih, blankLines_cons]
    rfl

/-- Each line is emptied or left according to it and the lines before it. -/
theorem getElem?_blankLines (inside : Bool) (lines : List (List Char)) (i : Nat) :
    (blankLines inside lines)[i]? = lines[i]?.map fun line =>
      if carries inside (lines.take i) || opens line then [] else line := by
  induction lines generalizing inside i with
  | nil => rfl
  | cons line lines ih =>
    rw [blankLines_cons]
    cases i with
    | zero => rfl
    | succ i =>
      rw [List.getElem?_cons_succ, ih]
      rfl

theorem inDirective_iff {lines : List (List Char)} {i : Nat} : InDirective lines i ↔
    ∃ line, lines[i]? = some line ∧ (carries false (lines.take i) || opens line) = true := by
  induction i with
  | zero =>
    constructor
    · rintro (⟨hline, hblank⟩)
      exact ⟨_, hline, opens_iff.2 ⟨_, _, rfl, hblank⟩⟩
    · rintro ⟨line, hline, hopens⟩
      obtain ⟨before, after, rfl, hblank⟩ := opens_iff.1 hopens
      exact .sign hline hblank
  | succ i ih =>
    have hcarries : ∀ {line}, lines[i]? = some line → carries false (lines.take (i + 1)) =
        ((carries false (lines.take i) || opens line) && continues line) := by
      intro line hline
      rw [List.take_add_one, hline, carries, List.foldl_append]
      rfl
    constructor
    · intro h
      cases h with
      | sign hline hblank =>
        exact ⟨_, hline, by rw [opens_iff.2 ⟨_, _, rfl, hblank⟩, Bool.or_true]⟩
      | next h hline hreturns hnext =>
        obtain ⟨line, hline', hin⟩ := ih.1 h
        obtain rfl := Option.some.inj (hline.symm.trans hline')
        refine ⟨_, List.getElem?_eq_getElem hnext, ?_⟩
        rw [hcarries hline, hin, continues_iff.2 ⟨_, _, rfl, hreturns⟩]
        rfl
    · rintro ⟨line, hline, hin⟩
      rcases Bool.or_eq_true_iff.1 hin with hin | hopens
      · have hnext := (List.getElem?_eq_some_iff.1 hline).1
        have hlast := List.getElem?_eq_getElem (Nat.lt_of_succ_lt hnext)
        rw [hcarries hlast, Bool.and_eq_true] at hin
        obtain ⟨before, returns, heq, hreturns⟩ := continues_iff.1 hin.2
        exact .next (ih.2 ⟨_, hlast, hin.1⟩) (hlast.trans (congrArg some heq)) hreturns hnext
      · obtain ⟨before, after, rfl, hblank⟩ := opens_iff.1 hopens
        exact .sign hline hblank

instance (lines : List (List Char)) (i : Nat) : Decidable (InDirective lines i) :=
  decidable_of_iff (lines[i]?.any fun line => carries false (lines.take i) || opens line)
    (by rw [Option.any_eq_true, inDirective_iff])

/-- The first lines are the second ones with some of them emptied. -/
abbrev Emptied : List (List Char) → List (List Char) → Prop :=
  List.Forall₂ fun emptied line => emptied = line ∨ emptied = []

theorem emptied_blankLines :
    ∀ (inside : Bool) (lines : List (List Char)), Emptied (blankLines inside lines) lines
  | _, [] => .nil
  | inside, line :: lines => by
    unfold blankLines
    split_ifs
    · exact .cons (.inr rfl) (emptied_blankLines _ lines)
    · exact .cons (.inl rfl) (emptied_blankLines _ lines)

theorem length_blankLines (inside : Bool) (lines : List (List Char)) :
    (blankLines inside lines).length = lines.length :=
  (emptied_blankLines inside lines).length_eq

theorem mem_blankLines {inside : Bool} {line : List Char} {lines : List (List Char)}
    (h : line ∈ blankLines inside lines) : line = [] ∨ line ∈ lines := by
  obtain ⟨i, hi, rfl⟩ := List.mem_iff_getElem.1 h
  have hlines : i < lines.length := length_blankLines inside lines ▸ hi
  refine ((emptied_blankLines inside lines).get hi hlines).symm.imp_right fun heq => ?_
  rw [List.get_eq_getElem] at heq
  exact heq ▸ List.getElem_mem hlines

/-- No line that is left begins a directive. -/
theorem not_opens_blankLines (inside : Bool) (lines : List (List Char)) :
    ∀ line ∈ blankLines inside lines, opens line = false := by
  induction lines generalizing inside with
  | nil => simp [blankLines]
  | cons line lines ih =>
    rw [blankLines_cons, List.forall_mem_cons]
    refine ⟨?_, ih _⟩
    split_ifs with h
    · rfl
    · exact (Bool.or_eq_false_iff.1 (eq_false_of_ne_true h)).2

theorem blankLines_of_not_opens {lines : List (List Char)}
    (h : ∀ line ∈ lines, opens line = false) : blankLines false lines = lines := by
  induction lines with
  | nil => rfl
  | cons line lines ih =>
    obtain ⟨hline, hlines⟩ := List.forall_mem_cons.1 h
    rw [blankLines, Bool.false_or, hline, if_neg Bool.false_ne_true, ih hlines]

theorem readLines_of_not_opens {lines : List (List Char)}
    (h : ∀ line ∈ lines, opens line = false) (n : Nat) : readLines n none lines = [] := by
  induction lines generalizing n with
  | nil => rfl
  | cons line lines ih =>
    obtain ⟨hline, hlines⟩ := List.forall_mem_cons.1 h
    rw [readLines, hline]
    exact ih hlines (n + 1)

/-! ## Scripts -/

/-- The lines of a script without directives are the lines that are left of the script. -/
theorem splitOn_blank (source : String) : splitOn '\n' (blank source).toList =
    blankLines false (splitOn '\n' source.toList) := by
  rw [blank, String.toList_ofList, splitOn_eq]
  refine List.splitOn_intercalate '\n' (fun line hline => ?_) fun hnil => ?_
  · rcases mem_blankLines hline with rfl | hwritten
    · simp
    · exact not_mem_of_mem_splitOn '\n' source.toList line hwritten
  · have hlength := length_blankLines false (splitOn '\n' source.toList)
    rw [hnil] at hlength
    exact splitOn_ne_nil '\n' source.toList (List.eq_nil_of_length_eq_zero hlength.symm)

/-- In a script without directives nothing is left to empty. -/
theorem blank_blank (source : String) : blank (blank source) = blank source := by
  have hlines := blankLines_of_not_opens (not_opens_blankLines false (splitOn '\n' source.toList))
  rw [blank, splitOn_blank, hlines]
  rfl

/-- In a script without directives there are none to read. -/
theorem all_blank (source : String) : all (blank source) = [] := by
  rw [all, splitOn_blank]
  exact readLines_of_not_opens (not_opens_blankLines false _) 1

end Directive

/-- Directives are emptied and all else stays where it is. The script without directives has as
many lines as the script. A line of it is empty if the line of this number in the script is one of
a directive, and is that line otherwise. It is the same whatever files there are, wherever paths
begin and whatever the script is called. Taken for a script itself it is left as it is, and has no
macros and no inclusions. -/
theorem blanking_ofSource (files : Files) (root : Option Path) (name : Path) (source : String) :
    let prepared := Prepared.ofSource files root name source
    let lines := splitOn '\n' source.toList
    let kept := splitOn '\n' prepared.text.toList
    kept.length = lines.length ∧
    (∀ i, Directive.InDirective lines i ∧ kept[i]? = some [] ∨
      ¬Directive.InDirective lines i ∧ kept[i]? = lines[i]?) ∧
    ∀ (files' : Files) (root' : Option Path) (name' : Path),
      (Prepared.ofSource files' root' name' source).text = prepared.text ∧
      Prepared.ofSource files' root' name' prepared.text = ⟨prepared.text, {}⟩ := by
  intro prepared lines kept
  have hkept : kept = Directive.blankLines false lines := Directive.splitOn_blank source
  refine ⟨by rw [hkept, Directive.length_blankLines], fun i => ?_, fun files' root' name' =>
    ⟨rfl, ?_⟩⟩
  · rw [hkept, Directive.getElem?_blankLines, Directive.inDirective_iff]
    cases hline : lines[i]? with
    | none => exact .inr ⟨by simp, rfl⟩
    | some line =>
      cases hin : Directive.carries false (lines.take i) || Directive.opens line with
      | true => exact .inl ⟨⟨line, rfl, hin⟩, by rw [Option.map_some, if_pos hin]⟩
      | false =>
        refine .inr ⟨by simpa using hin, ?_⟩
        rw [Option.map_some, if_neg (ne_true_of_eq_false hin)]
  · have htext : Directive.blank prepared.text = prepared.text := Directive.blank_blank source
    have hnone : Directive.all prepared.text = [] := Directive.all_blank source
    rw [Prepared.ofSource, htext, Survey.enter, hnone]
    rfl

end SqfCheck
