import Mathlib
import SqfCheck.Proofs.Blanking

/-!
# What directives say

A directive is read from its lines put together (`Directive.joined`), and those of a script are
read where a line begins one and is not a line of one that was begun before
(`Directive.mem_all_iff`). A directive has an effect if it defines a macro that has a name or
includes a file whose path is closed (`Directive.HasEffect`), and all others are passed over
(`Directive.isSome_read_iff`). The names that are defined can be told from the text
(`Directive.exists_definition_mem_all_iff`).
-/

namespace SqfCheck

namespace Text

theorem trimStart_append {lead : List Char} (h : ∀ c ∈ lead, isBlank c = true) (cs : List Char) :
    trimStart (lead ++ cs) = trimStart cs :=
  List.dropWhile_append_of_pos h

theorem trimStart_cons {c : Char} (h : isBlank c = false) (cs : List Char) :
    trimStart (c :: cs) = c :: cs :=
  List.dropWhile_cons_of_neg (by simp [h])

theorem trimStart_eq_self {cs : List Char} (h : ∀ c ∈ cs.head?, isBlank c = false) :
    trimStart cs = cs := by
  cases cs with
  | nil => rfl
  | cons c cs => exact trimStart_cons (h c rfl) cs

theorem head?_dropWhile {p : Char → Bool} {c : Char} {cs : List Char}
    (h : c ∈ (cs.dropWhile p).head?) : p c = false := by
  have hhead := List.head?_dropWhile_not p cs
  rwa [Option.mem_def.1 h] at hhead

theorem exists_blanks (cs : List Char) : ∃ blanks rest, cs = blanks ++ rest ∧
    (∀ c ∈ blanks, isBlank c = true) ∧ ∀ c ∈ rest.head?, isBlank c = false :=
  ⟨_, _, List.takeWhile_append_dropWhile.symm, fun _ hc => List.mem_takeWhile_imp hc,
    fun _ hc => head?_dropWhile hc⟩

theorem isBlank_eq_false_of_continuesName {c : Char} (h : continuesName c = true) :
    isBlank c = false := by
  have hrange : 48 ≤ c.toNat ∧ c.toNat ≤ 122 := by
    simp only [continuesName, Char.isAlphanum, Char.isAlpha, Char.isUpper, Char.isLower,
      Char.isDigit, Bool.or_eq_true, Bool.and_eq_true, decide_eq_true_eq, beq_iff_eq] at h
    rcases h with ((⟨hlow, hhigh⟩ | ⟨hlow, hhigh⟩) | ⟨hlow, hhigh⟩) | rfl
    · exact ⟨Nat.le_trans (by decide) hlow, Nat.le_trans hhigh (by decide)⟩
    · exact ⟨Nat.le_trans (by decide) hlow, hhigh⟩
    · exact ⟨hlow, Nat.le_trans hhigh (by decide)⟩
    · decide
  simp only [isBlank, Bool.or_eq_false_iff, Bool.and_eq_false_iff, decide_eq_false_iff_not,
    beq_eq_false_iff_ne]
  omega

theorem splitBefore_append {p : Char → Bool} {word rest : List Char}
    (hword : ∀ c ∈ word, p c = false) (hrest : ∀ c ∈ rest.head?, p c = true) :
    splitBefore p (word ++ rest) = (word, rest) := by
  have hall : ∀ c ∈ word, (!p c) = true := fun c hc => by simp [hword c hc]
  have hstop : ∀ c ∈ rest.head?, (!p c) = false := fun c hc => by simp [hrest c hc]
  rw [splitBefore, takeWhile_append_eq hall hstop, dropWhile_append_eq hall hstop]

theorem eq_append_of_splitBefore {p : Char → Bool} {cs word rest : List Char}
    (h : splitBefore p cs = (word, rest)) : cs = word ++ rest ∧ ∀ c ∈ rest.head?, p c = true := by
  obtain ⟨rfl, rfl⟩ := Prod.mk.inj h
  exact ⟨List.takeWhile_append_dropWhile.symm, fun c hc => by simpa using head?_dropWhile hc⟩

theorem isSome_splitAtFirst_iff {sep : Char} {cs : List Char} :
    (splitAtFirst sep cs).isSome = true ↔ sep ∈ cs := by
  unfold splitAtFirst
  split
  · next before h =>
    have hnone := List.dropWhile_eq_nil_iff.1 (Prod.mk.inj h).2
    simpa using fun hmem => by simpa using hnone sep hmem
  · next before d after h =>
    obtain ⟨rfl, hd⟩ := eq_append_of_splitBefore h
    obtain rfl : d = sep := by simpa using hd d rfl
    simp

theorem exists_dropEndWhile (p : Char → Bool) (cs : List Char) :
    ∃ ending, cs = dropEndWhile p cs ++ ending ∧ ∀ c ∈ ending, p c = true := by
  refine ⟨(cs.reverse.takeWhile p).reverse, ?_, fun c hc => ?_⟩
  · rw [dropEndWhile, ← List.reverse_append, List.takeWhile_append_dropWhile, List.reverse_reverse]
  · exact List.mem_takeWhile_imp (List.mem_reverse.1 hc)

theorem dropEndWhile_append {p : Char → Bool} {c : Char} (hc : p c = false) (cs ds : List Char) :
    dropEndWhile p (cs ++ c :: ds) = cs ++ c :: dropEndWhile p ds := by
  have hstop : (c :: cs.reverse).dropWhile p = c :: cs.reverse :=
    List.dropWhile_cons_of_neg (by simp [hc])
  rw [dropEndWhile, dropEndWhile, List.reverse_append, List.reverse_cons, List.append_assoc,
    List.singleton_append, List.dropWhile_append, hstop]
  split
  · next hnil => simp [List.isEmpty_iff.1 hnil]
  · simp

end Text

open Text

namespace Directive

/-! ## Lines put together -/

/-- The text of a directive that begins on the first of the lines, or goes on there : the lines up
to the first that does not end in a backslash, without carriage returns at their ends and with a
newline for each backslash. -/
def joined : List (List Char) → List Char
  | [] => []
  | line :: lines =>
    if continues line then (dropReturns line).dropLast ++ '\n' :: joined lines
    else dropReturns line

theorem exists_getElem?_cons {line : List Char} {lines : List (List Char)}
    {P : Nat → List Char → Prop} : (∃ i first, (line :: lines)[i]? = some first ∧ P i first) ↔
      P 0 line ∨ ∃ i first, lines[i]? = some first ∧ P (i + 1) first := by
  constructor
  · rintro ⟨i, first, hfirst, h⟩
    cases i with
    | zero =>
      obtain rfl := Option.some.inj hfirst
      exact .inl h
    | succ i => exact .inr ⟨i, first, hfirst, h⟩
  · rintro (h | ⟨i, first, hfirst, h⟩)
    · exact ⟨0, line, rfl, h⟩
    · exact ⟨i + 1, first, hfirst, h⟩

/-- The directives that are read are the one that was begun before, and one for each line that
begins a directive when no other is unfinished. -/
theorem mem_readLines_iff {d : Directive} {lines : List (List Char)} {n : Nat}
    {pending : Option Unfinished} : d ∈ readLines n pending lines ↔
      (∃ u ∈ pending, read u.line u.first (u.text ++ joined lines) = some d) ∨
      ∃ i line, lines[i]? = some line ∧ opens line = true ∧
        carries pending.isSome (lines.take i) = false ∧
        read (n + i) line (joined (lines.drop i)) = some d := by
  induction lines generalizing n pending with
  | nil => cases pending <;> simp [readLines, joined]
  | cons line lines ih =>
    rw [exists_getElem?_cons, ← or_assoc]
    -- The directive that the line belongs to was begun before or begins here.
    have hhere : ((∃ u ∈ pending, read u.line u.first (u.text ++ joined (line :: lines)) = some d) ∨
          opens line = true ∧ carries pending.isSome [] = false ∧
            read n line (joined (line :: lines)) = some d) ↔
        ∃ u ∈ pending.or (if opens line then some ⟨n, line, []⟩ else none),
          read u.line u.first (u.text ++ joined (line :: lines)) = some d := by
      cases pending with
      | none => by_cases hopens : opens line <;> simp [hopens, carries]
      | some u => simp [carries]
    -- All others begin on later lines.
    have hlater : ∀ inside, carries pending.isSome [line] = inside →
        ((∃ i first, lines[i]? = some first ∧ opens first = true ∧
            carries inside (lines.take i) = false ∧
            read (n + 1 + i) first (joined (lines.drop i)) = some d) ↔
          ∃ i first, lines[i]? = some first ∧ opens first = true ∧
            carries pending.isSome ((line :: lines).take (i + 1)) = false ∧
            read (n + (i + 1)) first (joined ((line :: lines).drop (i + 1))) = some d) := by
      rintro inside rfl
      simp only [Nat.add_assoc, Nat.add_comm 1]
      rfl
    refine Iff.trans ?_ (or_congr_left hhere.symm)
    rw [readLines]
    split
    · next hnone =>
      obtain ⟨rfl, hopens⟩ := Option.or_eq_none_iff.1 hnone
      have hopens : opens line = false := by simpa using hopens
      rw [hnone]
      exact ih.trans (or_congr (by simp) (hlater false (by simp [carries, hopens])))
    · next u hu =>
      have hinside : (pending.isSome || opens line) = true := by
        rcases Option.or_eq_some_iff.1 hu with hpending | ⟨-, hopens⟩
        · rw [hpending, Option.isSome_some, Bool.true_or]
        · rw [(Option.ite_none_right_eq_some.1 hopens).1, Bool.or_true]
      rw [hu]
      cases hcontinues : continues line with
      | true =>
        refine ih.trans (or_congr ?_ (hlater true (by simp [carries, hinside, hcontinues])))
        simp [joined, hcontinues]
      | false =>
        rw [if_neg Bool.false_ne_true, List.mem_append, ih]
        refine or_congr ?_ (Iff.trans ?_ (hlater false (by simp [carries, hcontinues])))
        · simp [joined, hcontinues]
        · simp

theorem mem_all_iff {source : String} {d : Directive} : d ∈ all source ↔
    ∃ i line, (splitOn '\n' source.toList)[i]? = some line ∧ opens line = true ∧
      carries false ((splitOn '\n' source.toList).take i) = false ∧
      read (1 + i) line (joined ((splitOn '\n' source.toList).drop i)) = some d := by
  rw [all, mem_readLines_iff]
  simp

/-! ## Directives that have an effect -/

/-- The text has the word after number signs and blanks, and `rest` after the word. -/
def Announces (text word rest : List Char) : Prop :=
  ∃ lead signs gap, text = lead ++ (signs ++ (gap ++ (word ++ rest))) ∧
    (∀ c ∈ lead ++ gap, isBlank c = true) ∧ (∀ c ∈ signs, c = '#') ∧
    ∀ c ∈ rest.head?, isBlank c = true

/-- The text is that of a directive that defines a macro with a name, or includes a file with a path
between two marks. -/
inductive HasEffect (text : List Char) : Prop where
  | definition {sep more : List Char} {c : Char}
    (h : Announces text "define".toList (sep ++ c :: more)) (hsep : ∀ c ∈ sep, isBlank c = true)
    (hc : continuesName c = true) : HasEffect text
  | inclusion {sep path more : List Char} {opening closing : Char}
    (h : Announces text "include".toList (sep ++ opening :: (path ++ closing :: more)))
    (hsep : ∀ c ∈ sep, isBlank c = true)
    (hmarks : (opening, closing) ∈ [('"', '"'), ('<', '>')]) : HasEffect text

/-- The text of a directive is read from its first character that is neither blank nor a sign. -/
theorem trimStart_signs {lead signs gap : List Char} {c : Char}
    (hblank : ∀ c ∈ lead ++ gap, isBlank c = true) (hsigns : ∀ c ∈ signs, c = '#')
    (hc : isBlank c = false) (hsign : c ≠ '#') (cs : List Char) :
    trimStart ((trimStart (lead ++ (signs ++ (gap ++ c :: cs)))).dropWhile (· == '#')) =
      c :: cs := by
  obtain ⟨hlead, hgap⟩ := List.forall_mem_append.1 hblank
  have hstop : (c :: cs).dropWhile (· == '#') = c :: cs :=
    List.dropWhile_cons_of_neg (by simpa using hsign)
  rw [trimStart_append hlead]
  cases signs with
  | nil => rw [List.nil_append, trimStart_append hgap, trimStart_cons hc, hstop, trimStart_cons hc]
  | cons d signs =>
    obtain ⟨rfl, hsigns⟩ := List.forall_mem_cons.1 hsigns
    have hall : ∀ c ∈ signs, (c == '#') = true := by simpa using hsigns
    have hgaps : (gap ++ c :: cs).dropWhile (· == '#') = gap ++ c :: cs := by
      cases gap with
      | nil => exact hstop
      | cons b gap =>
        refine List.dropWhile_cons_of_neg fun hb => ?_
        have hblank := hgap b List.mem_cons_self
        rw [beq_iff_eq.1 hb] at hblank
        cases hblank
    rw [List.cons_append, trimStart_cons (by decide), List.dropWhile_cons_of_pos rfl,
      List.dropWhile_append_of_pos hall, hgaps, trimStart_append hgap, trimStart_cons hc]

theorem announces_of_splitBefore {text word rest : List Char}
    (h : splitBefore isBlank (trimStart ((trimStart text).dropWhile (· == '#'))) = (word, rest)) :
    Announces text word rest := by
  obtain ⟨hbody, hrest⟩ := eq_append_of_splitBefore h
  refine ⟨text.takeWhile isBlank, (trimStart text).takeWhile (· == '#'),
    ((trimStart text).dropWhile (· == '#')).takeWhile isBlank, ?_, ?_, ?_, hrest⟩
  · rw [← hbody]
    simp only [trimStart, List.takeWhile_append_dropWhile]
  · rw [List.forall_mem_append]
    exact ⟨fun c hc => List.mem_takeWhile_imp hc, fun c hc => List.mem_takeWhile_imp hc⟩
  · exact fun c hc => by simpa using List.mem_takeWhile_imp hc

theorem Announces.splitBefore_eq {text word rest : List Char} {c : Char} {cs : List Char}
    (h : Announces text word rest) (hword : word = c :: cs) (hsign : c ≠ '#')
    (hchars : ∀ c ∈ word, isBlank c = false) :
    splitBefore isBlank (trimStart ((trimStart text).dropWhile (· == '#'))) = (word, rest) := by
  obtain ⟨lead, signs, gap, rfl, hblank, hsigns, hrest⟩ := h
  have hc : isBlank c = false := hchars c (by simp [hword])
  rw [← splitBefore_append hchars hrest, hword, List.cons_append,
    trimStart_signs hblank hsigns hc hsign]

theorem isSome_readDefinition_iff {n : Nat} {first text : List Char} :
    (readDefinition n first text).isSome = true ↔
      ∃ sep c more, text = sep ++ c :: more ∧ (∀ c ∈ sep, isBlank c = true) ∧
        continuesName c = true := by
  have hname : (readDefinition n first text).isSome = true ↔
      (trimStart text).takeWhile continuesName ≠ [] := by
    simp only [readDefinition]
    split
    · next hempty => simp [List.isEmpty_iff.1 hempty]
    · next hempty => simpa using hempty
  rw [hname]
  constructor
  · intro h
    obtain ⟨sep, rest, rfl, hsep, hrest⟩ := exists_blanks text
    rw [trimStart_append hsep, trimStart_eq_self hrest] at h
    cases rest with
    | nil => exact absurd rfl h
    | cons c more =>
      refine ⟨sep, c, more, rfl, hsep, ?_⟩
      by_contra hc
      exact h (List.takeWhile_cons_of_neg hc)
  · rintro ⟨sep, c, more, rfl, hsep, hc⟩
    rw [trimStart_append hsep, trimStart_cons (isBlank_eq_false_of_continuesName hc),
      List.takeWhile_cons_of_pos hc]
    exact List.cons_ne_nil _ _

theorem exists_of_trim {text rest : List Char} {c : Char} (h : trim text = c :: rest) :
    ∃ sep ending, text = sep ++ c :: (rest ++ ending) ∧ ∀ c ∈ sep, isBlank c = true := by
  obtain ⟨ending, hending, -⟩ := exists_dropEndWhile isBlank (trimStart text)
  refine ⟨text.takeWhile isBlank, ending, ?_, fun c hc => List.mem_takeWhile_imp hc⟩
  change trimStart text = trim text ++ ending at hending
  rw [← List.cons_append, ← h, ← hending, trimStart, List.takeWhile_append_dropWhile]

theorem isSome_readInclusion_iff {text : List Char} : (readInclusion text).isSome = true ↔
    ∃ sep opening path closing more, text = sep ++ opening :: (path ++ closing :: more) ∧
      (∀ c ∈ sep, isBlank c = true) ∧ (opening, closing) ∈ [('"', '"'), ('<', '>')] := by
  constructor
  · intro h
    -- The mark that closes the path stands in what follows the one that opens it.
    have hclosed : ∀ {opening closing : Char} {rest : List Char}, trim text = opening :: rest →
        closing ∈ rest → (opening, closing) ∈ [('"', '"'), ('<', '>')] →
          ∃ sep opening path closing more, text = sep ++ opening :: (path ++ closing :: more) ∧
            (∀ c ∈ sep, isBlank c = true) ∧ (opening, closing) ∈ [('"', '"'), ('<', '>')] := by
      intro opening closing rest htrim hclosing hmarks
      obtain ⟨sep, ending, htext, hsep⟩ := exists_of_trim htrim
      obtain ⟨path, more, rfl⟩ := List.append_of_mem hclosing
      exact ⟨sep, opening, path, closing, more ++ ending, by rw [htext]; simp, hsep, hmarks⟩
    simp only [readInclusion] at h
    split at h
    · next htrim =>
      rw [Option.isSome_map, isSome_splitAtFirst_iff] at h
      exact hclosed htrim h (by simp)
    · next htrim =>
      rw [Option.isSome_map, isSome_splitAtFirst_iff] at h
      exact hclosed htrim h (by simp)
    · cases h
  · rintro ⟨sep, opening, path, closing, more, rfl, hsep, hmarks⟩
    have htrim : isBlank opening = false → isBlank closing = false →
        trim (sep ++ opening :: (path ++ closing :: more)) =
          opening :: (path ++ closing :: trimEnd more) := by
      intro hopening hclosing
      rw [trim, trimStart_append hsep, trimStart_cons hopening, trimEnd, ← List.cons_append,
        dropEndWhile_append hclosing]
      rfl
    simp only [List.mem_cons, Prod.mk.injEq, List.not_mem_nil, or_false] at hmarks
    rcases hmarks with ⟨rfl, rfl⟩ | ⟨rfl, rfl⟩
    · rw [readInclusion, htrim (by decide) (by decide)]
      simp [isSome_splitAtFirst_iff]
    · rw [readInclusion, htrim (by decide) (by decide)]
      simp [isSome_splitAtFirst_iff]

/-- A directive is read exactly from a text that has an effect. -/
theorem isSome_read_iff {n : Nat} {first text : List Char} :
    (read n first text).isSome = true ↔ HasEffect text := by
  constructor
  · intro h
    rw [read] at h
    split at h
    next word rest hsplit =>
    have hword := announces_of_splitBefore hsplit
    split_ifs at h with hdefine hinclude
    · obtain ⟨sep, c, more, rfl, hsep, hc⟩ := isSome_readDefinition_iff.1 h
      exact .definition (hdefine ▸ hword) hsep hc
    · obtain ⟨sep, opening, path, closing, more, rfl, hsep, hmarks⟩ := isSome_readInclusion_iff.1 h
      exact .inclusion (hinclude ▸ hword) hsep hmarks
    · cases h
  · intro h
    cases h with
    | definition h hsep hc =>
      rw [read, h.splitBefore_eq rfl (by decide) (by simp [isBlank])]
      exact isSome_readDefinition_iff.2 ⟨_, _, _, rfl, hsep, hc⟩
    | inclusion h hsep hmarks =>
      rw [read, h.splitBefore_eq rfl (by decide) (by simp [isBlank])]
      exact isSome_readInclusion_iff.2 ⟨_, _, _, _, _, rfl, hsep, hmarks⟩

/-- Nothing is read from a script just if no directive that begins in it has an effect. -/
theorem all_eq_nil_iff {source : String} : all source = [] ↔
    ∀ i line, (splitOn '\n' source.toList)[i]? = some line → opens line = true →
      carries false ((splitOn '\n' source.toList).take i) = false →
        ¬HasEffect (joined ((splitOn '\n' source.toList).drop i)) := by
  rw [List.eq_nil_iff_forall_not_mem]
  constructor
  · intro hnone i line hline hopens hcarries heffect
    obtain ⟨d, hd⟩ := Option.isSome_iff_exists.1 (isSome_read_iff.2 heffect)
    exact hnone d (mem_all_iff.2 ⟨i, line, hline, hopens, hcarries, hd⟩)
  · intro hnone d hd
    obtain ⟨i, line, hline, hopens, hcarries, hread⟩ := mem_all_iff.1 hd
    exact hnone i line hline hopens hcarries (isSome_read_iff.1 (Option.isSome_of_mem hread))

/-! ## Names that a script defines -/

/-- The text begins with the name, behind blanks, and the name does not go on. -/
def NamesFirst (text name : List Char) : Prop :=
  ∃ sep more, text = sep ++ (name ++ more) ∧ (∀ c ∈ sep, isBlank c = true) ∧ name ≠ [] ∧
    (∀ c ∈ name, continuesName c = true) ∧ ∀ c ∈ more.head?, continuesName c = false

/-- The text is that of a directive that defines a macro of the name. -/
def DefinesName (text name : List Char) : Prop :=
  ∃ rest, Announces text "define".toList rest ∧ NamesFirst rest name

/-- A directive that begins on some line of the source defines a macro of the name `word`, in any
case. -/
def DefinedIn (source word : String) : Prop :=
  ∃ i line name, (splitOn '\n' source.toList)[i]? = some line ∧ opens line = true ∧
    carries false ((splitOn '\n' source.toList).take i) = false ∧
    DefinesName (joined ((splitOn '\n' source.toList).drop i)) name ∧
    foldCase (String.ofList name) = foldCase word

theorem exists_of_readInclusion {text : List Char} {d : Directive}
    (h : readInclusion text = some d) : ∃ file, d = .inclusion file := by
  simp only [readInclusion] at h
  split at h
  · obtain ⟨⟨file, -⟩, -, rfl⟩ := Option.map_eq_some_iff.1 h
    exact ⟨_, rfl⟩
  · obtain ⟨⟨file, -⟩, -, rfl⟩ := Option.map_eq_some_iff.1 h
    exact ⟨_, rfl⟩
  · cases h

theorem exists_readDefinition_iff {n : Nat} {first text : List Char} {name : String} :
    (∃ arguments value span,
      readDefinition n first text = some (.definition name arguments value span)) ↔
        NamesFirst text name.toList := by
  constructor
  · rintro ⟨arguments, value, span, h⟩
    obtain ⟨sep, rest, rfl, hsep, hrest⟩ := exists_blanks text
    simp only [readDefinition, trimStart_append hsep, trimStart_eq_self hrest] at h
    split_ifs at h with hempty
    obtain ⟨rfl, -⟩ := Directive.definition.inj (Option.some.inj h)
    rw [String.toList_ofList]
    refine ⟨sep, rest.dropWhile continuesName, by rw [List.takeWhile_append_dropWhile], hsep,
      by simpa using hempty, fun c hc => List.mem_takeWhile_imp hc, fun c hc => head?_dropWhile hc⟩
  · rintro ⟨sep, more, rfl, hsep, hname, hchars, hmore⟩
    obtain ⟨c, cs, hcons⟩ := List.exists_cons_of_ne_nil hname
    have hc : isBlank c = false :=
      isBlank_eq_false_of_continuesName (hchars c (hcons ▸ List.mem_cons_self))
    have hstart : trimStart (sep ++ (name.toList ++ more)) = name.toList ++ more := by
      rw [trimStart_append hsep, hcons, List.cons_append, trimStart_cons hc]
    simp only [readDefinition, hstart, takeWhile_append_eq hchars hmore]
    rw [if_neg (by simpa using hname), String.ofList_toList]
    exact ⟨_, _, _, rfl⟩

/-- A definition of the name is read exactly from a text that defines it. -/
theorem exists_read_definition_iff {n : Nat} {first text : List Char} {name : String} :
    (∃ arguments value span, read n first text = some (.definition name arguments value span)) ↔
      DefinesName text name.toList := by
  constructor
  · rintro ⟨arguments, value, span, h⟩
    rw [read] at h
    split at h
    next word rest hsplit =>
    have hword := announces_of_splitBefore hsplit
    split_ifs at h with hdefine hinclude
    · exact ⟨rest, hdefine ▸ hword, exists_readDefinition_iff.1 ⟨arguments, value, span, h⟩⟩
    · obtain ⟨file, hfile⟩ := exists_of_readInclusion h
      cases hfile
  · rintro ⟨rest, hword, hname⟩
    rw [read, hword.splitBefore_eq rfl (by decide) (by simp [isBlank])]
    exact exists_readDefinition_iff.2 hname

/-- What is read from a script defines a name just if a directive in its text does. -/
theorem exists_definition_mem_all_iff {source word : String} :
    (∃ name arguments value span, .definition name arguments value span ∈ all source ∧
      foldCase name = foldCase word) ↔ DefinedIn source word := by
  constructor
  · rintro ⟨name, arguments, value, span, hmem, hword⟩
    obtain ⟨i, line, hline, hopens, hcarries, hread⟩ := mem_all_iff.1 hmem
    refine ⟨i, line, name.toList, hline, hopens, hcarries,
      exists_read_definition_iff.1 ⟨arguments, value, span, hread⟩, ?_⟩
    rw [String.ofList_toList, hword]
  · rintro ⟨i, line, name, hline, hopens, hcarries, hdefines, hword⟩
    rw [← String.toList_ofList (l := name)] at hdefines
    obtain ⟨arguments, value, span, hread⟩ := exists_read_definition_iff.2 hdefines
    refine ⟨_, arguments, value, span, ?_, hword⟩
    exact mem_all_iff.2 ⟨i, line, hline, hopens, hcarries, hread⟩

end Directive

end SqfCheck
