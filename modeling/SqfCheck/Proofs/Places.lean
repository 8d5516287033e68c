import Mathlib.Data.List.DropRight
import Mathlib.Order.Interval.Set.Defs
import Mathlib.Order.Monotone.Basic
import SqfCheck.Proofs.Nesting

/-!
# Places of characters

The span of a token is the span of its text. Its first position is the place of the first character
of the token and its last position that of the last one, where the place of a character is counted
in the script : newlines for the line, characters since the last newline for the column
(`Position.ofIndex`). The same holds of comments, and the end is just past the last character
(`Token.places_scan`).

Places are in the order of the characters (`Position.strictMonoOn_ofIndex`), so a span can be turned
back into text. The characters of the script that are placed within the span of a token are the text
of the token (`Span.cut_of_delimits`).
-/

namespace SqfCheck

/-! ## Counting lines and columns -/

namespace Position

/-- The place of the character with index `i` in the text : the newlines before it and the
characters since the last of them are counted, both from one. -/
def ofIndex (cs : List Char) (i : Nat) : Position :=
  ⟨1 + (cs.take i).count '\n', 1 + ((cs.take i).rtakeWhile (· ≠ '\n')).length⟩

theorem start_after (cs : List Char) :
    start.after cs = ⟨1 + cs.count '\n', 1 + (cs.rtakeWhile (· ≠ '\n')).length⟩ := by
  induction cs using List.reverseRecOn with
  | nil => rfl
  | append_singleton cs c ih =>
    rw [after_append, ih]
    show step _ c = _
    by_cases hc : c = '\n'
    · subst hc
      rw [step, if_pos rfl, List.rtakeWhile_concat_neg _ _ _ (by simp), List.count_append]
      rfl
    · rw [step, if_neg hc, List.rtakeWhile_concat_pos _ _ _ (by simpa using hc), List.count_append,
        List.length_append]
      simp [hc, Nat.add_assoc]

/-- Walking over the text before a character leads to its place. -/
theorem ofIndex_eq (cs : List Char) (i : Nat) : ofIndex cs i = start.after (cs.take i) :=
  (start_after _).symm

/-- A character that comes later has a later place. -/
theorem strictMonoOn_ofIndex (cs : List Char) : StrictMonoOn (ofIndex cs) (Set.Iic cs.length) := by
  intro i _ j hj hij
  have hj : j ≤ cs.length := hj
  have htake : cs.take j = cs.take i ++ (cs.take j).drop i := by
    nth_rewrite 1 [← List.take_append_drop i (cs.take j)]
    rw [List.take_take, min_eq_left hij.le]
  have hne : (cs.take j).drop i ≠ [] := by
    rw [← List.length_pos_iff, List.length_drop, List.length_take, min_eq_left hj]
    omega
  rw [ofIndex_eq, ofIndex_eq, htake, after_append, lt_iff_before]
  exact before_after _ hne

end Position

/-! ## Spans and their text -/

namespace Span

/-- The text stands in `source`, and the span runs from the place of its first character to the
place of its last one. -/
def Delimits (span : Span) (source text : List Char) : Prop :=
  text ≠ [] ∧ ∃ i, (source.drop i).take text.length = text ∧ span.first = .ofIndex source i ∧
    span.last = .ofIndex source (i + (text.length - 1))

/-- The characters of `source` that are placed within the span. -/
def cut (span : Span) (source : List Char) : List Char :=
  (source.zipIdx.filter fun c =>
    span.first ≤ .ofIndex source c.2 ∧ .ofIndex source c.2 ≤ span.last).map Prod.fst

/-- The span that a text gets where it is met is that of its characters. -/
theorem delimits_ofText (before after : List Char) {text : List Char} (htext : text ≠ []) :
    (ofText (Position.start.after before) text).Delimits (before ++ text ++ after) text := by
  have hlength := List.length_pos_iff.2 htext
  refine ⟨htext, before.length, ?_, ?_, ?_⟩
  · rw [List.append_assoc, List.drop_left, List.take_left]
  · rw [Position.ofIndex_eq, List.append_assoc, List.take_left]
    rfl
  · have hlast : (before ++ text ++ after).take (before.length + (text.length - 1)) =
        before ++ text.dropLast := by
      rw [List.append_assoc, List.take_length_add_append, List.take_append_of_le_length (by omega),
        List.dropLast_eq_take]
    rw [Position.ofIndex_eq, hlast, Position.after_append]
    rfl

/-- Of a text in three parts, the characters with the indices of the second part. -/
theorem map_fst_filter_zipIdx (before text after : List Char) :
    ((before ++ text ++ after).zipIdx.filter fun c =>
        before.length ≤ c.2 ∧ c.2 < before.length + text.length).map Prod.fst = text := by
  have hbefore : before.zipIdx.filter (fun c =>
      before.length ≤ c.2 ∧ c.2 < before.length + text.length) = [] := by
    rw [List.filter_eq_nil_iff]
    rintro ⟨c, i⟩ hc
    have hi := (List.mem_zipIdx hc).2.1
    simp only [decide_eq_true_eq]
    omega
  have htext : (text.zipIdx before.length).filter (fun c =>
      before.length ≤ c.2 ∧ c.2 < before.length + text.length) = text.zipIdx before.length := by
    rw [List.filter_eq_self]
    rintro ⟨c, i⟩ hc
    have hi := List.mem_zipIdx hc
    simpa using ⟨hi.1, hi.2.1⟩
  have hafter : (after.zipIdx (before.length + text.length)).filter (fun c =>
      before.length ≤ c.2 ∧ c.2 < before.length + text.length) = [] := by
    rw [List.filter_eq_nil_iff]
    rintro ⟨c, i⟩ hc
    have hi := (List.mem_zipIdx hc).1
    simp only [decide_eq_true_eq]
    omega
  rw [List.zipIdx_append, List.zipIdx_append, List.filter_append, List.filter_append,
    List.length_append, Nat.zero_add, Nat.zero_add, hbefore, htext, hafter, List.nil_append,
    List.append_nil, List.zipIdx_map_fst]

/-- A span that delimits a text cuts it out of the script. -/
theorem cut_of_delimits {span : Span} {source text : List Char} (h : span.Delimits source text) :
    span.cut source = text := by
  obtain ⟨hne, i, htext, hfirst, hlast⟩ := h
  have hpos := List.length_pos_iff.2 hne
  have hlength := congrArg List.length htext
  rw [List.length_take, List.length_drop] at hlength
  have hbefore : (source.take i).length = i := by
    rw [List.length_take]
    omega
  have hsource : source.take i ++ text ++ source.drop (i + text.length) = source := by
    rw [← List.drop_drop, List.append_assoc]
    nth_rewrite 1 [← htext]
    rw [List.take_append_drop, List.take_append_drop]
  have hplaces : ∀ c ∈ source.zipIdx,
      decide (span.first ≤ .ofIndex source c.2 ∧ .ofIndex source c.2 ≤ span.last) =
        decide ((source.take i).length ≤ c.2 ∧ c.2 < (source.take i).length + text.length) := by
    rintro ⟨c, j⟩ hc
    have hj := (List.mem_zipIdx hc).2.1
    have hmono := Position.strictMonoOn_ofIndex source
    have hin : ∀ {k}, k ≤ source.length → k ∈ Set.Iic source.length := id
    rw [decide_eq_decide, hfirst, hlast, hmono.le_iff_le (hin (by omega)) (hin (by omega)),
      hmono.le_iff_le (hin (by omega)) (hin (by omega)), hbefore]
    omega
  have hcut := map_fst_filter_zipIdx (source.take i) text (source.drop (i + text.length))
  rw [hsource] at hcut
  rw [cut, List.filter_congr hplaces, hcut]

end Span

/-! ## Tokens -/

/-- The comment is the text of one of the lexemes, and stands where this text stands if the first of
them stands at `p`. -/
def Comment.CutFrom (c : Comment) (p : Position) (ls : List Lexeme) : Prop :=
  ∃ before l after, ls = before ++ l :: after ∧ c.text = String.ofList l.text ∧
    c.span = .ofText (p.after (before.flatMap Lexeme.text)) l.text

theorem Comment.CutFrom.cons {c : Comment} {p : Position} {l : Lexeme} {ls : List Lexeme}
    (h : c.CutFrom (p.after l.text) ls) : c.CutFrom p (l :: ls) := by
  obtain ⟨before, m, after, rfl, htext, hspan⟩ := h
  refine ⟨l :: before, m, after, rfl, htext, ?_⟩
  rw [hspan, List.flatMap_cons, Position.after_append]

namespace Token

/-- The comment of a token is the text of one of the lexemes, or was there before them. -/
theorem comment_of_mem_place {t : Token} {c : Comment} :
    ∀ {ls : List Lexeme} {p : Position} {pending : Option Comment}, t ∈ place p pending ls →
      c ∈ t.comment → c ∈ pending ∨ c.CutFrom p ls
  | [], p, pending, h, hc => by
    obtain rfl := List.mem_singleton.1 h
    exact .inl hc
  | l :: ls, p, pending, h, hc => by
    unfold place at h
    split at h
    · exact (comment_of_mem_place h hc).imp_right .cons
    · rcases comment_of_mem_place h hc with hpending | hcut
      · cases pending with
        | none =>
          obtain rfl := Option.some.inj hpending
          exact .inr ⟨[], l, ls, rfl, rfl, rfl⟩
        | some d => exact .inl hpending
      · exact .inr hcut.cons
    · rcases List.mem_cons.1 h with rfl | h
      · exact .inl hc
      · exact .inr ((comment_of_mem_place h hc).resolve_left nofun).cons

/-- The last token stands just past the last of the lexemes. -/
theorem exists_place_ending : ∀ (p : Position) (pending : Option Comment) (ls : List Lexeme),
    ∃ body comment, place p pending ls =
      body ++ [ending (.point (p.after (ls.flatMap Lexeme.text))) comment]
  | p, pending, [] => ⟨[], pending, rfl⟩
  | p, pending, l :: ls => by
    rw [List.flatMap_cons, Position.after_append]
    unfold place
    split
    · exact exists_place_ending _ _ ls
    · exact exists_place_ending _ _ ls
    · obtain ⟨body, comment, hls⟩ := exists_place_ending (p.after l.text) none ls
      exact ⟨_ :: body, comment, by rw [hls]; rfl⟩

theorem delimits_of_mem_scan {source : String} {t : Token} (ht : t ∈ scan source)
    (hk : t.kind ≠ .endOfInput) : t.span.Delimits source.toList t.text.toList := by
  obtain ⟨before, after, hsource, hspan⟩ := foundIn_of_mem_scan ht hk
  obtain ⟨c, cs, htext, -⟩ := head_of_mem_scan ht hk
  rw [hsource, hspan]
  exact Span.delimits_ofText before after (by rw [htext]; exact List.cons_ne_nil c cs)

theorem delimits_of_mem_comment {source : String} {t : Token} {c : Comment} (ht : t ∈ scan source)
    (hc : c ∈ t.comment) : c.span.Delimits source.toList c.text.toList := by
  obtain ⟨before, l, after, hall, htext, hspan⟩ :=
    (comment_of_mem_place ht hc).resolve_left nofun
  have hsource := Lexeme.flatMap_text_all source.toList
  rw [hall, List.flatMap_append, List.flatMap_cons, ← List.append_assoc] at hsource
  have hne : l.text ≠ [] := Lexeme.text_ne_nil_of_mem_all source.toList l (by simp [hall])
  rw [← hsource, htext, hspan, String.toList_ofList]
  exact Span.delimits_ofText _ _ hne

/-- Positions are exact. Every token but the end, and every comment that a token has, stands in the
script with its first character at the first and its last character at the last position of its
span, as lines and columns are counted there. The end is at the position just past the last
character. Tokens begin before they end and end before the next one begins, and the characters that
are placed within the span of a token are its text. -/
theorem places_scan (source : String) : ∃ body e, scan source = body ++ [e] ∧
    (∀ t ∈ body, t.kind ≠ .endOfInput ∧ t.span.Delimits source.toList t.text.toList ∧
      t.span.cut source.toList = t.text.toList) ∧
    (e.kind = .endOfInput ∧ e.text = "" ∧
      e.span = .point (.ofIndex source.toList source.toList.length)) ∧
    (∀ t ∈ scan source, ∀ c ∈ t.comment, c.span.Delimits source.toList c.text.toList) ∧
    Ascending (scan source) := by
  obtain ⟨body, e, hscan, -, hbody⟩ := scan_eq_append_ending source
  obtain ⟨body', comment, hplace⟩ :=
    exists_place_ending .start none (Lexeme.all source.toList)
  obtain rfl : e = ending (.point (Position.start.after source.toList)) comment := by
    rw [Lexeme.flatMap_text_all, ← scan, hscan] at hplace
    exact List.singleton_inj.1 (List.append_inj' hplace rfl).2
  refine ⟨body, _, hscan, fun t ht => ?_, ⟨rfl, rfl, ?_⟩,
    fun t ht c hc => delimits_of_mem_comment ht hc, ascending_scan source⟩
  · have hdelimits := delimits_of_mem_scan (hscan ▸ List.mem_append_left _ ht) (hbody t ht)
    exact ⟨hbody t ht, hdelimits, Span.cut_of_delimits hdelimits⟩
  · rw [Position.ofIndex_eq, List.take_length]
    rfl

end Token

end SqfCheck
