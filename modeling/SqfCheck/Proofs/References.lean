import SqfCheck.Proofs.Finishing
import SqfCheck.Proofs.Undefined

/-!
# Names that are looked up once

Every name that is read is looked up at most once, and once if nothing is wrong in the order of
tokens (`usages_of_read`). What is known of a variable after reading are some of the tokens of its
name, in their order, and of these the ones that a sign of assignment follows are its definitions
(`Variable.DrawnFrom`).

A step of reading writes down a use for the token it passes, or none (`Parse.exists_notes_step`).
So the uses of a row of steps, each with the token after it, are drawn from the tokens passed on
the way (`Parse.Notes`), and the records of a table are groups of them.
-/

namespace SqfCheck

open Parse

/-- The tokens, each with the token directly after it. -/
def Token.paired : List Token → List (Token × Option Token)
  | [] => []
  | t :: ts => (t, ts.head?) :: paired ts

theorem Token.map_fst_paired : ∀ ts : List Token, (paired ts).map Prod.fst = ts
  | [] => rfl
  | t :: ts => by rw [paired, List.map_cons, map_fst_paired ts]

/-- The uses are some of the tokens with the name of the variable, in their order, and the
definitions are those of the uses that a sign of assignment follows. -/
structure Variable.DrawnFrom (w : Variable) (tokens : List Token)
    (uses : List (Token × Option Token)) : Prop where
  sublist : uses.Sublist (Token.paired tokens)
  names : ∀ p ∈ uses, p.1.kind = .identifier ∧ p.1.name = w.name
  usages_eq : w.usages = uses.map Prod.fst
  definitions_eq : w.definitions = (uses.filter (·.2.any (·.kind = .assign))).map Prod.fst

/-! ## Entries about variables -/

namespace Entry

/-- Whether the entry is about a variable. -/
def isReference (e : Entry) : Bool :=
  e.diagnostic?.isNone

/-- The use of a variable by a token, given with the one after it. -/
def ofUse (p : Token × Option Token) : Entry :=
  .usage p.1 (p.2.any (·.kind = .assign))

/-- What diagnostics say nothing about can be read off the entries about variables. -/
theorem filterMap_isReference {α : Type} {f : Entry → Option α} (hf : ∀ d, f (.diagnostic d) = none)
    (es : List Entry) : (es.filter isReference).filterMap f = es.filterMap f := by
  rw [List.filterMap_filter]
  refine List.filterMap_congr fun e _ => ?_
  cases e <;> simp [isReference, diagnostic?, hf]

theorem filterMap_usageOf?_ofUse (uses : List (Token × Option Token)) (name : String) :
    (uses.map ofUse).filterMap (usageOf? name) =
      (uses.filter (·.1.name = name)).map Prod.fst := by
  rw [List.filterMap_map, ← List.filterMap_eq_filter, List.map_filterMap]
  refine List.filterMap_congr fun p _ => ?_
  by_cases hn : p.1.name = name <;> simp [ofUse, usageOf?, Option.guard, hn]

theorem filterMap_definitionOf?_ofUse (uses : List (Token × Option Token)) (name : String) :
    (uses.map ofUse).filterMap (definitionOf? name) =
      ((uses.filter (·.1.name = name)).filter (·.2.any (·.kind = .assign))).map Prod.fst := by
  rw [List.filter_filter, List.filterMap_map, ← List.filterMap_eq_filter, List.map_filterMap]
  refine List.filterMap_congr fun p _ => ?_
  cases ha : p.2.any (·.kind = .assign) <;> by_cases hn : p.1.name = name <;>
    simp [ofUse, definitionOf?, Option.guard, hn, ha]

end Entry

/-! ## Uses along a run -/

namespace Parse

variable {v : Vocabulary} {strict : Bool} {s t u : ParseState}
  {uses more : List (Token × Option Token)}

/-- On the way from `s` to `t` the uses were written down, which are some of the tokens passed,
in their order. -/
structure Notes (v : Vocabulary) (s t : ParseState) (uses : List (Token × Option Token)) :
    Prop where
  sublist : (uses ++ Token.paired t.cursor.tokens).Sublist (Token.paired s.cursor.tokens)
  entries_eq : t.journal.entries.toList.filter Entry.isReference =
    s.journal.entries.toList.filter Entry.isReference ++ uses.map Entry.ofUse
  plain : ∀ p ∈ uses, p.1.kind = .identifier ∧ v.classify p.1.name = .plain

theorem Notes.append (h : Notes v s t uses) (h' : Notes v t u more) :
    Notes v s u (uses ++ more) where
  sublist := by
    rw [List.append_assoc]
    exact (h'.sublist.append_left uses).trans h.sublist
  entries_eq := by rw [h'.entries_eq, h.entries_eq, List.map_append, List.append_assoc]
  plain p hp := (List.mem_append.1 hp).elim (h.plain p) (h'.plain p)

theorem sublist_paired_advance (c : Cursor) :
    (Token.paired c.advance.tokens).Sublist (Token.paired c.tokens) := by
  rcases c with ⟨c, _ | ⟨d, rest⟩⟩
  · exact List.Sublist.refl _
  · exact List.sublist_cons_self _ _

/-- A step writes down one use, of the token it passes, or none. -/
theorem exists_notes_step (hs : EndsOnce s.cursor.tokens) (h : Step v strict s t) :
    ∃ uses, Notes v s t uses := by
  cases h with
  | pass =>
    exact ⟨[], sublist_paired_advance _, by simp, by simp⟩
  | repair expected =>
    exact ⟨[], sublist_paired_advance _, by simp [Entry.isReference, Entry.diagnostic?], by simp⟩
  | abort expected =>
    exact ⟨[], .refl _, by simp [Journal.abort, Entry.isReference, Entry.diagnostic?], by simp⟩
  | name hk =>
    obtain ⟨next, rest, hrest⟩ := List.exists_cons_of_ne_nil
      (mt hs.rest_eq_nil_iff.2 (by simp [hk]))
    have hadvance : s.cursor.advance = ⟨next, rest⟩ := by rw [Cursor.advance, hrest]
    have hpaired : Token.paired s.cursor.tokens =
        (s.cursor.current, some next) :: Token.paired s.cursor.advance.tokens := by
      rw [hadvance, Cursor.tokens, hrest]
      rfl
    by_cases hplain : v.classify s.cursor.current.name = .plain
    · refine ⟨[(s.cursor.current, some next)], ?_, ?_, by simpa using ⟨hk, hplain⟩⟩
      · rw [hpaired]
        exact List.Sublist.refl _
      · rw [journal_resolve, Journal.toList_entries_writeAll, List.filter_append, hadvance]
        simp [noted, hplain, Entry.isReference, Entry.diagnostic?, Entry.ofUse]
    · refine ⟨[], sublist_paired_advance _, ?_, by simp⟩
      rw [journal_resolve, Journal.toList_entries_writeAll, List.filter_append]
      simp [noted, hplain]

/-- The uses that are written down on the way are drawn from the tokens passed. -/
theorem exists_notes_steps (hs : EndsOnce s.cursor.tokens) (h : Steps v strict s t) :
    ∃ uses, Notes v s t uses := by
  induction h with
  | refl => exact ⟨[], .refl _, by simp, by simp⟩
  | tail hu hstep ih =>
    obtain ⟨uses, huses⟩ := ih
    obtain ⟨more, hmore⟩ := exists_notes_step (Steps.endsOnce hu hs) hstep
    exact ⟨uses ++ more, huses.append hmore⟩

end Parse

/-! ## Records -/

/-- The first of each group of equal names stand in the order of the list. -/
theorem exists_firsts {α : Type} (f : α → String) (l : List α) :
    ∃ firsts : List α, firsts.Sublist l ∧
      (l.map f).eraseDups.map (fun n => (l.filter (f · = n)).head?) = firsts.map some := by
  induction l using List.reverseRecOn with
  | nil => exact ⟨[], .refl _, rfl⟩
  | append_singleton l a ih =>
    obtain ⟨firsts, hsub, hfirsts⟩ := ih
    have hkeep : (l.map f).eraseDups.map (fun n => ((l ++ [a]).filter (f · = n)).head?) =
        firsts.map some := by
      rw [← hfirsts]
      refine List.map_congr_left fun n hn => ?_
      obtain ⟨b, hb, rfl⟩ := List.mem_map.1 (List.mem_eraseDups.1 hn)
      have hne : l.filter (f · = f b) ≠ [] :=
        List.ne_nil_of_mem (List.mem_filter.2 ⟨hb, by simp⟩)
      rw [List.filter_append, List.head?_append_of_ne_nil _ hne]
    rw [List.map_append, List.map_singleton, eraseDups_append_singleton]
    by_cases ha : f a ∈ l.map f
    · rw [if_pos ha]
      exact ⟨firsts, hsub.trans (List.sublist_append_left _ _), hkeep⟩
    · have hnone : l.filter (f · = f a) = [] := by
        refine List.filter_eq_nil_iff.2 fun b hb hfb => ha ?_
        exact List.mem_map.2 ⟨b, hb, by simpa using hfb⟩
      rw [if_neg ha, List.map_append, hkeep]
      refine ⟨firsts ++ [a], hsub.append (.refl _), ?_⟩
      rw [List.map_append, List.map_singleton, List.map_singleton, List.filter_append, hnone,
        List.nil_append, List.filter_cons_of_pos (by simp)]
      rfl

/-- What is found under a name are the uses of that name. -/
theorem Journal.usages_find? (j : Journal) (name : String) :
    ((j.table.find? name).map Variable.usages).getD [] =
      (j.entries.toList.filterMap Entry.usage?).filter (·.name = foldCase name) := by
  rw [table_eq_foldl, VariableTable.find?_foldl, ← Entry.filterMap_usageOf?]
  split_ifs with hn
  · rfl
  · exact (congrArg Variable.usages (Variable.ofEntries_of_not_mem hn)).symm

section

variable {v : Vocabulary} {s : ParseState} {uses : List (Token × Option Token)}

/-- The records after a run from the start stand for the names of its uses. -/
theorem Parse.Notes.records_eq {start : Cursor} (h : Notes v ⟨start, {}⟩ s uses) :
    s.journal.table.records = (uses.map (·.1.name)).eraseDups.map fun name =>
      let defining := (uses.filter (·.1.name = name)).filter (·.2.any (·.kind = .assign))
      ⟨name, (uses.filter (·.1.name = name)).map Prod.fst, defining.map Prod.fst,
        (defining.map Prod.fst).map Token.comment⟩ := by
  have hentries : s.journal.entries.toList.filter Entry.isReference = uses.map Entry.ofUse := by
    simpa using h.entries_eq
  have hnames : (uses.map Entry.ofUse).filterMap Entry.name? = uses.map (·.1.name) := by
    rw [List.filterMap_map]
    exact congrFun List.filterMap_eq_map uses
  rw [Journal.records_table, ← Entry.filterMap_isReference (fun _ => rfl), hentries, hnames]
  refine List.map_congr_left fun name _ => ?_
  rw [Variable.ofEntries, ← Entry.filterMap_isReference (f := Entry.usageOf? name) (fun _ => rfl),
    ← Entry.filterMap_isReference (f := Entry.definitionOf? name) (fun _ => rfl), hentries,
    Entry.filterMap_usageOf?_ofUse, Entry.filterMap_definitionOf?_ofUse]

end

/-- Names are looked up at most once, and once if nothing is wrong in the order of tokens. No two
records are of one name, no record is of a command, a macro or a name of the engine, and the
records stand in the order of their first uses. The uses in a record are tokens of its name in
their order, none of them twice, and its definitions are the uses directly before a sign of
assignment. If nothing is wrong, the uses of a variable are all tokens of its name outside the
argument lists of macros. -/
theorem usages_of_read (v : Vocabulary) (strict : Bool) (source : String) :
    let tokens := Token.scan source
    let j := (Script.read v strict tokens {}).2
    (j.table.records.map Variable.name).Nodup ∧
    (∀ w ∈ j.table.records, (∃ uses, w.DrawnFrom tokens uses) ∧
      (w.usages.map Token.span).Nodup ∧ v.catalogue.isCommand w.name = false ∧
      v.ledger.contains w.name = false ∧ w.name ∉ magicNames) ∧
    (∃ firsts : List Token, firsts.Sublist tokens ∧
      j.table.records.map (·.usages.head?) = firsts.map some) ∧
    ((∀ d ∈ j.diagnostics, d.kind ≠ .syntaxError) → ∀ name : String,
      v.catalogue.isCommand (foldCase name) = false →
      v.ledger.contains (foldCase name) = false → foldCase name ∉ magicNames →
      ((j.table.find? name).map Variable.usages).getD [] =
        ((v.outside none tokens).map Prod.fst).filter fun t =>
          t.kind = .identifier && t.name = foldCase name) := by
  intro tokens j
  obtain ⟨s, hsteps, hj⟩ := Script.exists_steps_read v strict tokens {}
  obtain ⟨uses, hnotes⟩ := exists_notes_steps (Cursor.endsOnce_ofTokens_scan source) hsteps
  replace hj : j = s.journal := hj
  have hsub : uses.Sublist (Token.paired tokens) := by
    have h := (List.sublist_append_left uses _).trans hnotes.sublist
    rwa [Cursor.tokens_ofTokens_scan] at h
  have hfst : (uses.map Prod.fst).Sublist tokens := by
    simpa only [Token.map_fst_paired] using hsub.map Prod.fst
  have hrecords := hnotes.records_eq
  rw [← hj] at hrecords
  refine ⟨?_, fun w hw => ?_, ?_, fun hclean name hcommand hmacro hmagic => ?_⟩
  · rw [hrecords, List.map_map]
    simpa [Function.comp_def] using nodup_eraseDups (uses.map (·.1.name))
  · rw [hrecords] at hw
    obtain ⟨name, hname, rfl⟩ := List.mem_map.1 hw
    obtain ⟨p, hp, rfl⟩ := List.mem_map.1 (List.mem_eraseDups.1 hname)
    obtain ⟨hcommand, hrest⟩ := v.classify_eq_plain.1 (hnotes.plain p hp).2
    have hgroup : (uses.filter (·.1.name = p.1.name)).Sublist uses := List.filter_sublist
    refine ⟨⟨_, hgroup.trans hsub, fun q hq => ?_, rfl, rfl⟩,
      ((hgroup.map _).trans hfst |>.map _).nodup (Token.nodup_span_scan source),
      by simp [Catalogue.isCommand, hcommand], hrest⟩
    obtain ⟨hq, hn⟩ := List.mem_filter.1 hq
    exact ⟨(hnotes.plain q hq).1, of_decide_eq_true hn⟩
  · obtain ⟨firsts, hfirsts, heq⟩ := exists_firsts (fun p : Token × Option Token => p.1.name) uses
    refine ⟨firsts.map Prod.fst, (hfirsts.map _).trans hfst, ?_⟩
    rw [hrecords, List.map_map, List.map_map]
    have := congrArg (List.map (Option.map Prod.fst)) heq
    simpa [Function.comp_def] using this
  · have hnone : j.diagnostics = [] := List.eq_nil_iff_forall_not_mem.2 fun d hd =>
      hclean d hd (Script.mem_diagnostics_read hd).1
    rw [j.usages_find? name, entries_of_read hnone, v.filterMap_usage?_noting,
      List.filter_filter]
    refine List.filter_congr fun t _ => ?_
    by_cases hn : t.name = foldCase name
    · simp [Vocabulary.isVariable, hn, hcommand, hmacro, hmagic]
    · simp [hn]

/-- Of the three tokens of one name the second stands in the argument list of a macro, so the
variable is used by the other two. -/
theorem usages_of_read_macro :
    let v : Vocabulary := ⟨{}, { macros := [⟨"FOO", none, []⟩] }⟩
    let tokens := Token.scan "a = foo(a, b) + A; _x = b;"
    let j := (Script.read v false tokens {}).2
    let uses := ((v.outside none tokens).map Prod.fst).filter fun t =>
      t.kind = .identifier && t.name = foldCase "A"
    (∀ d ∈ j.diagnostics, d.kind ≠ .syntaxError) ∧ uses.map Token.text = ["a", "A"] ∧
      ((j.table.find? "A").map Variable.usages).getD [] = uses := by
  intro v tokens j uses
  have hclean : ∀ d ∈ j.diagnostics, d.kind ≠ .syntaxError := by
    decide +kernel
  have huses : uses.map Token.text = ["a", "A"] := by
    decide +kernel
  obtain ⟨-, -, -, hall⟩ := usages_of_read v false "a = foo(a, b) + A; _x = b;"
  refine ⟨hclean, huses, hall hclean "A" (by decide) (by decide) (by decide)⟩

end SqfCheck
