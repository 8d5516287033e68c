import SqfCheck.Proofs.Finishing
import SqfCheck.Proofs.Undefined

/-!
# Errors in order

The errors of a run that repairs failures come in three parts, one of each stage, and those about
the order of tokens stand in the order of the tokens they blame (`errors_lint`). A failure is
repaired at the token it blames, and that token is dropped, so no token but the end is blamed
twice.

`Repairs` lists the sites of the repairs along a run. Each site is behind the token dropped at
the one before (`Repairs.ordered`), so of the tokens under the cursor all but the ends are some of
the tokens of the text, in their order (`exists_blamed`).
-/

namespace SqfCheck

open Grammar Parse

/-! ## Sites of repairs -/

namespace Parse

/-- Where a failure is repaired. -/
structure Site where
  /-- The cursor before the repair. -/
  cursor : Cursor
  /-- What should have been there. -/
  expected : String

/-- The failure that is written down at the site. -/
def Site.failure (p : Site) : Diagnostic :=
  p.cursor.current.unexpected p.expected

/-- Reading leads from `s` to the state at the end with repairs at the sites. A repair drops the
token under the cursor. All else passes tokens and writes no failure down. -/
inductive Repairs (v : Vocabulary) (s : ParseState) : List Site → ParseState → Prop where
  | refl : Repairs v s [] s
  | pass {sites : List Site} {t : ParseState} (h : Repairs v s sites t) :
    Repairs v s sites { t with cursor := t.cursor.advance }
  | name {sites : List Site} {t : ParseState} (h : Repairs v s sites t)
    (hk : t.cursor.current.kind = .identifier) :
    Repairs v s sites ⟨t.cursor.advance,
      (t.journal.resolve v t.cursor.current t.cursor.advance.current).2⟩
  | repair {sites : List Site} {t : ParseState} (h : Repairs v s sites t) (r : Repair)
    (expected : String) (hr : r.failure = t.cursor.current.unexpected expected) :
    Repairs v s (sites ++ [⟨t.cursor, expected⟩]) ⟨t.cursor.advance, t.journal.repaired r⟩

variable {v : Vocabulary} {s t : ParseState} {sites : List Site}

theorem exists_repairs (h : Steps v false s t) : ∃ sites, Repairs v s sites t := by
  induction h with
  | refl => exact ⟨[], .refl⟩
  | tail _ hstep ih =>
    obtain ⟨sites, ih⟩ := ih
    cases hstep with
    | pass => exact ⟨sites, ih.pass⟩
    | name hk => exact ⟨sites, ih.name hk⟩
    | repair r expected hr => exact ⟨_, ih.repair r expected hr⟩
    | abort _ hs => cases hs

/-- The failures of a run are those at the sites of its repairs. -/
theorem Repairs.diagnostics_eq (h : Repairs v s sites t) :
    t.journal.diagnostics = s.journal.diagnostics ++ sites.map Site.failure := by
  induction h with
  | refl => simp
  | pass _ ih => exact ih
  | name _ hk ih => rw [diagnostics_resolve, ih]
  | repair _ r expected hr ih =>
    rw [Journal.diagnostics_repaired, ih, hr, List.map_append, List.append_assoc]
    rfl

/-- The sites lie among the tokens, each behind the token dropped at any site before it, and
the cursor `last` is behind all of these. -/
structure Ordered (tokens : List Token) (sites : List Site) (last : Cursor) : Prop where
  within : ∀ p ∈ sites, p.cursor.tokens <:+ tokens
  behind : sites.Pairwise fun p q => q.cursor.tokens <:+ p.cursor.advance.tokens
  reached : last.tokens <:+ tokens
  dropped : ∀ p ∈ sites, last.tokens <:+ p.cursor.advance.tokens

namespace Ordered

variable {tokens : List Token} {last : Cursor}

theorem advance (h : Ordered tokens sites last) : Ordered tokens sites last.advance :=
  have hlast := isSuffix_tokens_advance last
  ⟨h.within, h.behind, hlast.trans h.reached, fun p hp => hlast.trans (h.dropped p hp)⟩

theorem append (h : Ordered tokens sites last) (expected : String) :
    Ordered tokens (sites ++ [⟨last, expected⟩]) last.advance where
  within p hp := by
    rcases List.mem_append.1 hp with hp | hp
    · exact h.within p hp
    · obtain rfl := List.mem_singleton.1 hp
      exact h.reached
  behind := by
    refine List.pairwise_append.2 ⟨h.behind, List.pairwise_singleton _ _, fun p hp q hq => ?_⟩
    obtain rfl := List.mem_singleton.1 hq
    exact h.dropped p hp
  reached := h.advance.reached
  dropped p hp := by
    rcases List.mem_append.1 hp with hp | hp
    · exact h.advance.dropped p hp
    · obtain rfl := List.mem_singleton.1 hp
      exact List.suffix_refl _

end Ordered

/-- A run repairs each failure behind the tokens that were dropped before. -/
theorem Repairs.ordered (h : Repairs v s sites t) :
    Ordered s.cursor.tokens sites t.cursor := by
  induction h with
  | refl => exact ⟨by simp, .nil, List.suffix_refl _, by simp⟩
  | pass _ ih => exact ih.advance
  | name _ _ ih => exact ih.advance
  | repair _ _ expected _ ih => exact ih.append expected

/-- Among tokens with an end, the tokens under the cursor at the sites are some of those before
the end, in their order, and after them only the end. -/
theorem exists_blamed {e : Token} : ∀ {sites : List Site} {body : List Token},
    (∀ p ∈ sites, p.cursor.tokens <:+ body ++ [e]) →
    sites.Pairwise (fun p q => q.cursor.tokens <:+ p.cursor.advance.tokens) →
      ∃ (blamed : List Token) (k : Nat), blamed.Sublist body ∧
        sites.map (·.cursor.current) = blamed ++ List.replicate k e
  | [], _, _, _ => ⟨[], 0, List.nil_sublist _, rfl⟩
  | ⟨⟨c, []⟩, expected⟩ :: sites, body, hwithin, hpairwise => by
    -- a cursor on the end stays there
    obtain ⟨front, hfront⟩ := hwithin _ List.mem_cons_self
    obtain rfl : c = e := by simpa [Cursor.tokens] using (List.append_inj' hfront rfl).2
    have hall : ∀ q ∈ sites, q.cursor.current = c := by
      intro q hq
      have hsuffix : q.cursor.current :: q.cursor.rest <:+ [c] :=
        (List.pairwise_cons.1 hpairwise).1 q hq
      exact List.mem_singleton.1 (hsuffix.subset List.mem_cons_self)
    refine ⟨[], sites.length + 1, List.nil_sublist _, ?_⟩
    rw [List.nil_append, List.replicate_succ, List.map_cons, List.map_congr_left hall,
      List.map_const']
  | ⟨⟨c, d :: rest⟩, expected⟩ :: sites, body, hwithin, hpairwise => by
    obtain ⟨front, hfront⟩ := hwithin _ List.mem_cons_self
    obtain ⟨later, last, hlater⟩ : ∃ later last, d :: rest = later ++ [last] :=
      ⟨_, _, (List.dropLast_append_getLast (List.cons_ne_nil d rest)).symm⟩
    have hbody : front ++ c :: later = body ∧ [last] = [e] := by
      refine List.append_inj' ?_ rfl
      rw [← hfront, Cursor.tokens, hlater, List.append_assoc, List.cons_append]
    obtain rfl : last = e := by simpa using hbody.2
    obtain ⟨hbehind, hpairwise⟩ := List.pairwise_cons.1 hpairwise
    have hwithin : ∀ q ∈ sites, q.cursor.tokens <:+ later ++ [last] := by
      intro q hq
      rw [← hlater]
      exact hbehind q hq
    obtain ⟨blamed, k, hblamed, hcurrent⟩ := exists_blamed hwithin hpairwise
    refine ⟨c :: blamed, k, ?_, by rw [List.map_cons, hcurrent, List.cons_append]⟩
    rw [← hbody.1]
    exact (hblamed.cons_cons c).trans (List.sublist_append_right front (c :: later))

end Parse

section

variable (v : Vocabulary) (source : String)

/-- A run that repairs failures reads a text, with repairs further and further in it. -/
theorem Script.exists_repairs_rule :
    let tokens := Token.scan source
    let start : ParseState := ⟨.ofTokens tokens, {}⟩
    ∃ script last sites, Script.rule v false (Script.budget tokens) start = .ok script last ∧
      Script.read v false tokens {} = (.ok script, last.journal) ∧
      Repairs v start sites last ∧ Ordered tokens sites last.cursor := by
  intro tokens start
  have hstart : EndsOnce start.cursor.tokens := Cursor.endsOnce_ofTokens_scan source
  obtain ⟨script, last, hrule, hread, -⟩ := Script.exists_rule_repair v (j := {}) hstart rfl
  have hsteps := Script.steps_rule v false (Script.budget tokens) start
  rw [hrule] at hsteps
  obtain ⟨sites, hsites⟩ := exists_repairs hsteps
  have hordered := hsites.ordered
  rw [Cursor.tokens_ofTokens_scan] at hordered
  exact ⟨script, last, sites, hrule, hread, hsites, hordered⟩

variable {v source}

/-- In a text, the tokens blamed before the end are further and further in it. -/
theorem Parse.Ordered.exists_blamed_scan {sites : List Site} {last : Cursor}
    (h : Ordered (Token.scan source) sites last) :
    ∃ (body blamed : List Token) (e : Token) (k : Nat), Token.scan source = body ++ [e] ∧
      e.kind = .endOfInput ∧ blamed.Sublist body ∧
      sites.map (·.cursor.current) = blamed ++ List.replicate k e ∧
      (blamed ++ [e]).Pairwise fun t u => t.span.first.Before u.span.first := by
  obtain ⟨body, e, hscan, he, -⟩ := Token.scan_eq_append_ending source
  have hwithin := h.within
  have hpairwise := Token.scan_pairwise source
  rw [hscan] at hwithin hpairwise
  obtain ⟨blamed, k, hblamed, hcurrent⟩ := exists_blamed hwithin h.behind
  exact ⟨body, blamed, e, k, hscan, he, hblamed, hcurrent,
    hpairwise.sublist (hblamed.append (.refl _))⟩

end

/-! ## Stages -/

section

variable {catalogue : Catalogue} {options : Options} {ledger : Ledger}

theorem isError_of_mem_surveyFindings {table : VariableTable} {d : Diagnostic}
    (hd : d ∈ surveyFindings options ledger table) : d.isError = options.warningAsError := by
  unfold surveyFindings at hd
  split_ifs at hd with hskip hwarn
  · simp at hd
  · obtain ⟨w, -, rfl⟩ := List.mem_map.1 hd
    rw [hwarn]
    rfl
  · obtain ⟨w, -, hd⟩ := List.mem_flatMap.1 hd
    obtain ⟨t, -, rfl⟩ := List.mem_map.1 hd
    rw [eq_false_of_ne_true hwarn]
    rfl

/-- What a run has to say comes in three parts : what is wrong in the order of tokens, what is
wrong with operands, and variables without a definition. -/
theorem diagnostics_lintTokens (files : Files) {strict : Bool} {tokens : List Token}
    {script : Script} {j : Journal} (hs : options.stopOnError = strict)
    (hread : Script.read ⟨catalogue, ledger⟩ strict tokens {} = (.ok script, j)) :
    ∃ operands undefined : List Diagnostic,
      (lintTokens catalogue options files ledger tokens).diagnostics =
        j.diagnostics ++ operands ++ undefined ∧
      (∀ d ∈ operands, d.isError = true ∧
        (d.kind = .typeMismatch ∨ d.kind = .arityMismatch ∨ d.kind = .missingFile)) ∧
      ∀ d ∈ undefined, d.isError = options.warningAsError ∧ d.kind = .undefinedLocal := by
  obtain ⟨walked, hwalked, hentries⟩ := toList_entries_lintTokens files hs hread
  refine ⟨(entriesOfStatements (.ofOptions catalogue options files) script.statements).filterMap
      Entry.diagnostic?, surveyFindings options ledger walked.table, ?_, fun d hd => ?_,
    fun d hd => ⟨isError_of_mem_surveyFindings hd, kind_of_mem_surveyFindings hd⟩⟩
  · rw [Journal.diagnostics_eq_filterMap, hentries, hwalked, List.filterMap_append,
      List.filterMap_append, Entry.filterMap_diagnostic?_map, Journal.diagnostics_eq_filterMap]
  · obtain ⟨e, he, hed⟩ := List.mem_filterMap.1 hd
    have hfinding := isFinding_entriesOfStatements _ _ e he
    cases e with
    | diagnostic d' =>
      obtain rfl := Option.some.inj hed
      exact hfinding
    | _ => cases hed

/-- What reading finds are the first errors of the run, and there are no warnings but those about
variables. -/
theorem errors_lintTokens (files : Files) {strict : Bool} {tokens : List Token}
    {script : Script} {j : Journal} (hs : options.stopOnError = strict)
    (hread : Script.read ⟨catalogue, ledger⟩ strict tokens {} = (.ok script, j)) :
    ∃ operands undefined : List Diagnostic,
      (lintTokens catalogue options files ledger tokens).errors =
        j.diagnostics ++ operands ++ undefined ∧
      (∀ d ∈ operands,
        d.kind = .typeMismatch ∨ d.kind = .arityMismatch ∨ d.kind = .missingFile) ∧
      (∀ d ∈ undefined, d.kind = .undefinedLocal) ∧
      (options.warningAsError = false → undefined = []) ∧
      ∀ d ∈ (lintTokens catalogue options files ledger tokens).warnings,
        d.kind = .undefinedLocal := by
  obtain ⟨operands, undefined, hall, hoperands, hundefined⟩ :=
    diagnostics_lintTokens files hs hread
  have hj : ∀ d ∈ j.diagnostics, d.isError = true := by
    intro d hd
    have hmem : d ∈ (Script.read ⟨catalogue, ledger⟩ strict tokens {}).2.diagnostics := by
      rwa [hread]
    exact (Script.mem_diagnostics_read hmem).2
  refine ⟨operands, undefined.filter Diagnostic.isError, ?_, fun d hd => (hoperands d hd).2,
    fun d hd => (hundefined d (List.mem_filter.1 hd).1).2, fun hwarn => ?_, fun d hd => ?_⟩
  · rw [Journal.errors, hall, List.filter_append, List.filter_append, List.filter_eq_self.2 hj,
      List.filter_eq_self.2 fun d hd => (hoperands d hd).1]
  · refine List.filter_eq_nil_iff.2 fun d hd => ?_
    simp [(hundefined d hd).1, hwarn]
  · obtain ⟨hd, hwarning⟩ := List.mem_filter.1 hd
    rw [hall, List.mem_append, List.mem_append] at hd
    rcases hd with (hd | hd) | hd
    · simp [hj d hd] at hwarning
    · simp [(hoperands d hd).1] at hwarning
    · exact (hundefined d hd).2

end

/-- The errors of a run that repairs failures come in order. First are the errors about the order
of tokens, then those about operands, and last the variables without a definition, if warnings
count as errors. All warnings are about variables. A failure is repaired with the cursor on the
token that it blames : the exit for other failures is not taken. The sites of the repairs are
each behind the token dropped at the one before, so that the tokens blamed are further and further
in the text, up to the end, which alone may be blamed again. -/
theorem errors_lint (catalogue : Catalogue) (options : Options) (files : Files) (name : Path)
    (source : String) (hs : options.stopOnError = false) :
    let prepared := Prepared.ofSource files options.rootPath name source
    let v : Vocabulary := ⟨catalogue, prepared.ledger⟩
    let tokens := Token.scan prepared.text
    let start : ParseState := ⟨.ofTokens tokens, {}⟩
    let report := lint catalogue options files name source
    ∃ (sites : List Site) (operands undefined : List Diagnostic),
      report.errors = sites.map Site.failure ++ operands ++ undefined ∧
      (∀ p ∈ sites, p.failure.kind = .syntaxError ∧
        p.failure.span = p.cursor.current.span) ∧
      (∀ d ∈ operands,
        d.kind = .typeMismatch ∨ d.kind = .arityMismatch ∨ d.kind = .missingFile) ∧
      (∀ d ∈ undefined, d.kind = .undefinedLocal) ∧
      (options.warningAsError = false → undefined = []) ∧
      (∀ d ∈ report.warnings, d.kind = .undefinedLocal) ∧
      (∀ (x : Exits) (n : Nat), Script.budget tokens ≤ n →
        x.script v false n start = Script.rule v false (Script.budget tokens) start) ∧
      (∃ script last, Script.rule v false (Script.budget tokens) start = .ok script last ∧
        Repairs v start sites last ∧ Ordered tokens sites last.cursor) ∧
      ∃ (body blamed : List Token) (e : Token) (k : Nat), tokens = body ++ [e] ∧
        e.kind = .endOfInput ∧ blamed.Sublist body ∧
        sites.map (·.cursor.current) = blamed ++ List.replicate k e ∧
        (blamed ++ [e]).Pairwise fun t u => t.span.first.Before u.span.first := by
  intro prepared v tokens start report
  obtain ⟨script, last, sites, hrule, hread, hsites, hordered⟩ :=
    Script.exists_repairs_rule v prepared.text
  obtain ⟨operands, undefined, herrors, hoperands, hundefined, hnone, hwarnings⟩ :=
    errors_lintTokens files hs hread
  have hfailures : last.journal.diagnostics = sites.map Site.failure := hsites.diagnostics_eq
  rw [hfailures] at herrors
  exact ⟨sites, operands, undefined, herrors, fun p _ => ⟨rfl, rfl⟩, hoperands, hundefined,
    hnone, hwarnings, fun x n hn => x.script_budget v false {} (Cursor.endsOnce_ofTokens_scan _) hn,
    ⟨script, last, hrule, hsites, hordered⟩, hordered.exists_blamed_scan⟩

/-- A parenthesis that is not closed, an operand of the wrong type and a variable without a
definition : two errors are at the end of the text, and the other two in the order of the stages,
not of the text. -/
theorem errors_lint_unclosed :
    let catalogue := Catalogue.ofLines [⟨"sin", .unary, [], [.number]⟩]
    let options : Options := { warningAsError := true }
    let source := "_a; sin []; [(1"
    let report := lint catalogue options (.memory []) ⟨"init.sqf"⟩ source
    options.stopOnError = false ∧
      report.errors.map Diagnostic.kind =
        [.syntaxError, .syntaxError, .typeMismatch, .undefinedLocal] ∧
      ∃ (sites : List Site) (operands undefined : List Diagnostic),
        report.errors = sites.map Site.failure ++ operands ++ undefined ∧
        (∀ d ∈ operands,
          d.kind = .typeMismatch ∨ d.kind = .arityMismatch ∨ d.kind = .missingFile) ∧
        ∀ d ∈ undefined, d.kind = .undefinedLocal := by
  intro catalogue options source report
  have hkinds : report.errors.map Diagnostic.kind =
      [.syntaxError, .syntaxError, .typeMismatch, .undefinedLocal] := by
    decide +kernel
  obtain ⟨sites, operands, undefined, herrors, -, hoperands, hundefined, -⟩ :=
    errors_lint catalogue options (.memory []) ⟨"init.sqf"⟩ source rfl
  exact ⟨rfl, hkinds, sites, operands, undefined, herrors, hoperands, hundefined⟩

end SqfCheck
