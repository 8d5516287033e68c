import Mathlib.Data.List.Chain
import SqfCheck.Proofs.Exits
import SqfCheck.Proofs.Scanned
import SqfCheck.Proofs.Strict

/-!
# Reading comes to an end

Tokens of which only the last is an end are read to that end (`read_finishes`). No exit is taken
on the way, whatever the budget is above the one that scripts are read with, so the rules need no
budget to finish. The cursor only moves forward among the tokens. A run that repairs failures and
was not ended before gives a script and leaves the cursor on the end : a list of statements is
left at what closes it or on the end, and each round of reading one passes a token
(`Grammar.leads_statements_repair`).
-/

namespace SqfCheck

open Grammar Parse

/-! ## Tokens with an end -/

theorem endsOnce_append {e : Token} (he : e.kind = .endOfInput) :
    ∀ {body : List Token}, (∀ t ∈ body, t.kind ≠ .endOfInput) → EndsOnce (body ++ [e])
  | [], _ => by
    intro t ts hsuffix
    rcases List.suffix_cons_iff.1 hsuffix with heq | hnil
    · obtain ⟨rfl, rfl⟩ := List.cons.inj heq
      simp [he]
    · simp at hnil
  | b :: body, hbody => by
    intro t ts hsuffix
    rcases List.suffix_cons_iff.1 hsuffix with heq | hlater
    · obtain ⟨rfl, rfl⟩ := List.cons.inj heq
      simp [hbody t List.mem_cons_self]
    · exact endsOnce_append he (fun u hu => hbody u (List.mem_cons_of_mem b hu)) t ts hlater

namespace Cursor

/-- If no token but the last is an end, the tokens with an end added if there is none have one
end, at their end. -/
theorem endsOnce_completed :
    ∀ (last : Token) (ts : List Token), (∀ t ∈ (last :: ts).dropLast, t.kind ≠ .endOfInput) →
      ∃ body e, last :: completed last ts = body ++ [e] ∧ e.kind = .endOfInput ∧
        ∀ t ∈ body, t.kind ≠ .endOfInput
  | last, [], _ => by
    rw [completed]
    split_ifs with hk
    · exact ⟨[], last, rfl, hk, by simp⟩
    · exact ⟨[last], .ending last.span none, rfl, rfl, by simpa using hk⟩
  | last, t :: ts, h => by
    rw [List.dropLast_cons_cons] at h
    obtain ⟨body, e, heq, he, hbody⟩ :=
      endsOnce_completed t ts fun u hu => h u (List.mem_cons_of_mem last hu)
    refine ⟨last :: body, e, by rw [completed, heq]; rfl, he, ?_⟩
    rintro u (_ | ⟨_, hu⟩)
    · exact h last List.mem_cons_self
    · exact hbody u hu

theorem endsOnce_ofTokens {tokens : List Token}
    (h : ∀ t ∈ tokens.dropLast, t.kind ≠ .endOfInput) : EndsOnce (ofTokens tokens).tokens := by
  cases tokens with
  | nil =>
    show EndsOnce ([] ++ [Token.ending (.point .start) none])
    exact endsOnce_append rfl (by simp)
  | cons t ts =>
    obtain ⟨body, e, heq, he, hbody⟩ := endsOnce_completed t ts h
    rw [ofTokens, tokens, heq]
    exact endsOnce_append he hbody

theorem endsOnce_ofTokens_scan (source : String) :
    EndsOnce (ofTokens (Token.scan source)).tokens := by
  obtain ⟨body, e, hscan, he, hbody⟩ := Token.scan_eq_append_ending source
  rw [hscan, tokens_ofTokens he]
  exact endsOnce_append he hbody

end Cursor

/-! ## Runs that repair failures -/

/-- A run that repairs failures is not ended. -/
theorem Parse.Steps.aborted_eq {v : Vocabulary} {s t : ParseState} (h : Steps v false s t) :
    t.journal.aborted = s.journal.aborted := by
  induction h with
  | refl => rfl
  | tail _ hstep ih =>
    rw [← ih]
    cases hstep with
    | pass => rfl
    | name => rw [journal_resolve, Journal.aborted_writeAll]
    | repair => rfl
    | abort _ hs => cases hs

namespace Grammar

/-- A repair ends where it was to end, or on the end. -/
theorem gives_recover_stop {s : ParseState} (hs : EndsOnce s.cursor.tokens) (strict : Bool)
    (failure : Diagnostic) (boundary : TokenKind) :
    Gives (recover strict failure boundary true) s fun stop u =>
      stop = .endOfInput → u.cursor.current.kind = .endOfInput := by
  rw [Gives, leads_recover]
  split
  · trivial
  split
  · trivial
  intro stop next hstop
  have hsteps : Steps {} false s ⟨s.cursor.advance.dropWhile fun t => !stopsAt boundary t,
      s.journal⟩ := Steps.dropWhile _ (.single (.pass s))
  have hadvance := (hsteps.endsOnce hs).advance_eq hstop
  have hnext : next = stop := (if_pos rfl).trans hadvance
  rw [hnext]
  exact hstop

/-- A run that repairs failures reads statements up to what closes them or to the end. Each round
passes a token, so a budget of more than the tokens ahead is enough. -/
theorem leads_statements_repair (v : Vocabulary) (close : TokenKind) :
    ∀ (fuel : Nat) {t : ParseState}, EndsOnce t.cursor.tokens → t.journal.aborted = false →
      t.cursor.rest.length < fuel → Leads (statements v false fuel close) t
        (fun _ u => closes close u.cursor.current.kind = true) (fun _ _ => False)
  | 0, _, _, _, hlt => absurd hlt (Nat.not_lt_zero _)
  | fuel + 1, t, ht, ha, hfuel => by
    have hdrop : Steps v false t ⟨t.cursor.dropWhile Cursor.isSeparator, t.journal⟩ :=
      Steps.dropWhile _ .refl
    have hlater : ∀ {u : ParseState}, Steps v false t u →
        u.cursor.rest.length < t.cursor.rest.length → Leads (statements v false fuel close) u
          (fun _ w => closes close w.cursor.current.kind = true) (fun _ _ => False) :=
      fun hu hlt => leads_statements_repair v close fuel (hu.endsOnce ht)
        (hu.aborted_eq.trans ha) (by omega)
    rw [statements]
    simp only [leads_bind, leads_move, leads_peek]
    split
    · assumption
    rw [leads_bind, leads_attempt]
    refine (((traced v false fuel).statement hdrop close).and
      (gives_statement (hdrop.endsOnce ht).ends close)).mono ?_ ?_
    · rintro st u ⟨hu, hlt⟩
      rw [leads_bind]
      exact (hlater hu (Nat.lt_of_lt_of_le hlt hdrop.length_rest_le)).mono (fun _ _ h => h)
        fun _ _ h => h
    · rintro d u ⟨⟨hu, hb⟩, -⟩
      have hend := hu.endsOnce ht
      have hrun : u.journal.aborted = false := hu.aborted_eq.trans ha
      have hok : Leads (recover false d .semicolon true) u (fun _ _ => True)
          (fun _ _ => False) := by
        rw [leads_recover, hrun]
        trivial
      rw [leads_bind]
      refine ((((traces_recover .semicolon true hu hb).and hok).and
        (gives_recover_lt hend.ends d .semicolon true)).and
        (gives_recover_stop hend false d .semicolon)).mono ?_ ?_
      · rintro stop w ⟨⟨⟨hw, -⟩, hlt⟩, hstop⟩
        split_ifs with hk
        · simp [closes, hstop hk]
        · exact hlater hw (Nat.lt_of_lt_of_le (hlt.resolve_left hk) hu.length_rest_le)
      · rintro _ w ⟨⟨⟨-, hfail⟩, -⟩, -⟩
        exact hfail

end Grammar

/-! ## Scripts -/

/-- The states that steps lead through, with the tokens ahead in each of them. -/
theorem Parse.Steps.exists_run {v : Vocabulary} {strict : Bool} {s t : ParseState}
    (h : Steps v strict s t) :
    ∃ run : List ParseState, (s :: run).IsChain (Step v strict) ∧
      (s :: run).getLast (List.cons_ne_nil s run) = t ∧
      (s :: run).Pairwise fun a b => b.cursor.tokens <:+ a.cursor.tokens := by
  obtain ⟨run, hchain, hlast⟩ := List.exists_isChain_cons_of_relationReflTransGen h
  have : Trans (fun a b : ParseState => b.cursor.tokens <:+ a.cursor.tokens)
      (fun a b : ParseState => b.cursor.tokens <:+ a.cursor.tokens)
      (fun a b : ParseState => b.cursor.tokens <:+ a.cursor.tokens) := ⟨fun h h' => h'.trans h⟩
  refine ⟨run, hchain, hlast, List.isChain_iff_pairwise.1 (hchain.imp fun a b hab => ?_)⟩
  exact Steps.isSuffix_tokens (.single hab)

/-- Reading a script takes steps, whether it ends in a script or not. -/
theorem Script.steps_rule (v : Vocabulary) (strict : Bool) (fuel : Nat) (s : ParseState) :
    Steps v strict s (final (Script.rule v strict fuel s)) := by
  have htrace : Traces v strict s (Script.rule v strict fuel) s := by
    rw [Script.rule, Traces, leads_bind, leads_peek]
    exact ((traced v strict fuel).statements .refl .endOfInput).bind fun _ _ hu => hu
  unfold Traces Leads at htrace
  revert htrace
  cases Script.rule v strict fuel s with
  | ok script t => exact id
  | error d t => exact And.left

/-- A run that repairs failures reads tokens with one end, at their end, to that end. -/
theorem Script.exists_rule_repair (v : Vocabulary) {tokens : List Token} {j : Journal}
    (hstart : EndsOnce (Cursor.ofTokens tokens).tokens) (ha : j.aborted = false) :
    ∃ script t, Script.rule v false (Script.budget tokens) ⟨.ofTokens tokens, j⟩ = .ok script t ∧
      Script.read v false tokens j = (.ok script, t.journal) ∧
      t.cursor.current.kind = .endOfInput := by
  have hlt : (Cursor.ofTokens tokens).rest.length < Script.budget tokens := by
    unfold Script.budget
    omega
  have hleads : Leads (Script.rule v false (Script.budget tokens)) ⟨.ofTokens tokens, j⟩
      (fun _ u => closes .endOfInput u.cursor.current.kind = true) (fun _ _ => False) := by
    rw [Script.rule, leads_bind, leads_peek, leads_bind]
    exact leads_statements_repair v .endOfInput _ hstart ha hlt
  cases hr : Script.rule v false (Script.budget tokens) ⟨.ofTokens tokens, j⟩ with
  | error d t => exact absurd (hleads.of_error hr) id
  | ok script t =>
    refine ⟨script, t, rfl, ?_, by simpa [closes] using hleads.of_ok hr⟩
    rw [Script.budget] at hr
    rw [Script.read, hr]

/-- No exit is taken with the budget of scripts, or with a larger one. -/
theorem Exits.script_budget (x : Exits) (v : Vocabulary) (strict : Bool) {tokens : List Token}
    (j : Journal) {n : Nat} (hstart : EndsOnce (Cursor.ofTokens tokens).tokens)
    (hn : Script.budget tokens ≤ n) : x.script v strict n ⟨.ofTokens tokens, j⟩ =
      Script.rule v strict (Script.budget tokens) ⟨.ofTokens tokens, j⟩ := by
  have hneed : (Call.statements .endOfInput).need ⟨.ofTokens tokens, j⟩ ≤
      Script.budget tokens := by
    simp only [Call.need, Call.rank, Script.budget]
    omega
  exact x.script_eq hstart.ends (hneed.trans hn) hneed

/-- Reading always comes to an end. Of tokens of which no other than the last is an end, no exit
is taken, with the budget of scripts and with any larger one : no rule is called without budget,
no parenthesis is closed that was not opened, and failures are repaired where they are. The run
is a row of steps, and in each of its states the cursor is on a token, as far as in any state
before or further. A run that repairs failures gives a script, is not ended early, and leaves the
cursor on the end. -/
theorem read_finishes (v : Vocabulary) (strict : Bool) (tokens : List Token) (j : Journal)
    (hend : ∀ t ∈ tokens.dropLast, t.kind ≠ .endOfInput) :
    let start : ParseState := ⟨.ofTokens tokens, j⟩
    let result := Script.rule v strict (Script.budget tokens) start
    (∀ (x : Exits) (n : Nat), Script.budget tokens ≤ n → x.script v strict n start = result) ∧
    (∃ run : List ParseState, (start :: run).IsChain (Step v strict) ∧
      (start :: run).getLast (List.cons_ne_nil start run) = final result ∧
      (start :: run).Pairwise fun s t => t.cursor.tokens <:+ s.cursor.tokens) ∧
    (strict = false → j.aborted = false →
      ∃ script t, result = .ok script t ∧ Script.read v strict tokens j = (.ok script, t.journal) ∧
        t.journal.aborted = false ∧ t.cursor.current.kind = .endOfInput ∧ t.cursor.rest = []) := by
  intro start result
  have hstart : EndsOnce start.cursor.tokens := Cursor.endsOnce_ofTokens hend
  refine ⟨fun x n hn => x.script_budget v strict j hstart hn,
    (Script.steps_rule v strict _ start).exists_run, ?_⟩
  rintro rfl ha
  obtain ⟨script, t, hrule, hread, hkind⟩ := Script.exists_rule_repair v hstart ha
  have hsteps := Script.steps_rule v false (Script.budget tokens) start
  rw [hrule] at hsteps
  exact ⟨script, t, hrule, hread, hsteps.aborted_eq.trans ha, hkind,
    (hsteps.endsOnce hstart).rest_eq_nil_iff.1 hkind⟩

/-- Brackets that are not closed, a parenthesis too many and a macro whose argument list does not
end : the tokens, which come without an end, are read to the end that is added. -/
theorem read_finishes_unclosed :
    let v : Vocabulary := ⟨{}, { macros := [⟨"FOO", none, []⟩] }⟩
    let tokens := (Token.scan "a = [(1 2, \x7b3; ]); b) foo((c)").dropLast
    (∀ t ∈ tokens.dropLast, t.kind ≠ .endOfInput) ∧
      (∀ (x : Exits) (n : Nat), Script.budget tokens ≤ n →
        x.script v false n ⟨.ofTokens tokens, {}⟩ =
          Script.rule v false (Script.budget tokens) ⟨.ofTokens tokens, {}⟩) ∧
      ∃ (script : Script) (t : ParseState),
        Script.read v false tokens {} = (.ok script, t.journal) ∧
        t.journal.aborted = false ∧ t.cursor.rest = [] := by
  intro v tokens
  have hend : ∀ t ∈ tokens.dropLast, t.kind ≠ .endOfInput := by
    decide +kernel
  obtain ⟨hexits, -, hok⟩ := read_finishes v false tokens {} hend
  obtain ⟨script, t, -, hread, ha, -, hrest⟩ := hok rfl rfl
  exact ⟨hend, hexits, script, t, hread, ha, hrest⟩

end SqfCheck
