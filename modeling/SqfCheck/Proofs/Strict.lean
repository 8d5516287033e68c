import SqfCheck.Proofs.Stages

/-!
# Strict runs

A strict run is the run that repairs failures, cut at the first thing that it writes down. The
two are compared rule by rule : from a state that is not aborted, either nothing is written down
and the runs are the same, or the strict run fails with the first diagnostic of the other run
and has found what that run had found by then (`Cut`).

The relation is kept when rules follow each other (`Mirrors.bind`), and also when a rule looks at
how another one ended, as long as it passes the failure of an aborted run on
(`Mirrors.attempt`). So it holds of every rule (`Grammar.mirrored`) and of the reading of a
script (`Script.read_strict`).
-/

namespace SqfCheck

namespace Parse

variable {α β : Type}

/-- The state that a rule leaves, whether it fails or not. -/
def final : EStateM.Result Diagnostic ParseState α → ParseState
  | .ok _ s => s
  | .error _ s => s

/-- How a strict run and one that repairs failures, both from `s`, end : in the same way with
nothing written down, or the strict one in the failure that is written down first. -/
inductive Cut (s : ParseState) :
    EStateM.Result Diagnostic ParseState α → EStateM.Result Diagnostic ParseState α → Prop where
  /-- Nothing is written down. -/
  | same (r : EStateM.Result Diagnostic ParseState α)
    (hd : (final r).journal.diagnostics = s.journal.diagnostics)
    (he : s.journal.entries.toList <+: (final r).journal.entries.toList)
    (ha : (final r).journal.aborted = false) : Cut s r r
  /-- The strict run fails with the first diagnostic. -/
  | first (d : Diagnostic) (t : ParseState) (r : EStateM.Result Diagnostic ParseState α)
    (hd : t.journal.diagnostics = s.journal.diagnostics ++ [d])
    (hs : s.journal.entries.toList <+: t.journal.entries.toList)
    (he : t.journal.entries.toList <+: (final r).journal.entries.toList)
    (ht : t.journal.aborted = true) (ha : (final r).journal.aborted = false) :
    Cut s (.error d t) r

namespace Cut

variable {s t : ParseState} {r r' : EStateM.Result Diagnostic ParseState α}

theorem isPrefix (h : Cut s r' r) :
    s.journal.entries.toList <+: (final r).journal.entries.toList := by
  cases h with
  | same _ _ he _ => exact he
  | first _ _ _ _ hs he _ _ => exact hs.trans he

theorem aborted_eq (h : Cut s r' r) : (final r).journal.aborted = false := by
  cases h with
  | same _ _ _ ha => exact ha
  | first _ _ _ _ _ _ _ ha => exact ha

/-- What is written down after nothing was written down is written down first. -/
theorem after_same (h : Cut t r' r) (hd : t.journal.diagnostics = s.journal.diagnostics)
    (he : s.journal.entries.toList <+: t.journal.entries.toList) : Cut s r' r := by
  cases h with
  | same _ hd' he' ha => exact .same r (hd'.trans hd) (he.trans he') ha
  | first d u _ hd' hs he' hu ha => exact .first d u r (by rw [hd', hd]) (he.trans hs) he' hu ha

end Cut

/-- From states that are not aborted, `p` is `q` cut at the first diagnostic. -/
def Mirrors (p q : Parse α) : Prop :=
  ∀ s, s.journal.aborted = false → Cut s (p s) (q s)

/-- The rule writes nothing down and does not end the run. -/
def Quiet (p : Parse α) : Prop :=
  ∀ s, (final (p s)).journal.diagnostics = s.journal.diagnostics ∧
    s.journal.entries.toList <+: (final (p s)).journal.entries.toList ∧
    (final (p s)).journal.aborted = s.journal.aborted

theorem Quiet.mirrors {p : Parse α} (h : Quiet p) : Mirrors p p := by
  intro s hs
  obtain ⟨hd, he, ha⟩ := h s
  exact .same _ hd he (ha.trans hs)

theorem Mirrors.pure (a : α) : Mirrors (pure a) (pure a) :=
  fun s hs => .same (.ok a s) rfl (List.prefix_refl _) hs

theorem Mirrors.bind {p q : Parse α} {f g : α → Parse β} (h : Mirrors p q)
    (hf : ∀ a, Mirrors (f a) (g a)) : Mirrors (p >>= f) (q >>= g) := by
  intro s hs
  rw [show (p >>= f) s = EStateM.bind p f s from rfl,
    show (q >>= g) s = EStateM.bind q g s from rfl, EStateM.bind, EStateM.bind]
  have hpq := h s hs
  revert hpq
  generalize p s = r', q s = r
  intro hpq
  cases hpq with
  | same _ hd he ha =>
    cases r' with
    | ok a t => exact (hf a t ha).after_same hd he
    | error d t => exact .same _ hd he ha
  | first d t _ hd hst he ht ha =>
    cases r with
    | ok a u =>
      have hu := hf a u ha
      exact .first d t _ hd hst (he.trans hu.isPrefix) ht hu.aborted_eq
    | error e u => exact .first d t _ hd hst he ht ha

/-- A rule that looks at how another one ended mirrors one that does the same, if in a run that
was just aborted it passes the failure on. -/
theorem Mirrors.attempt {p q : Parse α} {f g : Except Diagnostic α → Parse β} (h : Mirrors p q)
    (hf : ∀ o, Mirrors (f o) (g o))
    (hpass : ∀ s d t, p s = .error d t → s.journal.aborted = false → t.journal.aborted = true →
      f (.error d) t = .error d t) :
    Mirrors (attempt p >>= f) (attempt q >>= g) := by
  intro s hs
  rw [show (Parse.attempt p >>= f) s = EStateM.bind (Parse.attempt p) f s from rfl,
    show (Parse.attempt q >>= g) s = EStateM.bind (Parse.attempt q) g s from rfl,
    EStateM.bind, EStateM.bind, Parse.attempt, Parse.attempt]
  have hpq := h s hs
  have hp := hpass s
  revert hpq hp
  generalize p s = r', q s = r
  intro hpq hp
  cases hpq with
  | same _ hd he ha =>
    cases r' with
    | ok a t => exact (hf (.ok a) t ha).after_same hd he
    | error d t => exact (hf (.error d) t ha).after_same hd he
  | first d t _ hd hst he ht ha =>
    simp only [hp d t rfl hs ht]
    cases r with
    | ok a u =>
      have hu := hf (.ok a) u ha
      exact .first d t _ hd hst (he.trans hu.isPrefix) ht hu.aborted_eq
    | error e u =>
      have hu := hf (.error e) u ha
      exact .first d t _ hd hst (he.trans hu.isPrefix) ht hu.aborted_eq

/-- The first failure ends a strict run, and is written down in the other one. -/
theorem mirrors_recover (failure : Diagnostic) (boundary : TokenKind) (skip : Bool) :
    Mirrors (recover true failure boundary skip) (recover false failure boundary skip) := by
  intro s hs
  have hstrict : recover true failure boundary skip s =
      .error failure { s with journal := (s.journal.report failure).abort } := by
    simp [recover, hs]
  obtain ⟨r, hrepair, hr⟩ : ∃ r : Repair,
      (final (recover false failure boundary skip s)).journal = s.journal.repaired r ∧
        r.failure = failure := by
    simp only [recover, hs, final]
    exact ⟨_, rfl, rfl⟩
  rw [hstrict]
  refine .first _ _ _ ?_ ?_ ?_ rfl ?_
  · simp [Journal.diagnostics_eq_filterMap, Journal.abort, Entry.diagnostic?]
  · simp [Journal.abort]
  · rw [hrepair, Journal.toList_entries_repaired, hr]
    simp [Journal.abort]
  · rw [hrepair]
    exact hs

/-- An aborted run passes the failure on. -/
theorem recover_of_aborted {s : ParseState} (h : s.journal.aborted = true) (strict : Bool)
    (failure : Diagnostic) (boundary : TokenKind) (skip : Bool) :
    recover strict failure boundary skip s = .error failure s := by
  simp [recover, h]

/-! ## Rules that write nothing down -/

namespace Quiet

theorem of_journal_eq {p : Parse α} (h : ∀ s, (final (p s)).journal = s.journal) : Quiet p := by
  intro s
  rw [h s]
  exact ⟨rfl, List.prefix_refl _, rfl⟩

theorem pure (a : α) : Quiet (pure a) :=
  of_journal_eq fun _ => rfl

theorem cursor : Quiet cursor :=
  of_journal_eq fun _ => rfl

theorem peek : Quiet peek :=
  of_journal_eq fun _ => rfl

theorem advance : Quiet advance :=
  of_journal_eq fun _ => rfl

theorem move (f : Cursor → Cursor) : Quiet (move f) :=
  of_journal_eq fun _ => rfl

theorem fail (expected : String) : Quiet (fail expected : Parse α) :=
  of_journal_eq fun _ => rfl

theorem expect (kind : TokenKind) : Quiet (expect kind) := by
  refine of_journal_eq fun s => ?_
  unfold Parse.expect
  split_ifs <;> rfl

theorem resolve (v : Vocabulary) (t : Token) : Quiet (resolve v t) := by
  intro s
  have h : (final (Parse.resolve v t s)).journal =
      (s.journal.resolve v t s.cursor.current).2 := rfl
  rw [h, journal_resolve, Journal.diagnostics_eq_filterMap, Journal.toList_entries_writeAll,
    Journal.aborted_writeAll, List.filterMap_append, Journal.diagnostics_eq_filterMap]
  refine ⟨?_, List.prefix_append _ _, rfl⟩
  unfold noted
  split_ifs <;> simp [Entry.diagnostic?]

theorem bind {p : Parse α} {f : α → Parse β} (h : Quiet p) (hf : ∀ a, Quiet (f a)) :
    Quiet (p >>= f) := by
  intro s
  rw [show (p >>= f) s = EStateM.bind p f s from rfl, EStateM.bind]
  have hp := h s
  revert hp
  generalize p s = r
  intro hp
  cases r with
  | error d t => exact hp
  | ok a t =>
    obtain ⟨hd, he, ha⟩ := hp
    obtain ⟨hd', he', ha'⟩ := hf a t
    exact ⟨hd'.trans hd, he.trans he', ha'.trans ha⟩

end Quiet

end Parse

namespace Grammar

open Parse

variable {v : Vocabulary} {fuel : Nat}

theorem quiet_passName (v : Vocabulary) : Quiet (passName v) :=
  .bind .advance fun _ => .bind (.resolve v _) fun _ => .pure _

theorem quiet_privateMark (v : Vocabulary) (isPrivate : Bool) :
    Quiet (privateMark v isPrivate) := by
  unfold privateMark
  split_ifs
  · exact .bind (quiet_passName v) fun _ => .pure _
  · exact .pure _

theorem quiet_passCommand (v : Vocabulary) (t : Token) : Quiet (passCommand v t) := by
  unfold passCommand
  split_ifs
  · exact quiet_passName v
  · exact .advance

theorem quiet_statementEnd (close : TokenKind) : Quiet (statementEnd close) := by
  refine .bind .peek fun t => ?_
  split_ifs
  · exact .bind .advance fun _ => .pure _
  · exact .pure _
  · exact .fail _

theorem quiet_arguments : Quiet arguments := by
  refine .of_journal_eq fun s => ?_
  unfold arguments
  cases Cursor.skipArguments 0 s.cursor.current s.cursor.rest with
  | mk cursor span =>
    cases span with
    | none => rfl
    | some span => rfl

theorem quiet_expansion (strict : Bool) (name : Token) : Quiet (expansion strict name) := by
  refine .bind .peek fun t => ?_
  split_ifs
  · exact .bind quiet_arguments fun _ => .pure _
  · exact .pure _

theorem quiet_closingParen : Quiet closingParen := by
  refine .bind .peek fun t => ?_
  split_ifs
  · exact .bind .advance fun _ => .pure _
  · exact .pure _

theorem mirrors_parenInner (outcome : Except Diagnostic Expr) :
    Mirrors (parenInner true outcome) (parenInner false outcome) := by
  cases outcome with
  | ok inner =>
    refine .bind Quiet.peek.mirrors fun t => ?_
    split_ifs
    · exact .pure _
    · exact .bind (mirrors_recover _ _ _) fun _ => .pure _
  | error failure => exact .bind (mirrors_recover _ _ _) fun _ => .pure _

/-! ## All rules -/

/-- With the given budget, every rule of a strict run is that of the other run, cut at the first
diagnostic. -/
structure Mirrored (v : Vocabulary) (fuel : Nat) : Prop where
  statements (close : TokenKind) :
    Mirrors (statements v true fuel close) (statements v false fuel close)
  statement (close : TokenKind) :
    Mirrors (statement v true fuel close) (statement v false fuel close)
  statementBody (isPrivate : Bool) :
    Mirrors (statementBody v true fuel isPrivate) (statementBody v false fuel isPrivate)
  expression (least : Nat) :
    Mirrors (expression v true fuel least) (expression v false fuel least)
  operations (least : Nat) (left : Expr) :
    Mirrors (operations v true fuel least left) (operations v false fuel least left)
  operand : Mirrors (operand v true fuel) (operand v false fuel)
  named : Mirrors (named v true fuel) (named v false fuel)
  array : Mirrors (array v true fuel) (array v false fuel)
  elements : Mirrors (elements v true fuel) (elements v false fuel)
  moreElements (failure : Diagnostic) :
    Mirrors (moreElements v true fuel failure) (moreElements v false fuel failure)
  code : Mirrors (code v true fuel) (code v false fuel)
  paren : Mirrors (paren v true fuel) (paren v false fuel)

namespace Mirrored

variable (ih : Mirrored v fuel)
include ih

theorem statements_succ (close : TokenKind) :
    Mirrors (Grammar.statements v true (fuel + 1) close)
      (Grammar.statements v false (fuel + 1) close) := by
  rw [Grammar.statements, Grammar.statements]
  refine .bind (Quiet.move _).mirrors fun _ => .bind Quiet.peek.mirrors fun t => ?_
  split_ifs
  · exact .pure _
  refine .attempt (ih.statement close) (fun outcome => ?_) fun s d t _ _ ht => ?_
  · cases outcome with
    | ok st => exact .bind (ih.statements close) fun _ => .pure _
    | error failure =>
      refine .bind (mirrors_recover _ _ _) fun stop => ?_
      split_ifs
      · exact .pure _
      · exact ih.statements close
  · show EStateM.bind (recover true _ _ _) _ t = _
    rw [EStateM.bind, recover_of_aborted ht]

theorem statement_succ (close : TokenKind) :
    Mirrors (Grammar.statement v true (fuel + 1) close)
      (Grammar.statement v false (fuel + 1) close) := by
  rw [Grammar.statement, Grammar.statement]
  refine .bind Quiet.cursor.mirrors fun c => .bind (quiet_privateMark v _).mirrors fun _ => ?_
  refine .bind (ih.statementBody _) fun st => ?_
  exact .bind (quiet_statementEnd close).mirrors fun _ => .pure _

theorem statementBody_succ (isPrivate : Bool) :
    Mirrors (Grammar.statementBody v true (fuel + 1) isPrivate)
      (Grammar.statementBody v false (fuel + 1) isPrivate) := by
  rw [Grammar.statementBody, Grammar.statementBody]
  refine .bind Quiet.cursor.mirrors fun c => ?_
  split_ifs
  · refine .bind (quiet_passName v).mirrors fun target => .bind Quiet.advance.mirrors fun _ => ?_
    exact .bind (ih.expression 0) fun _ => .pure _
  · refine .bind (ih.expression 0) fun e => .bind Quiet.peek.mirrors fun t => ?_
    split_ifs
    · exact .bind Quiet.advance.mirrors fun _ => .bind (ih.expression 0) fun _ => .pure _
    · exact .pure _

theorem expression_succ (least : Nat) :
    Mirrors (Grammar.expression v true (fuel + 1) least)
      (Grammar.expression v false (fuel + 1) least) := by
  rw [Grammar.expression, Grammar.expression]
  exact .bind ih.operand fun left => ih.operations least left

theorem operations_succ (least : Nat) (left : Expr) :
    Mirrors (Grammar.operations v true (fuel + 1) least left)
      (Grammar.operations v false (fuel + 1) least left) := by
  rw [Grammar.operations, Grammar.operations]
  refine .bind Quiet.peek.mirrors fun t => ?_
  cases v.precedence? t with
  | none => exact .pure _
  | some p =>
    dsimp only
    split_ifs
    · exact .pure _
    refine .bind (quiet_passCommand v t).mirrors fun op => ?_
    exact .bind (ih.expression (p + 1)) fun right => ih.operations least _

theorem operand_succ :
    Mirrors (Grammar.operand v true (fuel + 1)) (Grammar.operand v false (fuel + 1)) := by
  rw [Grammar.operand, Grammar.operand]
  refine .bind Quiet.peek.mirrors fun t => ?_
  split_ifs
  · exact .bind Quiet.advance.mirrors fun _ => .bind ih.operand fun _ => .pure _
  split
  · exact ih.named
  · exact .bind Quiet.advance.mirrors fun _ => .pure _
  · exact .bind Quiet.advance.mirrors fun _ => .pure _
  · exact ih.array
  · exact ih.code
  · exact ih.paren
  · exact (Quiet.fail _).mirrors

theorem named_succ :
    Mirrors (Grammar.named v true (fuel + 1)) (Grammar.named v false (fuel + 1)) := by
  rw [Grammar.named, Grammar.named]
  refine .bind Quiet.advance.mirrors fun t => .bind (Quiet.resolve v t).mirrors fun meaning => ?_
  cases meaning with
  | command o =>
    refine .bind Quiet.peek.mirrors fun next => ?_
    split_ifs
    · exact .bind ih.operand fun _ => .pure _
    · exact .pure _
  | expansion => exact (quiet_expansion false t).mirrors
  | magic => exact .pure _
  | plain => exact .pure _

theorem array_succ :
    Mirrors (Grammar.array v true (fuel + 1)) (Grammar.array v false (fuel + 1)) := by
  rw [Grammar.array, Grammar.array]
  exact .bind Quiet.advance.mirrors fun _ => .bind ih.elements fun _ => .pure _

theorem elements_succ :
    Mirrors (Grammar.elements v true (fuel + 1)) (Grammar.elements v false (fuel + 1)) := by
  rw [Grammar.elements, Grammar.elements]
  refine .bind Quiet.peek.mirrors fun t => ?_
  split
  · exact .bind Quiet.advance.mirrors fun _ => .pure _
  · exact (Quiet.fail _).mirrors
  refine .attempt (ih.expression 0) (fun outcome => .bind Quiet.peek.mirrors fun next => ?_)
    fun s d t hst hs ht => ?_
  · cases outcome with
    | ok e =>
      dsimp only
      split
      · exact .bind Quiet.advance.mirrors fun _ => .bind ih.elements fun _ => .pure _
      · exact .bind Quiet.advance.mirrors fun _ => .pure _
      · exact .bind (ih.moreElements _) fun _ => .pure _
    | error failure => exact ih.moreElements failure
  · cases fuel with
    | zero =>
      rw [Grammar.expression] at hst
      cases hst
      simp [hs] at ht
    | succ fuel =>
      show Grammar.moreElements v true (fuel + 1) d t = _
      rw [Grammar.moreElements]
      show EStateM.bind (recover true _ _ _) _ t = _
      rw [EStateM.bind, recover_of_aborted ht]

theorem moreElements_succ (failure : Diagnostic) :
    Mirrors (Grammar.moreElements v true (fuel + 1) failure)
      (Grammar.moreElements v false (fuel + 1) failure) := by
  rw [Grammar.moreElements, Grammar.moreElements]
  refine .bind (mirrors_recover _ _ _) fun stop => ?_
  split_ifs
  · exact .bind Quiet.peek.mirrors fun _ => .pure _
  · exact ih.elements

theorem code_succ :
    Mirrors (Grammar.code v true (fuel + 1)) (Grammar.code v false (fuel + 1)) := by
  rw [Grammar.code, Grammar.code]
  refine .bind Quiet.advance.mirrors fun opening => .bind (ih.statements .rightBrace) fun body => ?_
  exact .bind (Quiet.expect .rightBrace).mirrors fun _ => .pure _

theorem paren_succ :
    Mirrors (Grammar.paren v true (fuel + 1)) (Grammar.paren v false (fuel + 1)) := by
  rw [Grammar.paren, Grammar.paren]
  refine .bind Quiet.advance.mirrors fun opening => ?_
  refine .attempt (ih.expression 0) (fun outcome => ?_) fun s d t _ _ ht => ?_
  · refine .bind (mirrors_parenInner outcome) fun inner => ?_
    exact .bind quiet_closingParen.mirrors fun _ => .pure _
  · have hinner : parenInner true (.error d) t = .error d t := by
      show EStateM.bind (recover true _ _ _) _ t = _
      rw [EStateM.bind, recover_of_aborted ht]
    show EStateM.bind _ _ t = _
    rw [EStateM.bind, hinner]

end Mirrored

/-- Every rule of a strict run is that of the other run, cut at the first diagnostic. -/
theorem mirrored (v : Vocabulary) : ∀ fuel, Mirrored v fuel
  | 0 =>
    { statements _ := (Quiet.fail _).mirrors
      statement _ := (Quiet.fail _).mirrors
      statementBody _ := (Quiet.fail _).mirrors
      expression _ := (Quiet.fail _).mirrors
      operations _ _ := (Quiet.fail _).mirrors
      operand := (Quiet.fail _).mirrors
      named := (Quiet.fail _).mirrors
      array := (Quiet.fail _).mirrors
      elements := (Quiet.fail _).mirrors
      moreElements _ := (Quiet.fail _).mirrors
      code := (Quiet.fail _).mirrors
      paren := (Quiet.fail _).mirrors }
  | fuel + 1 =>
    have ih := mirrored v fuel
    { statements := ih.statements_succ
      statement := ih.statement_succ
      statementBody := ih.statementBody_succ
      expression := ih.expression_succ
      operations := ih.operations_succ
      operand := ih.operand_succ
      named := ih.named_succ
      array := ih.array_succ
      elements := ih.elements_succ
      moreElements := ih.moreElements_succ
      code := ih.code_succ
      paren := ih.paren_succ }

end Grammar

/-! ## Scripts -/

namespace Script

/-- Read strictly, tokens give what they give otherwise if nothing is wrong with their order, and
else the first failure. -/
theorem read_strict (v : Vocabulary) (tokens : List Token) :
    (read v true tokens {} = read v false tokens {} ∧
      (read v false tokens {}).2.diagnostics = []) ∨
    ∃ d, (read v true tokens {}).1 = .error d ∧ (read v true tokens {}).2.diagnostics = [d] ∧
      (read v true tokens {}).2.entries.toList <+: (read v false tokens {}).2.entries.toList := by
  rw [read_eq, read_eq]
  have hcut := (Grammar.mirrored v (budget tokens)).statements .endOfInput
    ⟨.ofTokens tokens, {}⟩ rfl
  revert hcut
  generalize Grammar.statements v true _ _ _ = r', Grammar.statements v false _ _ _ = r
  intro hcut
  cases hcut with
  | same _ hd _ _ =>
    refine .inl ⟨rfl, ?_⟩
    cases r' with
    | ok ss t => exact hd
    | error d t => exact hd
  | first d t _ hd _ he _ _ =>
    refine .inr ⟨d, rfl, hd, ?_⟩
    cases r with
    | ok ss t => exact he
    | error d t => exact he

end Script

section

variable (catalogue : Catalogue) (options : Options) (files : Files) (ledger : Ledger)
  (tokens : List Token)

/-- Strict or not, a run goes on in the same way from what reading gives. -/
theorem lintTokens_strict_eq (h : Script.read ⟨catalogue, ledger⟩ true tokens {} =
    Script.read ⟨catalogue, ledger⟩ false tokens {}) :
    lintTokens catalogue { options with stopOnError := true } files ledger tokens =
      lintTokens catalogue { options with stopOnError := false } files ledger tokens := by
  unfold lintTokens
  rw [h]
  simp only [Run.journal_walk]
  rfl

/-- A strict run that fails has found one error, the first that the other run finds. -/
theorem lintTokens_strict_fails {d : Diagnostic}
    (hfail : (Script.read ⟨catalogue, ledger⟩ true tokens {}).1 = .error d)
    (hd : (Script.read ⟨catalogue, ledger⟩ true tokens {}).2.diagnostics = [d])
    (he : (Script.read ⟨catalogue, ledger⟩ true tokens {}).2.entries.toList <+:
      (Script.read ⟨catalogue, ledger⟩ false tokens {}).2.entries.toList) :
    let full := lintTokens catalogue { options with stopOnError := false } files ledger tokens
    let strict := lintTokens catalogue { options with stopOnError := true } files ledger tokens
    full.errors.head? = some d ∧ strict.errors = [d] ∧ strict.warnings = [] ∧
      strict.table.IsPrefix full.table := by
  intro full strict
  have hstrict : strict = (Script.read ⟨catalogue, ledger⟩ true tokens {}).2 := by
    show lintTokens _ _ _ _ _ = _
    exact lintTokens_of_error files rfl (Prod.ext hfail rfl)
  have hprefix : strict.entries.toList <+: full.entries.toList := by
    rw [hstrict]
    exact he.trans (isPrefix_entries_lintTokens files rfl)
  have herror : d.isError = true :=
    (Script.mem_diagnostics_read (hd ▸ List.mem_singleton_self d)).2
  have hdiag : strict.diagnostics = [d] := by rw [hstrict, hd]
  obtain ⟨rest, hrest⟩ : [d] <+: full.diagnostics := hdiag ▸ Journal.isPrefix_diagnostics hprefix
  refine ⟨?_, ?_, ?_, ?_⟩
  · simp [Journal.errors, ← hrest, herror]
  · simp [Journal.errors, hdiag, herror]
  · simp [Journal.warnings, hdiag, herror]
  · exact Journal.isPrefix_table hprefix

end

/-- A strict run is the run that repairs failures, cut at the first error about the order of
tokens. Without such an error the two reports are the same. With one, the strict report has the
first error of the other one and no warning, reading the tokens ends in just that error, and its
table of variables is a beginning of the other one. -/
theorem lint_strict_cut (catalogue : Catalogue) (options : Options) (files : Files) (name : Path)
    (source : String) :
    let full := lint catalogue { options with stopOnError := false } files name source
    let strict := lint catalogue { options with stopOnError := true } files name source
    let prepared := Prepared.ofSource files options.rootPath name source
    ((∀ d ∈ full.errors, d.kind ≠ .syntaxError) → strict = full) ∧
    ((∃ d ∈ full.errors, d.kind = .syntaxError) →
      ∃ d, full.errors.head? = some d ∧ strict.errors = [d] ∧ strict.warnings = [] ∧
        (Script.read ⟨catalogue, prepared.ledger⟩ true (Token.scan prepared.text) {}).1
          = .error d ∧
        strict.table.IsPrefix full.table ∧ strict.ledger = full.ledger) := by
  intro full strict prepared
  have hfull : full = Report.ofJournal (lintTokens catalogue { options with stopOnError := false }
      files prepared.ledger (Token.scan prepared.text)) prepared.ledger options.outputVariables :=
    rfl
  have hstrict : strict = Report.ofJournal (lintTokens catalogue
      { options with stopOnError := true } files prepared.ledger (Token.scan prepared.text))
      prepared.ledger options.outputVariables :=
    rfl
  clear_value full strict prepared
  subst hfull hstrict
  simp only [Report.errors_ofJournal, Report.warnings_ofJournal, Report.table_ofJournal,
    Report.ledger_ofJournal]
  rcases Script.read_strict ⟨catalogue, prepared.ledger⟩ (Token.scan prepared.text) with
    ⟨hsame, hnone⟩ | ⟨d, hfail, hd, he⟩
  · refine ⟨fun _ => ?_, ?_⟩
    · rw [lintTokens_strict_eq catalogue options files _ _ hsame]
    · rintro ⟨d, hd, hk⟩
      have hmem := mem_diagnostics_lintTokens rfl (List.mem_filter.1 hd).1 hk
      rw [hnone] at hmem
      simp at hmem
  · obtain ⟨hhead, herrors, hwarnings, htable⟩ :=
      lintTokens_strict_fails catalogue options files prepared.ledger _ hfail hd he
    refine ⟨fun hno => ?_, fun _ => ⟨d, hhead, herrors, hwarnings, hfail, htable, trivial⟩⟩
    have hk : d.kind = .syntaxError :=
      (Script.mem_diagnostics_read (hd ▸ List.mem_singleton_self d)).1
    exact absurd hk (hno d (List.mem_of_mem_head? hhead))

end SqfCheck
