import Mathlib.Logic.Relation
import Mathlib.Tactic.SplitIfs
import SqfCheck.Grammar
import SqfCheck.Proofs.Entries

/-!
# Where a rule leads

`Parse.Leads` says of a rule that, run from a given state, it gives a value in a state that one
predicate describes, or fails in a state that another one describes. A rule made of others leads
where its parts lead one after the other (`leads_bind`), so a rule of the grammar is opened once,
into what is known of the rules it calls.

All that a rule does to its state is done in four kinds of step (`Parse.Step`) : a token is
passed, a name is passed and looked up, a failure is written down and its token dropped, and in
a strict run a failure is written down and ends the run. `Grammar.traced` shows that every rule
comes from its first state to its last one in such steps, and that a rule that fails either
blames the token under the cursor or has ended the run. What every step keeps, every rule keeps :
the journal only grows, and all that reading has to say is about the order of tokens
(`Script.mem_diagnostics_read`).
-/

namespace SqfCheck

namespace Parse

variable {α β : Type}

/-! ## Where a rule leads -/

/-- Run from `s`, the rule gives a value and a state of which `Q` holds, or fails with a
diagnostic and a state of which `E` holds. -/
def Leads (p : Parse α) (s : ParseState) (Q : α → ParseState → Prop)
    (E : Diagnostic → ParseState → Prop) : Prop :=
  match p s with
  | .ok a t => Q a t
  | .error d t => E d t

variable {p : Parse α} {s t u : ParseState} {Q Q' : α → ParseState → Prop}
  {E E' : Diagnostic → ParseState → Prop}

theorem Leads.mono (h : Leads p s Q E) (hQ : ∀ a t, Q a t → Q' a t)
    (hE : ∀ d t, E d t → E' d t) : Leads p s Q' E' := by
  unfold Leads at *
  cases hp : p s with
  | ok a t => rw [hp] at h; exact hQ a t h
  | error d t => rw [hp] at h; exact hE d t h

theorem Leads.and (h : Leads p s Q E) (h' : Leads p s Q' E') :
    Leads p s (fun a t => Q a t ∧ Q' a t) (fun d t => E d t ∧ E' d t) := by
  unfold Leads at *
  cases hp : p s with
  | ok a t => rw [hp] at h h'; exact ⟨h, h'⟩
  | error d t => rw [hp] at h h'; exact ⟨h, h'⟩

theorem Leads.of_ok (h : Leads p s Q E) {a : α} (hp : p s = .ok a t) : Q a t := by
  unfold Leads at h
  rwa [hp] at h

theorem Leads.of_error (h : Leads p s Q E) {d : Diagnostic} (hp : p s = .error d t) : E d t := by
  unfold Leads at h
  rwa [hp] at h

@[simp]
theorem leads_pure (a : α) : Leads (pure a) s Q E ↔ Q a s :=
  Iff.rfl

@[simp]
theorem leads_bind {R : β → ParseState → Prop} (f : α → Parse β) :
    Leads (p >>= f) s R E ↔ Leads p s (fun a t => Leads (f a) t R E) E := by
  unfold Leads
  rw [show (p >>= f) s = EStateM.bind p f s from rfl, EStateM.bind]
  cases p s with
  | ok a t => rfl
  | error d t => rfl

@[simp]
theorem leads_cursor {Q : Cursor → ParseState → Prop} : Leads cursor s Q E ↔ Q s.cursor s :=
  Iff.rfl

@[simp]
theorem leads_peek {Q : Token → ParseState → Prop} :
    Leads peek s Q E ↔ Q s.cursor.current s :=
  Iff.rfl

@[simp]
theorem leads_advance {Q : Token → ParseState → Prop} :
    Leads advance s Q E ↔ Q s.cursor.current { s with cursor := s.cursor.advance } :=
  Iff.rfl

@[simp]
theorem leads_move (f : Cursor → Cursor) {Q : Unit → ParseState → Prop} :
    Leads (move f) s Q E ↔ Q () { s with cursor := f s.cursor } :=
  Iff.rfl

@[simp]
theorem leads_fail (expected : String) :
    Leads (fail expected : Parse α) s Q E ↔ E (s.cursor.current.unexpected expected) s :=
  Iff.rfl

@[simp]
theorem leads_attempt {Q : Except Diagnostic α → ParseState → Prop} :
    Leads (attempt p) s Q E ↔ Leads p s (fun a t => Q (.ok a) t) (fun d t => Q (.error d) t) := by
  unfold Leads attempt
  cases p s with
  | ok a t => rfl
  | error d t => rfl

@[simp]
theorem leads_resolve (v : Vocabulary) (t : Token) {Q : Meaning → ParseState → Prop} :
    Leads (resolve v t) s Q E ↔ Q (v.classify t.name)
      { s with journal := (s.journal.resolve v t s.cursor.current).2 } := by
  have h : (s.journal.resolve v t s.cursor.current).1 = v.classify t.name := by
    unfold Journal.resolve
    cases v.classify t.name with
    | command o => rfl
    | expansion => rfl
    | magic => rfl
    | plain => rfl
  rw [← h]
  rfl

theorem leads_expect (kind : TokenKind) {Q : Token → ParseState → Prop} :
    Leads (expect kind) s Q E ↔
      if s.cursor.current.kind = kind then Q s.cursor.current { s with cursor := s.cursor.advance }
      else E (s.cursor.current.unexpected kind.describe) s := by
  unfold Leads expect
  split_ifs <;> rfl

theorem leads_recover (strict : Bool) (failure : Diagnostic) (boundary : TokenKind) (skip : Bool)
    {Q : TokenKind → ParseState → Prop} :
    Leads (recover strict failure boundary skip) s Q E ↔
      if s.journal.aborted then E failure s
      else if strict then E failure { s with journal := (s.journal.report failure).abort }
      else
        let stop := s.cursor.advance.dropWhile fun t => !stopsAt boundary t
        let next := if skip then stop.advance else stop
        Q stop.current.kind
          ⟨next, s.journal.repaired ⟨failure, boundary, skip, s.cursor.upTo next⟩⟩ := by
  unfold Leads recover
  by_cases ha : s.journal.aborted = true
  · rw [if_pos ha, if_pos ha]
  by_cases hs : strict = true
  · rw [if_neg ha, if_neg ha, if_pos hs, if_pos hs]
  · rw [if_neg ha, if_neg ha, if_neg hs, if_neg hs]

/-! ## Steps -/

/-- One step of a rule. -/
inductive Step (v : Vocabulary) (strict : Bool) : ParseState → ParseState → Prop where
  /-- A token is passed. -/
  | pass (s : ParseState) : Step v strict s { s with cursor := s.cursor.advance }
  /-- A name is passed and looked up. -/
  | name (s : ParseState) (h : s.cursor.current.kind = .identifier) :
    Step v strict s ⟨s.cursor.advance,
      (s.journal.resolve v s.cursor.current s.cursor.advance.current).2⟩
  /-- A failure at the token under the cursor is written down, and the token is dropped. -/
  | repair (s : ParseState) (r : Repair) (expected : String)
    (hr : r.failure = s.cursor.current.unexpected expected) (hs : strict = false)
    (ha : s.journal.aborted = false) :
    Step v strict s ⟨s.cursor.advance, s.journal.repaired r⟩
  /-- A failure at the token under the cursor is written down and ends the run. -/
  | abort (s : ParseState) (expected : String) (hs : strict = true)
    (ha : s.journal.aborted = false) :
    Step v strict s
      { s with journal := (s.journal.report (s.cursor.current.unexpected expected)).abort }

/-- Any number of steps. -/
abbrev Steps (v : Vocabulary) (strict : Bool) : ParseState → ParseState → Prop :=
  Relation.ReflTransGen (Step v strict)

/-- The run was ended before, or the failure is about the token under the cursor. -/
def Blames (d : Diagnostic) (s : ParseState) : Prop :=
  s.journal.aborted = true ∨ ∃ expected, d = s.cursor.current.unexpected expected

/-- The rule, run from a state that was reached from `s`, only takes steps, and if it fails it
blames the token it stands on. -/
def Traces (v : Vocabulary) (strict : Bool) (s : ParseState) (p : Parse α) (t : ParseState) :
    Prop :=
  Leads p t (fun _ u => Steps v strict s u) (fun d u => Steps v strict s u ∧ Blames d u)

variable {v : Vocabulary} {strict : Bool}

theorem Steps.pass (h : Steps v strict s t) :
    Steps v strict s { t with cursor := t.cursor.advance } :=
  h.tail (.pass t)

theorem Traces.bind {f : α → Parse β} (h : Traces v strict s p t)
    (hf : ∀ a u, Steps v strict s u → Traces v strict s (f a) u) :
    Traces v strict s (p >>= f) t :=
  (leads_bind f).2 (h.mono hf fun _ _ h => h)

theorem Traces.fail (h : Steps v strict s t) (expected : String) :
    Traces v strict s (Parse.fail expected : Parse α) t :=
  ⟨h, .inr ⟨expected, rfl⟩⟩

/-- What the rule gives, if it does not fail, satisfies `Q`. -/
def Gives (p : Parse α) (t : ParseState) (Q : α → ParseState → Prop) : Prop :=
  Leads p t Q fun _ _ => True

theorem Gives.mono (h : Gives p t Q) (hQ : ∀ a u, Q a u → Q' a u) : Gives p t Q' :=
  Leads.mono h hQ fun _ _ h => h

theorem Gives.andThen {f : α → Parse β} {R : β → ParseState → Prop} (h : Gives p t Q)
    (hf : ∀ a u, Q a u → Gives (f a) u R) : Gives (p >>= f) t R :=
  (leads_bind f).2 (Leads.mono h hf fun _ _ _ => trivial)

/-- Where a rule only takes steps, what it gives is given in a state that was reached. -/
theorem Gives.bind {f : α → Parse β} {R : β → ParseState → Prop} (h : Gives p t Q)
    (hp : Traces v strict s p t)
    (hf : ∀ a u, Steps v strict s u → Q a u → Gives (f a) u R) : Gives (p >>= f) t R :=
  (leads_bind f).2 ((hp.and h).mono (fun a u hu => hf a u hu.1 hu.2) fun _ _ _ => trivial)

theorem Traces.gives_bind {f : α → Parse β} {R : β → ParseState → Prop}
    (h : Traces v strict s p t) (hf : ∀ a u, Steps v strict s u → Gives (f a) u R) :
    Gives (p >>= f) t R :=
  (leads_bind f).2 (h.mono hf fun _ _ _ => trivial)

/-- Whether the rule fails or not, it ends in a state that was reached, and a failure blames the
token it stands on. -/
theorem Gives.bind_attempt {f : Except Diagnostic α → Parse β} {R : β → ParseState → Prop}
    (h : Gives p t Q) (hp : Traces v strict s p t)
    (hok : ∀ a u, Steps v strict s u → Q a u → Gives (f (.ok a)) u R)
    (herror : ∀ d u, Steps v strict s u → Blames d u → Gives (f (.error d)) u R) :
    Gives (attempt p >>= f) t R :=
  (leads_bind f).2 (leads_attempt.2 ((hp.and h).mono (fun a u hu => hok a u hu.1 hu.2)
    fun d u hu => herror d u hu.1.1 hu.1.2))

/-- Dropping tokens is passing them. -/
theorem Steps.seek (p : Token → Bool) {j : Journal} :
    ∀ {c : Token} {rest : List Token}, Steps v strict s ⟨⟨c, rest⟩, j⟩ →
      Steps v strict s ⟨Cursor.seek p c rest, j⟩
  | _, [], h => h
  | c, d :: rest, h => by
    rw [Cursor.seek]
    split_ifs
    · exact Steps.seek p h.pass
    · exact h

theorem Steps.dropWhile (p : Token → Bool) {c : Cursor} {j : Journal}
    (h : Steps v strict s ⟨c, j⟩) : Steps v strict s ⟨c.dropWhile p, j⟩ :=
  Steps.seek p h

/-- Skipping an argument list is passing its tokens. -/
theorem Steps.skipArguments {j : Journal} :
    ∀ {depth : Nat} {c : Token} {rest : List Token}, Steps v strict s ⟨⟨c, rest⟩, j⟩ →
      Steps v strict s ⟨(Cursor.skipArguments depth c rest).1, j⟩
  | _, _, [], h => h
  | depth, c, d :: rest, h => by
    unfold Cursor.skipArguments
    split
    · exact Steps.skipArguments h.pass
    · split
      · exact Steps.skipArguments h.pass
      · exact h.pass
    · exact h
    · exact Steps.skipArguments h.pass

/-- A repair writes the failure down and drops the token it blames, and more. -/
theorem traces_recover {failure : Diagnostic} (boundary : TokenKind) (skip : Bool)
    (h : Steps v strict s t) (hb : Blames failure t) :
    Traces v strict s (recover strict failure boundary skip) t := by
  rw [Traces, leads_recover]
  split
  · exact ⟨h, hb⟩
  next ha =>
  obtain ⟨expected, rfl⟩ := hb.resolve_left ha
  split
  · next hs => exact ⟨h.tail (.abort t expected hs (by simpa using ha)), .inl rfl⟩
  · next hs =>
    have hr : ∀ dropped, Steps v strict s ⟨t.cursor.advance,
        t.journal.repaired ⟨t.cursor.current.unexpected expected, boundary, skip, dropped⟩⟩ :=
      fun _ => h.tail (.repair t _ expected rfl (by simpa using hs) (by simpa using ha))
    cases skip with
    | false => exact (hr _).dropWhile _
    | true => exact ((hr _).dropWhile _).pass

/-! ## What steps keep -/

theorem isSuffix_tokens_advance (c : Cursor) : c.advance.tokens <:+ c.tokens := by
  rcases c with ⟨c, _ | ⟨d, rest⟩⟩
  · exact List.suffix_refl _
  · exact List.suffix_cons c (d :: rest)

/-- Only tokens from the beginning are left behind. -/
theorem Steps.isSuffix_tokens (h : Steps v strict s t) :
    t.cursor.tokens <:+ s.cursor.tokens := by
  induction h with
  | refl => exact List.suffix_refl _
  | tail _ hstep ih =>
    cases hstep with
    | pass => exact (isSuffix_tokens_advance _).trans ih
    | name => exact (isSuffix_tokens_advance _).trans ih
    | repair => exact (isSuffix_tokens_advance _).trans ih
    | abort => exact ih

/-- The entry that looking up a name adds, where `assigned` says whether the name is assigned
to. -/
def noted (v : Vocabulary) (t : Token) (assigned : Bool) : Option Entry :=
  if v.classify t.name = .plain then some (.usage t assigned) else none

theorem journal_resolve (v : Vocabulary) (t next : Token) (j : Journal) :
    (j.resolve v t next).2 = j.writeAll (noted v t (next.kind = .assign)).toList := by
  unfold Journal.resolve noted
  cases v.classify t.name with
  | command o => rfl
  | expansion => rfl
  | magic => rfl
  | plain => rfl

theorem diagnostics_resolve (v : Vocabulary) (t next : Token) (j : Journal) :
    (j.resolve v t next).2.diagnostics = j.diagnostics := by
  rw [journal_resolve, Journal.diagnostics_eq_filterMap, Journal.toList_entries_writeAll,
    List.filterMap_append, noted]
  split_ifs <;> simp [Journal.diagnostics_eq_filterMap, Entry.diagnostic?]

/-- A journal only grows at its end. -/
theorem Steps.isPrefix_entries (h : Steps v strict s t) :
    s.journal.entries.toList <+: t.journal.entries.toList := by
  induction h with
  | refl => exact List.prefix_refl _
  | tail _ hstep ih =>
    refine ih.trans ?_
    cases hstep with
    | pass => exact List.prefix_refl _
    | name => rw [journal_resolve]; simp
    | repair => simp
    | abort => simp [Journal.abort]

theorem Steps.surveyed_eq (h : Steps v strict s t) :
    t.journal.surveyed = s.journal.surveyed := by
  induction h with
  | refl => rfl
  | tail _ hstep ih =>
    rw [← ih]
    cases hstep with
    | pass => rfl
    | name => rw [journal_resolve, Journal.surveyed_writeAll]
    | repair => rfl
    | abort => rfl

theorem Steps.isPrefix_diagnostics (h : Steps v strict s t) :
    s.journal.diagnostics <+: t.journal.diagnostics :=
  Journal.isPrefix_diagnostics h.isPrefix_entries

/-- A run is only ended with something to say. -/
theorem Steps.length_diagnostics_lt (h : Steps v strict s t) (hs : s.journal.aborted = false)
    (ht : t.journal.aborted = true) :
    s.journal.diagnostics.length < t.journal.diagnostics.length := by
  induction h with
  | refl => rw [hs] at ht; cases ht
  | @tail u w hu hstep ih =>
    cases hstep with
    | pass => exact ih ht
    | name hk =>
      have hle := Steps.isPrefix_diagnostics (.single (Step.name u hk : Step v strict u _))
      rw [journal_resolve, Journal.aborted_writeAll] at ht
      exact Nat.lt_of_lt_of_le (ih ht) hle.length_le
    | repair r _ _ _ ha =>
      have hrep : (u.journal.repaired r).aborted = false := ha
      rw [hrep] at ht
      cases ht
    | abort expected =>
      show _ < (u.journal.report (u.cursor.current.unexpected expected)).diagnostics.length
      rw [Journal.diagnostics_report, List.length_append]
      exact Nat.lt_succ_of_le (Steps.isPrefix_diagnostics hu).length_le

/-- All that steps have to say is about the order of tokens. -/
theorem Steps.mem_diagnostics (h : Steps v strict s t) {d : Diagnostic}
    (hd : d ∈ t.journal.diagnostics) :
    d ∈ s.journal.diagnostics ∨ d.kind = .syntaxError ∧ d.isError = true := by
  induction h with
  | refl => exact .inl hd
  | tail _ hstep ih =>
    cases hstep with
    | pass => exact ih hd
    | name =>
      rw [diagnostics_resolve] at hd
      exact ih hd
    | repair r expected hr =>
      rw [Journal.diagnostics_repaired, List.mem_append, List.mem_singleton] at hd
      refine hd.elim ih fun hd => .inr ?_
      rw [hd, hr]
      exact ⟨rfl, rfl⟩
    | abort expected =>
      have hreport : d ∈ (Journal.report _ _).diagnostics := hd
      rw [Journal.diagnostics_report, List.mem_append, List.mem_singleton] at hreport
      refine hreport.elim ih fun hd => .inr ?_
      rw [hd]
      exact ⟨rfl, rfl⟩

end Parse

namespace Grammar

open Parse

variable {v : Vocabulary} {strict : Bool} {fuel : Nat} {s t : ParseState}

/-! ## Steps of the rules without recursion -/

theorem traces_passName (h : Steps v strict s t) (hk : t.cursor.current.kind = .identifier) :
    Traces v strict s (passName v) t := by
  rw [Traces, passName]
  simp only [leads_bind, leads_advance, leads_resolve, leads_pure]
  exact h.tail (.name t hk)

theorem kind_of_atPrivate {c : Cursor} (h : atPrivate c = true) :
    c.current.kind = .identifier := by
  simp only [atPrivate, Bool.and_eq_true, decide_eq_true_eq] at h
  exact h.1.1.1

theorem kind_of_atAssignment {c : Cursor} (h : atAssignment c = true) :
    c.current.kind = .identifier := by
  simp only [atAssignment, Bool.and_eq_true, decide_eq_true_eq] at h
  exact h.1

theorem traces_privateMark (h : Steps v strict s t) :
    Traces v strict s (privateMark v (atPrivate t.cursor)) t := by
  rw [privateMark]
  split_ifs with hp
  · exact (traces_passName h (kind_of_atPrivate hp)).bind fun _ _ hu => hu
  · exact h

theorem traces_passCommand (h : Steps v strict s t) :
    Traces v strict s (passCommand v t.cursor.current) t := by
  rw [passCommand]
  split_ifs with hk
  · exact traces_passName h hk
  · exact h.pass

theorem traces_statementEnd (h : Steps v strict s t) (close : TokenKind) :
    Traces v strict s (statementEnd close) t := by
  rw [Traces, statementEnd]
  simp only [leads_bind, leads_peek]
  split_ifs
  · exact h.pass
  · exact h
  · exact Traces.fail h _

theorem leads_arguments {Q : Span → ParseState → Prop} {E : Diagnostic → ParseState → Prop} :
    Leads arguments s Q E ↔
      match Cursor.skipArguments 0 s.cursor.current s.cursor.rest with
      | (cursor, some span) => Q span { s with cursor }
      | (cursor, none) => E (cursor.current.unexpected "')'") { s with cursor } := by
  unfold Leads arguments
  cases Cursor.skipArguments 0 s.cursor.current s.cursor.rest with
  | mk cursor span =>
    cases span with
    | none => rfl
    | some span => rfl

theorem traces_expansion (h : Steps v strict s t) (name : Token) :
    Traces v strict s (expansion strict name) t := by
  rw [Traces, expansion]
  simp only [leads_bind, leads_peek]
  split_ifs
  · have hc : Steps v strict s
        ⟨(Cursor.skipArguments 0 t.cursor.current t.cursor.rest).1, t.journal⟩ :=
      Steps.skipArguments h
    rw [leads_bind, leads_arguments]
    split
    · next hr => rw [hr] at hc; exact hc
    · next hr => rw [hr] at hc; exact ⟨hc, .inr ⟨_, rfl⟩⟩
  · exact h

theorem traces_closingParen (h : Steps v strict s t) : Traces v strict s closingParen t := by
  rw [Traces, closingParen]
  simp only [leads_bind, leads_peek]
  split_ifs
  · exact h.pass
  · exact h

theorem traces_expect (h : Steps v strict s t) (kind : TokenKind) :
    Traces v strict s (expect kind) t := by
  rw [Traces, leads_expect]
  split_ifs
  · exact h.pass
  · exact ⟨h, .inr ⟨_, rfl⟩⟩

theorem traces_parenInner (h : Steps v strict s t) {outcome : Except Diagnostic Expr}
    (hb : ∀ d, outcome = .error d → Blames d t) :
    Traces v strict s (parenInner strict outcome) t := by
  cases outcome with
  | ok inner =>
    rw [Traces, parenInner]
    simp only [leads_bind, leads_peek]
    split_ifs
    · exact h
    · exact (traces_recover .rightParen false h (.inr ⟨_, rfl⟩)).bind fun _ _ hu => hu
  | error failure =>
    exact (traces_recover .rightParen false h (hb failure rfl)).bind fun _ _ hu => hu

/-! ## Steps of all rules -/

/-- With the given budget, every rule only takes steps. -/
structure Traced (v : Vocabulary) (strict : Bool) (fuel : Nat) : Prop where
  statements {s t : ParseState} (h : Steps v strict s t) (close : TokenKind) :
    Traces v strict s (statements v strict fuel close) t
  statement {s t : ParseState} (h : Steps v strict s t) (close : TokenKind) :
    Traces v strict s (statement v strict fuel close) t
  statementBody {s t : ParseState} (h : Steps v strict s t) (isPrivate : Bool) :
    Traces v strict s (statementBody v strict fuel isPrivate) t
  expression {s t : ParseState} (h : Steps v strict s t) (least : Nat) :
    Traces v strict s (expression v strict fuel least) t
  operations {s t : ParseState} (h : Steps v strict s t) (least : Nat) (left : Expr) :
    Traces v strict s (operations v strict fuel least left) t
  operand {s t : ParseState} (h : Steps v strict s t) : Traces v strict s (operand v strict fuel) t
  named {s t : ParseState} (h : Steps v strict s t) (hk : t.cursor.current.kind = .identifier) :
    Traces v strict s (named v strict fuel) t
  array {s t : ParseState} (h : Steps v strict s t) : Traces v strict s (array v strict fuel) t
  elements {s t : ParseState} (h : Steps v strict s t) :
    Traces v strict s (elements v strict fuel) t
  moreElements {s t : ParseState} (h : Steps v strict s t) {failure : Diagnostic}
    (hb : Blames failure t) :
    Traces v strict s (moreElements v strict fuel failure) t
  code {s t : ParseState} (h : Steps v strict s t) : Traces v strict s (code v strict fuel) t
  paren {s t : ParseState} (h : Steps v strict s t) : Traces v strict s (paren v strict fuel) t

namespace Traced

variable (ih : Traced v strict fuel) (h : Steps v strict s t)
include ih h

theorem statements_succ (close : TokenKind) :
    Traces v strict s (Grammar.statements v strict (fuel + 1) close) t := by
  rw [Traces, Grammar.statements]
  simp only [leads_bind, leads_move, leads_peek]
  have hd : Steps v strict s ⟨t.cursor.dropWhile Cursor.isSeparator, t.journal⟩ := h.dropWhile _
  split_ifs
  · exact hd
  rw [leads_bind, leads_attempt]
  refine (ih.statement hd close).mono (fun st u hu => ?_) fun d u hu => ?_
  · exact (ih.statements hu close).bind fun _ _ hw => hw
  · refine (traces_recover .semicolon true hu.1 hu.2).bind fun stop w hw => ?_
    split_ifs
    · exact hw
    · exact ih.statements hw close

theorem statement_succ (close : TokenKind) :
    Traces v strict s (Grammar.statement v strict (fuel + 1) close) t := by
  rw [Traces, Grammar.statement, leads_bind, leads_cursor]
  refine (traces_privateMark h).bind fun _ u hu => ?_
  refine (ih.statementBody hu _).bind fun st w hw => ?_
  exact (traces_statementEnd hw close).bind fun _ _ hx => hx

theorem statementBody_succ (isPrivate : Bool) :
    Traces v strict s (Grammar.statementBody v strict (fuel + 1) isPrivate) t := by
  rw [Traces, Grammar.statementBody, leads_bind, leads_cursor]
  split_ifs with ha
  · refine (traces_passName h (kind_of_atAssignment ha)).bind fun target u hu => ?_
    rw [Traces, leads_bind, leads_advance]
    exact (ih.expression hu.pass 0).bind fun _ _ hw => hw
  · refine (ih.expression h 0).bind fun e u hu => ?_
    rw [Traces, leads_bind, leads_peek]
    split_ifs
    · rw [leads_bind, leads_advance]
      exact (ih.expression hu.pass 0).bind fun _ _ hw => hw
    · exact hu

theorem expression_succ (least : Nat) :
    Traces v strict s (Grammar.expression v strict (fuel + 1) least) t := by
  rw [Grammar.expression]
  exact (ih.operand h).bind fun left u hu => ih.operations hu least left

theorem operations_succ (least : Nat) (left : Expr) :
    Traces v strict s (Grammar.operations v strict (fuel + 1) least left) t := by
  rw [Traces, Grammar.operations, leads_bind, leads_peek]
  split
  · exact h
  split_ifs
  · exact h
  refine (traces_passCommand h).bind fun op u hu => ?_
  refine (ih.expression hu _).bind fun right w hw => ?_
  exact ih.operations hw least _

theorem operand_succ : Traces v strict s (Grammar.operand v strict (fuel + 1)) t := by
  rw [Traces, Grammar.operand, leads_bind, leads_peek]
  split_ifs
  · rw [leads_bind, leads_advance]
    exact (ih.operand h.pass).bind fun _ _ hu => hu
  split
  · next hk => exact ih.named h hk
  · exact h.pass
  · exact h.pass
  · exact ih.array h
  · exact ih.code h
  · exact ih.paren h
  · exact Traces.fail h _

theorem named_succ (hk : t.cursor.current.kind = .identifier) :
    Traces v strict s (Grammar.named v strict (fuel + 1)) t := by
  rw [Traces, Grammar.named, leads_bind, leads_advance, leads_bind, leads_resolve]
  have hn : Steps v strict s ⟨t.cursor.advance,
      (t.journal.resolve v t.cursor.current t.cursor.advance.current).2⟩ := h.tail (.name t hk)
  split
  · rw [leads_bind, leads_peek]
    split_ifs
    · exact (ih.operand hn).bind fun _ _ hu => hu
    · exact hn
  · exact traces_expansion hn _
  · exact hn
  · exact hn

theorem array_succ : Traces v strict s (Grammar.array v strict (fuel + 1)) t := by
  rw [Traces, Grammar.array, leads_bind, leads_advance]
  exact (ih.elements h.pass).bind fun _ _ hu => hu

theorem elements_succ : Traces v strict s (Grammar.elements v strict (fuel + 1)) t := by
  rw [Traces, Grammar.elements, leads_bind, leads_peek]
  split
  · exact h.pass
  · exact Traces.fail h _
  rw [leads_bind, leads_attempt]
  refine (ih.expression h 0).mono (fun e u hu => ?_) fun d u hu => ?_
  · rw [leads_bind, leads_peek]
    dsimp only
    split
    · rw [leads_bind, leads_advance]
      exact (ih.elements hu.pass).bind fun _ _ hw => hw
    · exact hu.pass
    · exact (ih.moreElements hu (.inr ⟨_, rfl⟩)).bind fun _ _ hw => hw
  · exact ih.moreElements hu.1 hu.2

theorem moreElements_succ {failure : Diagnostic} (hb : Blames failure t) :
    Traces v strict s (Grammar.moreElements v strict (fuel + 1) failure) t := by
  rw [Grammar.moreElements]
  refine (traces_recover .rightBracket false h hb).bind fun stop u hu => ?_
  split_ifs
  · exact hu
  · exact ih.elements hu

theorem code_succ : Traces v strict s (Grammar.code v strict (fuel + 1)) t := by
  rw [Traces, Grammar.code, leads_bind, leads_advance]
  refine (ih.statements h.pass .rightBrace).bind fun body u hu => ?_
  exact (traces_expect hu .rightBrace).bind fun _ _ hw => hw

theorem paren_succ : Traces v strict s (Grammar.paren v strict (fuel + 1)) t := by
  rw [Traces, Grammar.paren, leads_bind, leads_advance, leads_bind, leads_attempt]
  have hclose : ∀ {outcome u}, Steps v strict s u →
      (∀ d, outcome = Except.error d → Blames d u) →
      Traces v strict s (do
        let inner ← parenInner strict outcome
        let close ← closingParen
        return Expr.paren inner (t.cursor.current.span.through close)) u := by
    intro outcome u hu hb
    refine (traces_parenInner hu hb).bind fun inner w hw => ?_
    exact (traces_closingParen hw).bind fun _ _ hx => hx
  refine (ih.expression h.pass 0).mono (fun e u hu => ?_) fun d u hu => ?_
  · exact hclose hu (by simp)
  · exact hclose hu.1 fun d' hd => by cases hd; exact hu.2

end Traced

/-- Every rule only takes steps, whatever its budget. -/
theorem traced (v : Vocabulary) (strict : Bool) : ∀ fuel, Traced v strict fuel
  | 0 =>
    { statements h _ := .fail h _
      statement h _ := .fail h _
      statementBody h _ := .fail h _
      expression h _ := .fail h _
      operations h _ _ := .fail h _
      operand h := .fail h _
      named h _ := .fail h _
      array h := .fail h _
      elements h := .fail h _
      moreElements h _ _ := .fail h _
      code h := .fail h _
      paren h := .fail h _ }
  | fuel + 1 =>
    have ih := traced v strict fuel
    { statements h := ih.statements_succ h
      statement h := ih.statement_succ h
      statementBody h := ih.statementBody_succ h
      expression h := ih.expression_succ h
      operations h := ih.operations_succ h
      operand h := ih.operand_succ h
      named h := ih.named_succ h
      array h := ih.array_succ h
      elements h := ih.elements_succ h
      moreElements h _ := ih.moreElements_succ h
      code h := ih.code_succ h
      paren h := ih.paren_succ h }

end Grammar

namespace Script

open Parse

/-- The budget for reading the tokens. -/
abbrev budget (tokens : List Token) : Nat :=
  8 * ((Cursor.ofTokens tokens).rest.length + 1)

/-- Reading tokens is reading statements up to the end. -/
theorem read_eq (v : Vocabulary) (strict : Bool) (tokens : List Token) (j : Journal) :
    read v strict tokens j =
      match Grammar.statements v strict (budget tokens) .endOfInput ⟨.ofTokens tokens, j⟩ with
      | .ok ss t => (.ok ⟨ss, (Cursor.ofTokens tokens).current.span.through t.cursor.current.span⟩,
          t.journal)
      | .error d t => (.error d, t.journal) := by
  simp only [read, rule, bind, EStateM.bind, pure, EStateM.pure, Parse.peek]
  cases Grammar.statements v strict (budget tokens) .endOfInput ⟨.ofTokens tokens, j⟩ with
  | ok ss t => rfl
  | error d t => rfl

/-- Reading a script only takes steps, whether it ends in a script or not. -/
theorem exists_steps_read (v : Vocabulary) (strict : Bool) (tokens : List Token) (j : Journal) :
    ∃ s, Steps v strict ⟨.ofTokens tokens, j⟩ s ∧ (read v strict tokens j).2 = s.journal := by
  have htrace := (Grammar.traced v strict (budget tokens)).statements
    (@Relation.ReflTransGen.refl _ (Parse.Step v strict) ⟨.ofTokens tokens, j⟩) .endOfInput
  rw [read_eq]
  split
  · next ss t hss => exact ⟨t, htrace.of_ok hss, rfl⟩
  · next d t hd => exact ⟨t, (htrace.of_error hd).1, rfl⟩

theorem surveyed_read (v : Vocabulary) (strict : Bool) (tokens : List Token) (j : Journal) :
    (read v strict tokens j).2.surveyed = j.surveyed := by
  obtain ⟨s, hs, hj⟩ := exists_steps_read v strict tokens j
  rw [hj]
  exact hs.surveyed_eq

/-- Reading finds errors about the order of tokens only. -/
theorem mem_diagnostics_read {v : Vocabulary} {strict : Bool} {tokens : List Token} {d : Diagnostic}
    (hd : d ∈ (read v strict tokens {}).2.diagnostics) :
    d.kind = .syntaxError ∧ d.isError = true := by
  obtain ⟨s, hs, hj⟩ := exists_steps_read v strict tokens {}
  rw [hj] at hd
  exact (hs.mem_diagnostics hd).resolve_left (by simp [Journal.diagnostics])

end Script

end SqfCheck
