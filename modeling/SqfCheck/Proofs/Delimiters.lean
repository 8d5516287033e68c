import Mathlib.Data.List.Basic
import SqfCheck.Proofs.Finishing
import SqfCheck.Proofs.Recovery

/-!
# Delimiters that are found missing

In a text whose delimiters are nested, nothing is left open at the end. Even so the grammar can find
a delimiter missing there : a repair does not look at what the tokens it drops open and close, so it
may drop a delimiter that closes something around it (`Repair.Cuts`). `closing_read` shows that
there is no other reason. Every error at the end of a nested text that asks for a closing delimiter
is written down after a repair that dropped one without the delimiter that opens it.

The repairs are those that the journal lists, each with the tokens that were dropped.

`awaiting` reads tokens with the delimiters that are still to be closed. As long as no repair cuts,
what the rules have opened is a part of what the tokens have opened (`Cursor.Supplies`) : a repair
may drop delimiters that open, and these are closed where no rule expects it. On the end nothing is
open, so no rule waits for a delimiter there. This is what every rule keeps (`Parse.Reached`).
-/

namespace SqfCheck

open Grammar Parse

/-! ## Nested delimiters -/

/-- What is to be closed after a token of the given kind, the innermost first, where `awaited` is to
be closed before it. There is none if the token closes what is not to be closed next. -/
def TokenKind.nest (kind : TokenKind) (awaited : List TokenKind) : Option (List TokenKind) :=
  match kind with
  | .leftBracket => some (.rightBracket :: awaited)
  | .leftBrace => some (.rightBrace :: awaited)
  | .leftParen => some (.rightParen :: awaited)
  | .rightBracket | .rightBrace | .rightParen =>
    if awaited.head? = some kind then some awaited.tail else none
  | _ => some awaited

/-- What is to be closed after the tokens. -/
def awaiting (awaited : List TokenKind) (tokens : List Token) : Option (List TokenKind) :=
  tokens.foldlM (fun ks t => t.kind.nest ks) awaited

/-- All that the tokens open they close, in the reverse order, and they close nothing else. -/
def Balanced (tokens : List Token) : Prop :=
  awaiting [] tokens = some []

instance (tokens : List Token) : Decidable (Balanced tokens) :=
  inferInstanceAs (Decidable (awaiting [] tokens = some []))

section

variable {kind : TokenKind} {awaited awaited' outer outer' : List TokenKind}
  {tokens later : List Token}

@[simp]
theorem awaiting_nil : awaiting awaited [] = some awaited :=
  rfl

theorem awaiting_cons {t : Token} : awaiting awaited (t :: tokens) = some awaited' ↔
    ∃ next, t.kind.nest awaited = some next ∧ awaiting next tokens = some awaited' := by
  simp [awaiting, List.foldlM_cons, Option.bind_eq_some_iff]

theorem awaiting_append : awaiting awaited (tokens ++ later) = some awaited' ↔
    ∃ next, awaiting awaited tokens = some next ∧ awaiting next later = some awaited' := by
  simp [awaiting, List.foldlM_append, Option.bind_eq_some_iff]

/-- A token opens something, or closes what is to be closed next, or is no delimiter. -/
theorem TokenKind.nest_cases (h : kind.nest awaited = some awaited') :
    (∃ k, awaited' = k :: awaited ∧ ∀ ks, kind.nest ks = some (k :: ks)) ∨
    (awaited = kind :: awaited' ∧ ∀ ks ks', kind.nest ks = some ks' ↔ ks = kind :: ks') ∨
    (awaited' = awaited ∧ ∀ ks, kind.nest ks = some ks) := by
  have hclosing : ∀ ks ks' : List TokenKind,
      (if ks.head? = some kind then some ks.tail else none) = some ks' ↔ ks = kind :: ks' := by
    intro ks ks'
    cases ks <;> simp
  cases kind with
  | leftBracket | leftBrace | leftParen => exact .inl ⟨_, (Option.some.inj h).symm, fun _ => rfl⟩
  | rightBracket | rightBrace | rightParen => exact .inr (.inl ⟨(hclosing _ _).1 h, hclosing⟩)
  | _ => exact .inr (.inr ⟨(Option.some.inj h).symm, fun _ => rfl⟩)

/-- What is to be closed further out does not matter, as long as it is not closed. -/
theorem TokenKind.nest_append (h : kind.nest awaited = some awaited') (outer : List TokenKind) :
    kind.nest (awaited ++ outer) = some (awaited' ++ outer) := by
  obtain ⟨k, rfl, hopen⟩ | ⟨rfl, hclose⟩ | ⟨rfl, hother⟩ := nest_cases h
  · exact hopen _
  · exact (hclose _ _).2 rfl
  · exact hother _

theorem awaiting_extend (outer : List TokenKind) :
    ∀ {tokens : List Token} {awaited : List TokenKind}, awaiting awaited tokens = some awaited' →
      awaiting (awaited ++ outer) tokens = some (awaited' ++ outer)
  | [], _, h => by
    obtain rfl := Option.some.inj h
    rfl
  | t :: ts, _, h => by
    obtain ⟨next, hnext, hlater⟩ := awaiting_cons.1 h
    exact awaiting_cons.2 ⟨_, TokenKind.nest_append hnext outer, awaiting_extend outer hlater⟩

/-- A token that both expect leaves a part of what is awaited a part of it. -/
theorem TokenKind.nest_sublist (hsub : awaited.Sublist outer)
    (h : kind.nest awaited = some awaited') (houter : kind.nest outer = some outer') :
    awaited'.Sublist outer' := by
  obtain ⟨k, rfl, hopen⟩ | ⟨rfl, hclose⟩ | ⟨rfl, hother⟩ := nest_cases h
  · obtain rfl := Option.some.inj ((hopen outer).symm.trans houter)
    exact hsub.cons_cons k
  · rw [(hclose outer outer').1 houter] at hsub
    exact List.cons_sublist_cons.1 hsub
  · obtain rfl := Option.some.inj ((hother outer).symm.trans houter)
    exact hsub

end

/-! ## What is open under the cursor -/

namespace Cursor

/-- From the cursor on the tokens close, among other things, what is awaited, and nothing is left
open at the end. -/
def Supplies (c : Cursor) (awaited : List TokenKind) : Prop :=
  ∃ opened, awaiting opened c.tokens = some [] ∧ awaited.Sublist opened

variable {c d : Cursor} {awaited awaited' : List TokenKind}

theorem supplies_of_balanced (h : Balanced c.tokens) : c.Supplies [] :=
  ⟨[], h, .slnil⟩

theorem Supplies.mono (h : c.Supplies awaited) (hsub : awaited'.Sublist awaited) :
    c.Supplies awaited' := by
  obtain ⟨opened, hopened, hawaited⟩ := h
  exact ⟨opened, hopened, hsub.trans hawaited⟩

/-- On the end nothing is awaited. -/
theorem Supplies.eq_nil (h : c.Supplies awaited) (hend : EndsOnce c.tokens)
    (hk : c.current.kind = .endOfInput) : awaited = [] := by
  obtain ⟨opened, hopened, hawaited⟩ := h
  rw [Cursor.tokens, hend.rest_eq_nil_iff.1 hk] at hopened
  obtain ⟨next, hnext, hlast⟩ := awaiting_cons.1 hopened
  rw [hk] at hnext
  cases hnext
  cases hlast
  exact List.sublist_nil.1 hawaited

/-- Passing a token that is expected. -/
theorem Supplies.advance (h : c.Supplies awaited) (hend : EndsOnce c.tokens)
    (hnest : c.current.kind.nest awaited = some awaited') : c.advance.Supplies awaited' := by
  by_cases hk : c.current.kind = .endOfInput
  · rw [hend.advance_eq hk]
    rw [hk] at hnest
    cases hnest
    exact h
  · obtain ⟨opened, hopened, hawaited⟩ := h
    obtain ⟨next, hnext, hlater⟩ := awaiting_cons.1 hopened
    obtain ⟨u, us, hrest⟩ := List.exists_cons_of_ne_nil (hend.ends.rest_ne_nil hk)
    have htokens : c.advance.tokens = c.rest := by
      simp [Cursor.advance, Cursor.tokens, hrest]
    exact ⟨next, htokens ▸ hlater, TokenKind.nest_sublist hawaited hnest hnext⟩

/-- Dropping tokens that close nothing but what they open. -/
theorem Supplies.drop (h : c.Supplies awaited) {dropped : List Token}
    (htokens : c.tokens = dropped ++ d.tokens) (hopens : awaiting [] dropped ≠ none) :
    d.Supplies awaited := by
  obtain ⟨opened, hopened, hawaited⟩ := h
  obtain ⟨inner, hinner⟩ := Option.ne_none_iff_exists'.1 hopens
  have hextended := awaiting_extend opened hinner
  rw [htokens, awaiting_append] at hopened
  obtain ⟨next, hnext, hlater⟩ := hopened
  obtain rfl : next = inner ++ opened := Option.some.inj (hnext.symm.trans hextended)
  exact ⟨_, hlater, hawaited.trans (List.sublist_append_right _ _)⟩

/-- In nested text an argument list is closed, by the parenthesis that nesting asks for. Of the
parentheses that are open the outermost is the one that opened the list. -/
theorem exists_skipArguments {outer : List TokenKind} :
    ∀ {rest : List Token} {t : Token} (inner : List TokenKind), EndsOnce (t :: rest) →
      awaiting (inner ++ .rightParen :: outer) (t :: rest) = some [] →
      ∃ d span, skipArguments (inner.count .rightParen + 1) t rest = (d, some span) ∧
        awaiting outer d.tokens = some []
  | [], t, inner, hend, h => by
    have hk : t.kind = .endOfInput := hend.ends t (List.suffix_refl _)
    obtain ⟨next, hnext, hlast⟩ := awaiting_cons.1 h
    rw [hk] at hnext
    cases hnext
    simp at hlast
  | u :: us, t, inner, hend, h => by
    obtain ⟨next, hnext, hlater⟩ := awaiting_cons.1 h
    have hrest : EndsOnce (u :: us) := hend.of_isSuffix (List.suffix_cons t _)
    unfold skipArguments
    cases hk : t.kind with
    | leftParen =>
      rw [hk] at hnext
      cases hnext
      simpa using exists_skipArguments (.rightParen :: inner) hrest hlater
    | rightParen =>
      rw [hk] at hnext
      rcases inner with _ | ⟨k, inner⟩
      · cases hnext
        exact ⟨⟨u, us⟩, t.span, rfl, hlater⟩
      · obtain ⟨rfl, rfl⟩ : k = .rightParen ∧ inner ++ .rightParen :: outer = next := by
          simpa [TokenKind.nest] using hnext
        simpa using exists_skipArguments inner hrest hlater
    | rightBracket | rightBrace =>
      rw [hk] at hnext
      rcases inner with _ | ⟨k, inner⟩
      · simp [TokenKind.nest] at hnext
      · obtain ⟨rfl, rfl⟩ : k = _ ∧ inner ++ .rightParen :: outer = next := by
          simpa [TokenKind.nest] using hnext
        simpa using exists_skipArguments inner hrest hlater
    | leftBracket | leftBrace =>
      rw [hk] at hnext
      cases hnext
      simpa using exists_skipArguments (_ :: inner) hrest hlater
    | endOfInput =>
      have hnil := (hend t (u :: us) (List.suffix_refl _)).1 hk
      cases hnil
    | _ =>
      rw [hk] at hnext
      cases hnext
      exact exists_skipArguments inner hrest hlater

theorem Supplies.exists_skipArguments (h : c.Supplies awaited) (hend : EndsOnce c.tokens)
    (hk : c.current.kind = .leftParen) :
    ∃ d span, skipArguments 0 c.current c.rest = (d, some span) ∧ d.Supplies awaited := by
  obtain ⟨opened, hopened, hawaited⟩ := h
  obtain ⟨next, hnext, hlater⟩ := awaiting_cons.1 hopened
  obtain ⟨u, us, hrest⟩ := List.exists_cons_of_ne_nil (hend.ends.rest_ne_nil (by simp [hk]))
  rw [hk] at hnext
  cases hnext
  rw [Cursor.tokens, hrest] at hend
  rw [hrest] at hlater
  obtain ⟨d, span, hskip, hd⟩ := Cursor.exists_skipArguments []
    (hend.of_isSuffix (List.suffix_cons _ _)) hlater
  refine ⟨d, span, ?_, opened, hd, hawaited⟩
  rw [hrest]
  unfold skipArguments
  rw [hk]
  exact hskip

end Cursor

/-! ## Errors that ask for a delimiter -/

/-- The ways to ask for a closing delimiter. -/
def closings : List String :=
  ["']'", "')'", "'\x7d'", "',' or ']'"]

/-- The finding is that the text ends where a closing delimiter should stand. -/
def Diagnostic.AsksForClosing (d : Diagnostic) : Prop :=
  ∃ expected ∈ closings, d.message = "unexpected end of input, expected " ++ expected

instance (d : Diagnostic) : Decidable d.AsksForClosing :=
  inferInstanceAs (Decidable (∃ expected ∈ closings, d.message = _ ++ expected))

theorem ending_of_asksForClosing {t : Token} {expected : String}
    (h : (t.unexpected expected).AsksForClosing) :
    t.kind = .endOfInput ∧ expected ∈ closings := by
  obtain ⟨closing, hclosing, hmessage⟩ := h
  simp only [Token.unexpected, Diagnostic.ofSyntax, Diagnostic.error] at hmessage
  have hchars := congrArg String.toList hmessage
  cases hk : t.kind with
  | endOfInput =>
    rw [hk] at hmessage
    obtain rfl : expected = closing := by simpa using hmessage
    exact ⟨rfl, hclosing⟩
  | invalid =>
    exfalso
    rw [hk] at hchars
    simp only [Token.invalidReason] at hchars
    split at hchars <;> simp at hchars
  | _ =>
    exfalso
    rw [hk] at hchars
    simp at hchars

/-! ## Repairs -/

/-- Where a repair goes on that starts at the cursor. -/
def Cursor.behind (c : Cursor) (boundary : TokenKind) (skip : Bool) : Cursor :=
  let stop := c.advance.dropWhile fun t => !stopsAt boundary t
  if skip then stop.advance else stop

theorem Cursor.isSuffix_behind (c : Cursor) (boundary : TokenKind) (skip : Bool) :
    (c.behind boundary skip).tokens <:+ c.tokens := by
  have hdrop : Steps {} false ⟨c, {}⟩ ⟨c.advance.dropWhile fun t => !stopsAt boundary t, {}⟩ :=
    Steps.dropWhile _ (.single (.pass _))
  cases skip with
  | true => exact hdrop.pass.isSuffix_tokens
  | false => exact hdrop.isSuffix_tokens

theorem Cursor.upTo_append_tokens {c d : Cursor} (h : d.tokens <:+ c.tokens) :
    c.upTo d ++ d.tokens = c.tokens :=
  List.suffix_iff_eq_append.1 h

namespace Repair

variable {r : Repair} {repairs : List Repair}

/-- A delimiter is dropped that closes something, but not the one that opens it. -/
def Cuts (r : Repair) : Prop :=
  awaiting [] r.dropped = none

instance (r : Repair) : Decidable r.Cuts :=
  inferInstanceAs (Decidable (awaiting [] r.dropped = none))

/-- How the rules repair : a statement up to and with a semicolon, an array up to a bracket, and
parentheses up to a parenthesis. -/
def rules : List (TokenKind × Bool) :=
  [(.semicolon, true), (.rightBracket, false), (.rightParen, false)]

/-- One of the rules makes such a repair. -/
def IsOfRule (r : Repair) : Prop :=
  (r.boundary, r.skip) ∈ rules

/-- Of the tokens, the repair dropped the one that its failure is about and all after it up to the
nearest boundary or the end, and that one too if it was to be skipped. -/
def IsScanOf (r : Repair) (tokens : List Token) : Prop :=
  ∃ i k, tokens[i]?.map Token.span = some r.failure.span ∧
    IsLeast (Cursor.stopsFrom tokens r.boundary (min (i + 1) (tokens.length - 1))) k ∧
    r.dropped =
      (tokens.drop i).take ((if r.skip then min (k + 1) (tokens.length - 1) else k) - i)

theorem isScanOf_behind {c : Cursor} {tokens : List Token} {failure : Diagnostic}
    (hc : c.tokens <:+ tokens) (hend : Ends tokens) (hfailure : failure.span = c.current.span)
    (boundary : TokenKind) (skip : Bool) :
    IsScanOf ⟨failure, boundary, skip, c.upTo (c.behind boundary skip)⟩ tokens := by
  obtain ⟨i, hi⟩ := Cursor.exists_standsAt hc
  obtain ⟨k, hk, hleast⟩ := hi.advance.exists_isLeast hend boundary
  refine ⟨i, k, by rw [hi.getElem?_eq, hfailure]; rfl, hleast, hi.upTo_eq ?_⟩
  cases skip with
  | true => exact hk.advance
  | false => exact hk

/-- Each error that asks for a closing delimiter comes after a repair that cuts. -/
def Excused (repairs : List Repair) : Prop :=
  ∀ before r after, repairs = before ++ r :: after → r.failure.AsksForClosing →
    ∃ q ∈ before, q.Cuts

theorem excused_nil : Excused [] := by
  simp [Excused]

theorem Excused.append (h : Excused repairs)
    (hr : r.failure.AsksForClosing → ∃ q ∈ repairs, q.Cuts) : Excused (repairs ++ [r]) := by
  intro before q after heq hq
  rcases List.eq_nil_or_concat after with rfl | ⟨after, last, rfl⟩
  · obtain ⟨rfl, hlast⟩ := List.append_inj' heq rfl
    obtain rfl : r = q := by simpa using hlast
    exact hr hq
  · rw [List.concat_eq_append, ← List.cons_append, ← List.append_assoc] at heq
    exact h before q after (List.append_inj' heq rfl).1 hq

/-- Without a repair that cuts no error asks for a closing delimiter. -/
theorem Excused.not_asksForClosing (h : Excused repairs) (hcuts : ∀ q ∈ repairs, ¬q.Cuts) :
    ∀ r ∈ repairs, ¬r.failure.AsksForClosing := by
  intro r hr hasks
  obtain ⟨before, after, rfl⟩ := List.append_of_mem hr
  obtain ⟨q, hq, hqcuts⟩ := h before r after rfl hasks
  exact hcuts q (List.mem_append_left _ hq) hqcuts

/-- The first error never asks for a closing delimiter. -/
theorem Excused.head?_not_asksForClosing (h : Excused repairs) :
    ∀ r, repairs.head? = some r → ¬r.failure.AsksForClosing := by
  intro r hr hasks
  obtain ⟨after, rfl⟩ := List.head?_eq_some_iff.1 hr
  obtain ⟨q, hq, -⟩ := h [] r after rfl hasks
  cases hq

end Repair

/-! ## What repairs excuse -/

namespace Parse

/-- A run over the tokens that is not ended has come to `t`. Its errors are those it repaired, and
each that asks for a closing delimiter came after a repair that cuts. As long as there is none, the
tokens ahead close what is awaited. -/
structure Reached (tokens : List Token) (awaited : List TokenKind) (t : ParseState) : Prop where
  ahead : t.cursor.tokens <:+ tokens
  ends : EndsOnce tokens
  running : t.journal.aborted = false
  failures : t.journal.diagnostics = t.journal.repairs.map (·.failure)
  scans : ∀ r ∈ t.journal.repairs, r.IsOfRule ∧ r.IsScanOf tokens
  excused : Repair.Excused t.journal.repairs
  supplies : (∃ q ∈ t.journal.repairs, q.Cuts) ∨ t.cursor.Supplies awaited

/-- The failure can be repaired in the state. -/
structure Failed (tokens : List Token) (awaited : List TokenKind) (d : Diagnostic)
    (t : ParseState) : Prop extends Reached tokens awaited t where
  span_eq : d.span = t.cursor.current.span
  excuse : d.AsksForClosing → ∃ q ∈ t.journal.repairs, q.Cuts

/-- What is awaited in the state that the rule is run from is awaited after it. -/
def Keeps {α : Type} (tokens : List Token) (awaited : List TokenKind) (p : Parse α)
    (t : ParseState) : Prop :=
  Leads p t (fun _ u => Reached tokens awaited u) (fun d u => Failed tokens awaited d u)

section

variable {tokens : List Token} {awaited awaited' : List TokenKind} {d : Diagnostic}
  {t : ParseState}

theorem Reached.endsOnce (h : Reached tokens awaited t) : EndsOnce t.cursor.tokens :=
  h.ends.of_isSuffix h.ahead

theorem Reached.mono (h : Reached tokens awaited t) (hsub : awaited'.Sublist awaited) :
    Reached tokens awaited' t :=
  { h with supplies := h.supplies.imp_right fun hsupplies => hsupplies.mono hsub }

theorem Failed.mono (h : Failed tokens awaited d t) (hsub : awaited'.Sublist awaited) :
    Failed tokens awaited' d t :=
  { h with toReached := h.toReached.mono hsub }

theorem Reached.move (h : Reached tokens awaited t) {c : Cursor}
    (hc : c.tokens <:+ t.cursor.tokens)
    (hsupplies : (∃ q ∈ t.journal.repairs, q.Cuts) ∨ c.Supplies awaited') :
    Reached tokens awaited' ⟨c, t.journal⟩ :=
  { h with ahead := hc.trans h.ahead, supplies := hsupplies }

theorem Reached.pass (h : Reached tokens awaited t)
    (hnest : t.cursor.current.kind.nest awaited = some awaited') :
    Reached tokens awaited' { t with cursor := t.cursor.advance } :=
  h.move (isSuffix_tokens_advance _)
    (h.supplies.imp_right fun hsupplies => hsupplies.advance h.endsOnce hnest)

/-- To look a name up writes no failure down. -/
theorem Reached.resolve (h : Reached tokens awaited t) (v : Vocabulary) (u next : Token) :
    Reached tokens awaited ⟨t.cursor, (t.journal.resolve v u next).2⟩ := by
  have hrepairs : (t.journal.resolve v u next).2.repairs = t.journal.repairs := by
    rw [journal_resolve, Journal.repairs_writeAll]
  refine ⟨h.ahead, h.ends, ?_, ?_, hrepairs ▸ h.scans, hrepairs ▸ h.excused, hrepairs ▸ h.supplies⟩
  · rw [journal_resolve, Journal.aborted_writeAll, h.running]
  · rw [diagnostics_resolve, hrepairs, h.failures]

theorem Reached.name (h : Reached tokens awaited t) (hk : t.cursor.current.kind = .identifier)
    (v : Vocabulary) : Reached tokens awaited ⟨t.cursor.advance,
      (t.journal.resolve v t.cursor.current t.cursor.advance.current).2⟩ :=
  (h.pass (by rw [hk]; rfl)).resolve v _ _

theorem Reached.seek {p : Token → Bool} {j : Journal}
    (hp : ∀ t, p t = true → t.kind.nest awaited = some awaited) :
    ∀ {c : Token} {rest : List Token}, Reached tokens awaited ⟨⟨c, rest⟩, j⟩ →
      Reached tokens awaited ⟨Cursor.seek p c rest, j⟩
  | _, [], h => h
  | c, d :: rest, h => by
    rw [Cursor.seek]
    split_ifs with hc
    · exact Reached.seek hp (h.pass (hp c hc))
    · exact h

/-- A rule may fail on the end by asking for a delimiter only if that delimiter is awaited : then a
repair has cut. -/
theorem Reached.fail (h : Reached tokens awaited t) {expected : String}
    (hexpected : expected ∉ closings ∨ awaited ≠ []) :
    Failed tokens awaited (t.cursor.current.unexpected expected) t := by
  refine ⟨h, rfl, fun hasks => ?_⟩
  obtain ⟨hk, hclosing⟩ := ending_of_asksForClosing hasks
  refine h.supplies.resolve_right fun hsupplies => ?_
  exact hexpected.elim (fun hnot => hnot hclosing) fun hne => hne (hsupplies.eq_nil h.endsOnce hk)

theorem Reached.keeps_fail {α : Type} (h : Reached tokens awaited t) {expected : String}
    (hexpected : expected ∉ closings) :
    Keeps tokens awaited (Parse.fail expected : Parse α) t :=
  h.fail (.inl hexpected)

/-- A repair that does not cut drops no delimiter that is awaited. -/
theorem Failed.recover (h : Failed tokens awaited d t) {boundary : TokenKind} {skip : Bool}
    (hrule : (boundary, skip) ∈ Repair.rules) :
    Keeps tokens awaited (Parse.recover false d boundary skip) t := by
  let next := t.cursor.behind boundary skip
  let r : Repair := ⟨d, boundary, skip, t.cursor.upTo next⟩
  have hnext : next.tokens <:+ t.cursor.tokens := t.cursor.isSuffix_behind boundary skip
  have hscan : r.IsScanOf tokens := Repair.isScanOf_behind h.ahead h.ends.ends h.span_eq _ _
  rw [Keeps, leads_recover, h.running]
  refine ⟨hnext.trans h.ahead, h.ends, h.running, ?_, ?_, h.excused.append h.excuse, ?_⟩
  · exact (Journal.diagnostics_repaired _ r).trans (by simp [Journal.repaired, r, h.failures])
  · exact List.forall_mem_append.2 ⟨h.scans, List.forall_mem_singleton.2 ⟨hrule, hscan⟩⟩
  · by_cases hcuts : r.Cuts
    · exact .inl ⟨r, List.mem_append_right _ (List.mem_singleton_self r), hcuts⟩
    · refine h.supplies.imp (fun ⟨q, hq, hqcuts⟩ => ⟨q, List.mem_append_left _ hq, hqcuts⟩) ?_
      exact fun hsupplies => hsupplies.drop (Cursor.upTo_append_tokens hnext).symm hcuts

theorem Keeps.bind {α β : Type} {p : Parse α} {f : α → Parse β} (h : Keeps tokens awaited p t)
    (hsub : awaited'.Sublist awaited)
    (hf : ∀ a u, Reached tokens awaited u → Keeps tokens awaited' (f a) u) :
    Keeps tokens awaited' (p >>= f) t :=
  (leads_bind f).2 (h.mono hf fun _ _ hfailed => hfailed.mono hsub)

end

end Parse

namespace Grammar

variable {v : Vocabulary} {fuel : Nat} {t : ParseState} {tokens : List Token}
  {awaited : List TokenKind}

/-! ## Rules without recursion -/

theorem keeps_passName (h : Reached tokens awaited t) (hk : t.cursor.current.kind = .identifier) :
    Keeps tokens awaited (passName v) t := by
  rw [Keeps, passName]
  simp only [leads_bind, leads_advance, leads_resolve, leads_pure]
  exact h.name hk v

theorem keeps_privateMark (h : Reached tokens awaited t) :
    Keeps tokens awaited (privateMark v (atPrivate t.cursor)) t := by
  rw [privateMark]
  split_ifs with hp
  · exact (keeps_passName h (kind_of_atPrivate hp)).bind (.refl _) fun _ _ hu => hu
  · exact h

theorem keeps_passCommand {p : Nat} (h : Reached tokens awaited t)
    (hp : v.precedence? t.cursor.current = some p) :
    Keeps tokens awaited (passCommand v t.cursor.current) t := by
  rw [passCommand]
  split_ifs with hk
  · exact keeps_passName h hk
  · refine h.pass ?_
    cases ht : t.cursor.current.kind <;> simp_all [Vocabulary.precedence?, TokenKind.nest]

theorem nest_of_isSeparator {u : Token} (hu : Cursor.isSeparator u = true) :
    u.kind.nest awaited = some awaited := by
  obtain hk | hk : u.kind = .semicolon ∨ u.kind = .comma := by
    simpa [Cursor.isSeparator] using hu
  · rw [hk]
    rfl
  · rw [hk]
    rfl

theorem keeps_statementEnd (h : Reached tokens awaited t) (close : TokenKind) :
    Keeps tokens awaited (statementEnd close) t := by
  rw [Keeps, statementEnd]
  simp only [leads_bind, leads_peek]
  split_ifs with hseparator
  · exact h.pass (nest_of_isSeparator hseparator)
  · exact h
  · exact h.fail (.inl (by decide))

/-- An argument list is closed, unless a repair has cut. -/
theorem keeps_arguments (h : Reached tokens awaited t) (hk : t.cursor.current.kind = .leftParen) :
    Keeps tokens awaited arguments t := by
  have hsteps : Steps {} false t
      ⟨(Cursor.skipArguments 0 t.cursor.current t.cursor.rest).1, t.journal⟩ :=
    Steps.skipArguments .refl
  have hpassed := hsteps.isSuffix_tokens
  have hsupplies : (∃ q ∈ t.journal.repairs, q.Cuts) ∨ ∃ d span,
      Cursor.skipArguments 0 t.cursor.current t.cursor.rest = (d, some span) ∧
        d.Supplies awaited :=
    h.supplies.imp_right fun hsupplies => hsupplies.exists_skipArguments h.endsOnce hk
  rw [Keeps, leads_arguments]
  split
  · next cursor span hskip =>
    rw [hskip] at hpassed hsupplies
    refine h.move hpassed (hsupplies.imp_right ?_)
    rintro ⟨d, _, heq, hd⟩
    cases heq
    exact hd
  · next cursor hskip =>
    rw [hskip] at hpassed hsupplies
    have hcut : ∃ q ∈ t.journal.repairs, q.Cuts := hsupplies.resolve_right (by simp)
    exact ⟨h.move hpassed (.inl hcut), rfl, fun _ => hcut⟩

theorem keeps_expansion (h : Reached tokens awaited t) (name : Token) :
    Keeps tokens awaited (expansion (false : Bool) name) t := by
  rw [Keeps, expansion]
  simp only [leads_bind, leads_peek]
  split_ifs with hk
  · exact (keeps_arguments h hk).bind (.refl _) fun _ _ hu => hu
  · exact h

theorem keeps_closingParen (h : Reached tokens (.rightParen :: awaited) t) :
    Keeps tokens awaited closingParen t := by
  rw [Keeps, closingParen]
  simp only [leads_bind, leads_peek]
  split_ifs with hk
  · exact h.pass (by simp [hk, TokenKind.nest])
  · exact h.mono (List.sublist_cons_self _ _)

theorem keeps_parenInner {outcome : Except Diagnostic Expr}
    (h : Reached tokens (.rightParen :: awaited) t)
    (hfailed : ∀ d, outcome = .error d → Failed tokens (.rightParen :: awaited) d t) :
    Keeps tokens (.rightParen :: awaited) (parenInner false outcome) t := by
  cases outcome with
  | ok inner =>
    rw [Keeps, parenInner]
    simp only [leads_bind, leads_peek]
    split_ifs
    · exact h
    · have hfailed : Failed tokens (.rightParen :: awaited)
          (t.cursor.current.unexpected "')'") t := h.fail (.inr (List.cons_ne_nil _ _))
      exact (hfailed.recover (by decide)).bind (.refl _) fun _ _ hu => hu
  | error failure =>
    exact ((hfailed failure rfl).recover (by decide)).bind (.refl _) fun _ _ hu => hu

/-! ## All rules -/

/-- With the given budget, every rule closes what it opens, and leaves open what was open before. -/
structure Closes (v : Vocabulary) (tokens : List Token) (fuel : Nat) : Prop where
  statements {t : ParseState} {awaited : List TokenKind} (h : Reached tokens awaited t)
    (close : TokenKind) : Keeps tokens awaited (statements v false fuel close) t
  statement {t : ParseState} {awaited : List TokenKind} (h : Reached tokens awaited t)
    (close : TokenKind) : Keeps tokens awaited (statement v false fuel close) t
  statementBody {t : ParseState} {awaited : List TokenKind} (h : Reached tokens awaited t)
    (isPrivate : Bool) : Keeps tokens awaited (statementBody v false fuel isPrivate) t
  expression {t : ParseState} {awaited : List TokenKind} (h : Reached tokens awaited t)
    (least : Nat) : Keeps tokens awaited (expression v false fuel least) t
  operations {t : ParseState} {awaited : List TokenKind} (h : Reached tokens awaited t)
    (least : Nat) (left : Expr) : Keeps tokens awaited (operations v false fuel least left) t
  operand {t : ParseState} {awaited : List TokenKind} (h : Reached tokens awaited t) :
    Keeps tokens awaited (operand v false fuel) t
  named {t : ParseState} {awaited : List TokenKind} (h : Reached tokens awaited t)
    (hk : t.cursor.current.kind = .identifier) : Keeps tokens awaited (named v false fuel) t
  array {t : ParseState} {awaited : List TokenKind} (h : Reached tokens awaited t)
    (hk : t.cursor.current.kind = .leftBracket) : Keeps tokens awaited (array v false fuel) t
  elements {t : ParseState} {awaited : List TokenKind}
    (h : Reached tokens (.rightBracket :: awaited) t) :
    Keeps tokens awaited (elements v false fuel) t
  moreElements {t : ParseState} {awaited : List TokenKind} {failure : Diagnostic}
    (h : Failed tokens (.rightBracket :: awaited) failure t) :
    Keeps tokens awaited (moreElements v false fuel failure) t
  code {t : ParseState} {awaited : List TokenKind} (h : Reached tokens awaited t)
    (hk : t.cursor.current.kind = .leftBrace) : Keeps tokens awaited (code v false fuel) t
  paren {t : ParseState} {awaited : List TokenKind} (h : Reached tokens awaited t)
    (hk : t.cursor.current.kind = .leftParen) : Keeps tokens awaited (paren v false fuel) t

namespace Closes

variable (ih : Closes v tokens fuel)
include ih

theorem statements_succ (h : Reached tokens awaited t) (close : TokenKind) :
    Keeps tokens awaited (Grammar.statements v false (fuel + 1) close) t := by
  rw [Keeps, Grammar.statements]
  simp only [leads_bind, leads_move, leads_peek]
  have hd : Reached tokens awaited ⟨t.cursor.dropWhile Cursor.isSeparator, t.journal⟩ :=
    h.seek fun _ => nest_of_isSeparator
  split_ifs
  · exact hd
  rw [leads_bind, leads_attempt]
  refine (ih.statement hd close).mono (fun st u hu => ?_) fun d u hu => ?_
  · exact (ih.statements hu close).bind (.refl _) fun _ _ hw => hw
  · refine (hu.recover (by decide)).bind (.refl _) fun stop w hw => ?_
    split_ifs
    · exact hw
    · exact ih.statements hw close

theorem statement_succ (h : Reached tokens awaited t) (close : TokenKind) :
    Keeps tokens awaited (Grammar.statement v false (fuel + 1) close) t := by
  rw [Keeps, Grammar.statement, leads_bind, leads_cursor]
  refine (keeps_privateMark h).bind (.refl _) fun _ u hu => ?_
  refine (ih.statementBody hu _).bind (.refl _) fun st w hw => ?_
  exact (keeps_statementEnd hw close).bind (.refl _) fun _ _ hx => hx

theorem statementBody_succ (h : Reached tokens awaited t) (isPrivate : Bool) :
    Keeps tokens awaited (Grammar.statementBody v false (fuel + 1) isPrivate) t := by
  rw [Keeps, Grammar.statementBody, leads_bind, leads_cursor]
  split_ifs with ha
  · simp only [passName, leads_bind, leads_advance, leads_resolve, leads_pure]
    have hassign : t.cursor.advance.current.kind = .assign := by
      simp only [atAssignment, Bool.and_eq_true, decide_eq_true_eq] at ha
      exact ha.2
    have hname := h.name (kind_of_atAssignment ha) v
    exact (ih.expression (hname.pass (by rw [hassign]; rfl)) 0).mono (fun _ _ hw => hw)
      fun _ _ hw => hw
  · refine (ih.expression h 0).bind (.refl _) fun e u hu => ?_
    rw [Keeps, leads_bind, leads_peek]
    split_ifs with hassign
    · rw [leads_bind, leads_advance]
      simp only [Bool.and_eq_true, decide_eq_true_eq] at hassign
      exact (ih.expression (hu.pass (by rw [hassign.1]; rfl)) 0).bind (.refl _) fun _ _ hw => hw
    · exact hu

theorem expression_succ (h : Reached tokens awaited t) (least : Nat) :
    Keeps tokens awaited (Grammar.expression v false (fuel + 1) least) t := by
  rw [Grammar.expression]
  exact (ih.operand h).bind (.refl _) fun left u hu => ih.operations hu least left

theorem operations_succ (h : Reached tokens awaited t) (least : Nat) (left : Expr) :
    Keeps tokens awaited (Grammar.operations v false (fuel + 1) least left) t := by
  rw [Keeps, Grammar.operations, leads_bind, leads_peek]
  split
  · exact h
  next p hp =>
  split_ifs
  · exact h
  refine (keeps_passCommand h hp).bind (.refl _) fun op u hu => ?_
  refine (ih.expression hu _).bind (.refl _) fun right w hw => ?_
  exact ih.operations hw least _

theorem operand_succ (h : Reached tokens awaited t) :
    Keeps tokens awaited (Grammar.operand v false (fuel + 1)) t := by
  rw [Keeps, Grammar.operand, leads_bind, leads_peek]
  split_ifs with hsign
  · have hk : t.cursor.current.kind = .operator := by
      simp only [Token.isSign, Token.isOperator, Bool.or_eq_true, Bool.and_eq_true,
        decide_eq_true_eq] at hsign
      tauto
    rw [leads_bind, leads_advance]
    exact (ih.operand (h.pass (by rw [hk]; rfl))).bind (.refl _) fun _ _ hu => hu
  split
  · next hk => exact ih.named h hk
  · next hk => exact h.pass (by rw [hk]; rfl)
  · next hk => exact h.pass (by rw [hk]; rfl)
  · next hk => exact ih.array h hk
  · next hk => exact ih.code h hk
  · next hk => exact ih.paren h hk
  · exact h.fail (.inl (by decide))

theorem named_succ (h : Reached tokens awaited t) (hk : t.cursor.current.kind = .identifier) :
    Keeps tokens awaited (Grammar.named v false (fuel + 1)) t := by
  rw [Keeps, Grammar.named, leads_bind, leads_advance, leads_bind, leads_resolve]
  have hn := h.name hk v
  split
  · rw [leads_bind, leads_peek]
    split_ifs
    · exact (ih.operand hn).bind (.refl _) fun _ _ hu => hu
    · exact hn
  · exact keeps_expansion hn _
  · exact hn
  · exact hn

theorem array_succ (h : Reached tokens awaited t) (hk : t.cursor.current.kind = .leftBracket) :
    Keeps tokens awaited (Grammar.array v false (fuel + 1)) t := by
  rw [Keeps, Grammar.array, leads_bind, leads_advance]
  exact (ih.elements (h.pass (by rw [hk]; rfl))).bind (.refl _) fun _ _ hu => hu

theorem elements_succ (h : Reached tokens (.rightBracket :: awaited) t) :
    Keeps tokens awaited (Grammar.elements v false (fuel + 1)) t := by
  have hsub : awaited.Sublist (.rightBracket :: awaited) := List.sublist_cons_self _ _
  rw [Keeps, Grammar.elements, leads_bind, leads_peek]
  split
  · next hk => exact h.pass (by simp [hk, TokenKind.nest])
  · exact (h.fail (.inr (List.cons_ne_nil _ _))).mono hsub
  rw [leads_bind, leads_attempt]
  refine (ih.expression h 0).mono (fun e u hu => ?_) fun d u hu => ?_
  · rw [leads_bind, leads_peek]
    dsimp only
    split
    · next hk =>
      rw [leads_bind, leads_advance]
      exact (ih.elements (hu.pass (by rw [hk]; rfl))).bind (.refl _) fun _ _ hw => hw
    · next hk => exact hu.pass (by simp [hk, TokenKind.nest])
    · have hfailed : Failed tokens (.rightBracket :: awaited)
          (u.cursor.current.unexpected "',' or ']'") u := hu.fail (.inr (List.cons_ne_nil _ _))
      exact (ih.moreElements hfailed).bind (.refl _) fun _ _ hw => hw
  · exact ih.moreElements hu

theorem moreElements_succ {failure : Diagnostic}
    (h : Failed tokens (.rightBracket :: awaited) failure t) :
    Keeps tokens awaited (Grammar.moreElements v false (fuel + 1) failure) t := by
  have hsub : awaited.Sublist (.rightBracket :: awaited) := List.sublist_cons_self _ _
  rw [Grammar.moreElements]
  refine (h.recover (by decide)).bind hsub fun stop u hu => ?_
  split_ifs
  · exact hu.mono hsub
  · exact ih.elements hu

theorem code_succ (h : Reached tokens awaited t) (hk : t.cursor.current.kind = .leftBrace) :
    Keeps tokens awaited (Grammar.code v false (fuel + 1)) t := by
  have hsub : awaited.Sublist (.rightBrace :: awaited) := List.sublist_cons_self _ _
  have hopen : Reached tokens (.rightBrace :: awaited) { t with cursor := t.cursor.advance } :=
    h.pass (by rw [hk]; rfl)
  rw [Keeps, Grammar.code, leads_bind, leads_advance]
  refine (ih.statements hopen .rightBrace).bind hsub fun body u hu => ?_
  rw [Keeps, leads_bind, leads_expect]
  split_ifs with hclose
  · exact hu.pass (by simp [hclose, TokenKind.nest])
  · exact (hu.fail (.inr (List.cons_ne_nil _ _))).mono hsub

theorem paren_succ (h : Reached tokens awaited t) (hk : t.cursor.current.kind = .leftParen) :
    Keeps tokens awaited (Grammar.paren v false (fuel + 1)) t := by
  have hsub : awaited.Sublist (.rightParen :: awaited) := List.sublist_cons_self _ _
  have hopen : Reached tokens (.rightParen :: awaited) { t with cursor := t.cursor.advance } :=
    h.pass (by rw [hk]; rfl)
  have hclose : ∀ {outcome u}, Reached tokens (.rightParen :: awaited) u →
      (∀ d, outcome = Except.error d → Failed tokens (.rightParen :: awaited) d u) →
      Keeps tokens awaited (do
        let inner ← parenInner false outcome
        let close ← closingParen
        return Expr.paren inner (t.cursor.current.span.through close)) u := by
    intro outcome u hu hfailed
    refine (keeps_parenInner hu hfailed).bind hsub fun inner w hw => ?_
    exact (keeps_closingParen hw).bind (.refl _) fun _ _ hx => hx
  rw [Keeps, Grammar.paren, leads_bind, leads_advance, leads_bind, leads_attempt]
  refine (ih.expression hopen 0).mono (fun e u hu => ?_) fun d u hu => ?_
  · exact hclose hu (by simp)
  · refine hclose hu.toReached fun d' hd' => ?_
    cases hd'
    exact hu

end Closes

/-- Every rule closes what it opens, whatever its budget. -/
theorem closes_all (v : Vocabulary) (tokens : List Token) : ∀ fuel, Closes v tokens fuel
  | 0 =>
    { statements h _ := h.keeps_fail (by decide)
      statement h _ := h.keeps_fail (by decide)
      statementBody h _ := h.keeps_fail (by decide)
      expression h _ := h.keeps_fail (by decide)
      operations h _ _ := h.keeps_fail (by decide)
      operand h := h.keeps_fail (by decide)
      named h _ := h.keeps_fail (by decide)
      array h _ := h.keeps_fail (by decide)
      elements h := (h.mono (List.sublist_cons_self _ _)).keeps_fail (by decide)
      moreElements h := (h.toReached.mono (List.sublist_cons_self _ _)).keeps_fail (by decide)
      code h _ := h.keeps_fail (by decide)
      paren h _ := h.keeps_fail (by decide) }
  | fuel + 1 =>
    have ih := closes_all v tokens fuel
    { statements := ih.statements_succ
      statement := ih.statement_succ
      statementBody := ih.statementBody_succ
      expression := ih.expression_succ
      operations := ih.operations_succ
      operand := ih.operand_succ
      named := ih.named_succ
      array := ih.array_succ
      elements := ih.elements_succ
      moreElements := ih.moreElements_succ
      code := ih.code_succ
      paren := ih.paren_succ }

end Grammar

/-- A text whose delimiters are nested is read by a run that repairs failures. Its errors are those
of its repairs, each made by the rule for statements, for arrays or for parentheses, and each with
the tokens from the failure to the nearest boundary dropped. Every error at the end of the text that
asks for a closing delimiter comes after a repair that dropped a closing delimiter but not the one
that opens it. So the first error is never one of these, and if no repair drops such a delimiter
there is none. -/
theorem closing_read (catalogue : Catalogue) (ledger : Ledger) (source : String)
    (hsource : Balanced (Token.scan source)) :
    let tokens := Token.scan source
    let run := Script.read ⟨catalogue, ledger⟩ false tokens {}
    let repairs := run.2.repairs
    (∃ script, run.1 = .ok script) ∧
    run.2.errors = repairs.map (·.failure) ∧
    (∀ r ∈ repairs, r.IsOfRule ∧ r.IsScanOf tokens) ∧
    (∀ before r after, repairs = before ++ r :: after → r.failure.AsksForClosing →
      ∃ q ∈ before, q.Cuts) ∧
    (∀ d, run.2.errors.head? = some d → ¬d.AsksForClosing) ∧
    ((∀ q ∈ repairs, ¬q.Cuts) → ∀ d ∈ run.2.errors, ¬d.AsksForClosing) := by
  intro tokens run repairs
  let v : Vocabulary := ⟨catalogue, ledger⟩
  let start : ParseState := ⟨.ofTokens tokens, {}⟩
  have htokens : start.cursor.tokens = tokens := Cursor.tokens_ofTokens_scan source
  have hends : EndsOnce start.cursor.tokens := Cursor.endsOnce_ofTokens_scan source
  obtain ⟨script, last, hrule, hread, -⟩ := Script.exists_rule_repair v (j := {}) hends rfl
  have hstart : Reached tokens [] start :=
    ⟨htokens ▸ List.suffix_refl _, htokens ▸ hends, rfl, rfl, by simp [start], Repair.excused_nil,
      .inr (Cursor.supplies_of_balanced (htokens ▸ hsource))⟩
  have hkeeps : Keeps tokens [] (Script.rule v false (Script.budget tokens)) start := by
    rw [Script.rule, Keeps, leads_bind, leads_peek]
    exact ((closes_all v tokens _).statements hstart .endOfInput).bind (.refl _) fun _ _ hu => hu
  have hlast : Reached tokens [] last := hkeeps.of_ok hrule
  have hrun : run = (.ok script, last.journal) := hread
  have hrepairs : repairs = last.journal.repairs := congrArg (·.2.repairs) hrun
  have hscans : ∀ r ∈ repairs, r.IsOfRule ∧ r.IsScanOf tokens := hrepairs ▸ hlast.scans
  have hexcused : Repair.Excused repairs := hrepairs ▸ hlast.excused
  have herrors : run.2.errors = repairs.map (·.failure) := by
    have hdiagnostics : run.2.diagnostics = repairs.map (·.failure) := by
      rw [hrepairs, hrun, hlast.failures]
    rw [Journal.errors, hdiagnostics]
    refine List.filter_eq_self.2 fun d hd => ?_
    exact (Script.mem_diagnostics_read (hdiagnostics ▸ hd)).2
  refine ⟨⟨script, congrArg Prod.fst hrun⟩, herrors, hscans, hexcused, fun d hd => ?_,
    fun hcuts d hd => ?_⟩
  · rw [herrors, List.head?_map] at hd
    obtain ⟨r, hr, rfl⟩ := Option.map_eq_some_iff.1 hd
    exact hexcused.head?_not_asksForClosing r hr
  · rw [herrors] at hd
    obtain ⟨r, hr, rfl⟩ := List.mem_map.1 hd
    exact hexcused.not_asksForClosing hcuts r hr

/-- A character that is no token, in braces : the repair drops the brace that closes them, and then
the text ends where it should stand. -/
theorem balanced_closing_missing :
    let source := "\x7b ? \x7d"
    Balanced (Token.scan source) ∧
      ∃ d ∈ (Script.read {} false (Token.scan source) {}).2.errors, d.AsksForClosing := by
  decide +kernel

/-- That text has two errors. The repair of the first one cuts, as it drops the brace, and nothing
is left to be dropped by the other. -/
theorem closing_read_braces :
    let source := "\x7b ? \x7d"
    let tokens := Token.scan source
    let run := Script.read {} false tokens {}
    Balanced tokens ∧
      run.2.errors.map Diagnostic.message =
        ["unexpected character '?'", "unexpected end of input, expected '\x7d'"] ∧
      run.2.repairs.map (fun r => (r.boundary, r.dropped.map Token.text)) =
        [(.semicolon, ["?", "\x7d"]), (.semicolon, [])] ∧
      ∃ q ∈ run.2.repairs.take 1, q.Cuts := by
  intro source tokens run
  have hbalanced : Balanced tokens := by decide +kernel
  have hdropped : run.2.repairs.map (fun r => (r.boundary, r.dropped.map Token.text)) =
      [(.semicolon, ["?", "\x7d"]), (.semicolon, [])] := by
    decide +kernel
  have hmessages : run.2.errors.map Diagnostic.message =
      ["unexpected character '?'", "unexpected end of input, expected '\x7d'"] := by
    decide +kernel
  obtain ⟨-, herrors, -, hexcused, -, -⟩ := closing_read {} {} source hbalanced
  replace herrors : run.2.errors = run.2.repairs.map (·.failure) := herrors
  obtain ⟨first, second, hrepairs⟩ : ∃ first second, run.2.repairs = [first, second] :=
    List.length_eq_two.1 (by simpa using congrArg List.length hdropped)
  refine ⟨hbalanced, hmessages, hdropped, ?_⟩
  rw [herrors, hrepairs] at hmessages
  have hsecond : second.failure.AsksForClosing :=
    ⟨"'\x7d'", by decide, (List.cons.inj (List.cons.inj hmessages).2).1⟩
  rw [hrepairs]
  exact hexcused [first] second [] hrepairs hsecond

/-- With a semicolon in front of the brace the repair does not reach it. -/
example : ((Script.read {} false (Token.scan "\x7b ? ; \x7d") {}).2.repairs.map
    fun r => (r.dropped.map Token.text, decide r.Cuts)) = [(["?", ";"], false)] := by
  decide +kernel

end SqfCheck
