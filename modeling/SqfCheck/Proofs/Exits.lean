import SqfCheck.Proofs.Outcome

/-!
# Exits that no run takes

Three things must not happen while tokens are read : a rule that there is no budget for is
called, a parenthesis is closed in an argument list that has none open, and a failure is repaired
while the cursor is not on the token that the failure is about. `Exits` says what would be done
then, and `Exits.mode` is the mode in which the rules take these exits.

`Exits.agrees` shows that the exits do not matter : with a budget of six for each token ahead and
a few more, all runs of a call end in the same way, whatever the exits are and however large the
budget is. A call only makes calls that have less ahead, or as much and a lower rank
(`Grammar.Call.need`), for whatever a rule gives it has passed a token (`Grammar.gives_operand`)
and a repair drops one (`Parse.gives_recover_lt`).
-/

namespace SqfCheck

/-! ## Cursors that come to an end -/

/-- The last of the tokens is the end. -/
def Ends (tokens : List Token) : Prop :=
  ∀ t, [t] <:+ tokens → t.kind = .endOfInput

namespace Ends

theorem of_isSuffix {tokens later : List Token} (h : Ends tokens) (hs : later <:+ tokens) :
    Ends later :=
  fun t ht => h t (ht.trans hs)

variable {c : Cursor}

theorem rest_ne_nil (h : Ends c.tokens) (hk : c.current.kind ≠ .endOfInput) : c.rest ≠ [] := by
  intro hrest
  have htokens : c.tokens = [c.current] := by rw [Cursor.tokens, hrest]
  exact hk (h c.current (htokens ▸ List.suffix_refl _))

/-- On a token that is not the end a cursor moves. -/
theorem length_advance_lt (h : Ends c.tokens) (hk : c.current.kind ≠ .endOfInput) :
    c.advance.rest.length < c.rest.length := by
  obtain ⟨t, ts, hrest⟩ := List.exists_cons_of_ne_nil (h.rest_ne_nil hk)
  simp [Cursor.advance, hrest]

end Ends

/-- The last of the tokens is the end, and no other is. -/
def EndsOnce (tokens : List Token) : Prop :=
  ∀ t ts, t :: ts <:+ tokens → (t.kind = .endOfInput ↔ ts = [])

namespace EndsOnce

theorem ends {tokens : List Token} (h : EndsOnce tokens) : Ends tokens :=
  fun t ht => (h t [] ht).2 rfl

theorem of_isSuffix {tokens later : List Token} (h : EndsOnce tokens) (hs : later <:+ tokens) :
    EndsOnce later :=
  fun t ts ht => h t ts (ht.trans hs)

variable {c : Cursor}

theorem rest_eq_nil_iff (h : EndsOnce c.tokens) : c.current.kind = .endOfInput ↔ c.rest = [] :=
  h c.current c.rest (List.suffix_refl _)

/-- On the end a cursor stays. -/
theorem advance_eq (h : EndsOnce c.tokens) (hk : c.current.kind = .endOfInput) :
    c.advance = c := by
  simp [Cursor.advance, h.rest_eq_nil_iff.1 hk]

end EndsOnce

namespace Parse

variable {α β : Type} {v : Vocabulary} {strict : Bool} {s t : ParseState}

theorem Steps.length_rest_le (h : Steps v strict s t) :
    t.cursor.rest.length ≤ s.cursor.rest.length := by
  have hle := h.isSuffix_tokens.length_le
  simpa [Cursor.tokens] using hle

theorem Steps.ends (h : Steps v strict s t) (hs : Ends s.cursor.tokens) :
    Ends t.cursor.tokens :=
  hs.of_isSuffix h.isSuffix_tokens

theorem Steps.endsOnce (h : Steps v strict s t) (hs : EndsOnce s.cursor.tokens) :
    EndsOnce t.cursor.tokens :=
  hs.of_isSuffix h.isSuffix_tokens

theorem length_rest_dropWhile_le (p : Token → Bool) (c : Cursor) :
    (c.dropWhile p).rest.length ≤ c.rest.length := by
  have hsteps : Steps {} false ⟨c, {}⟩ ⟨c.dropWhile p, {}⟩ := Steps.dropWhile p .refl
  exact hsteps.length_rest_le

theorem length_rest_advance_le (c : Cursor) : c.advance.rest.length ≤ c.rest.length := by
  have hsteps : Steps {} false ⟨c, {}⟩ ⟨c.advance, {}⟩ := .single (.pass _)
  exact hsteps.length_rest_le

/-- A repair drops a token, or ends on the end. -/
theorem gives_recover_lt (hs : Ends s.cursor.tokens) (failure : Diagnostic)
    (boundary : TokenKind) (skip : Bool) :
    Gives (recover strict failure boundary skip) s fun stop u =>
      stop = .endOfInput ∨ u.cursor.rest.length < s.cursor.rest.length := by
  rw [Gives, leads_recover]
  split
  · trivial
  split
  · trivial
  cases hrest : s.cursor.rest with
  | nil =>
    left
    have hstay : s.cursor.advance = s.cursor := by simp [Cursor.advance, hrest]
    have hstop : s.cursor.dropWhile (fun t => !stopsAt boundary t) = s.cursor := by
      rw [Cursor.dropWhile, hrest, Cursor.seek, ← hrest]
    have htokens : s.cursor.tokens = [s.cursor.current] := by rw [Cursor.tokens, hrest]
    rw [hstay, hstop]
    exact hs _ (htokens ▸ List.suffix_refl _)
  | cons t ts =>
    right
    have hadvance : s.cursor.advance.rest.length < (t :: ts).length := by
      simp [Cursor.advance, hrest]
    have hdrop := length_rest_dropWhile_le (fun t => !stopsAt boundary t) s.cursor.advance
    cases skip with
    | false => exact Nat.lt_of_le_of_lt hdrop hadvance
    | true =>
      exact Nat.lt_of_le_of_lt (Nat.le_trans (length_rest_advance_le _) hdrop) hadvance

/-! ## Rules that do the same in a state -/

/-- Two rules that follow others do the same if the others do, and they after them. -/
theorem bind_eq {p q : Parse α} {f g : α → Parse β} (h : p s = q s)
    (hf : Gives q s fun a t => f a t = g a t) : (p >>= f) s = (q >>= g) s := by
  rw [show (p >>= f) s = EStateM.bind p f s from rfl,
    show (q >>= g) s = EStateM.bind q g s from rfl, EStateM.bind, EStateM.bind, h]
  unfold Gives Leads at hf
  cases hq : q s with
  | ok a t => rw [hq] at hf; exact hf
  | error d t => rfl

theorem bind_eq_left {p q : Parse α} (f : α → Parse β) (h : p s = q s) :
    (p >>= f) s = (q >>= f) s := by
  rw [show (p >>= f) s = EStateM.bind p f s from rfl,
    show (q >>= f) s = EStateM.bind q f s from rfl, EStateM.bind, EStateM.bind, h]

/-- Two rules that look at how others ended do the same if the others do, and they after them,
whether the others fail or not. -/
theorem bind_attempt_eq {p q : Parse α} {f g : Except Diagnostic α → Parse β} (h : p s = q s)
    (hf : Leads q s (fun a t => f (.ok a) t = g (.ok a) t)
      fun d t => f (.error d) t = g (.error d) t) :
    (attempt p >>= f) s = (attempt q >>= g) s := by
  refine bind_eq ?_ (leads_attempt.2 hf)
  rw [attempt, attempt, h]

end Parse

/-! ## Guards -/

/-- `Cursor.skipArguments` with a count of open parentheses that does not go below zero : there is
no result if a parenthesis is closed while none is open. -/
def Cursor.skipArguments? (depth : Nat) (t : Token) : List Token → Option (Cursor × Option Span)
  | [] => some (⟨t, []⟩, none)
  | u :: us =>
    match t.kind with
    | .leftParen => skipArguments? (depth + 1) u us
    | .rightParen =>
      match depth with
      | 0 => none
      | 1 => some (⟨u, us⟩, some t.span)
      | d + 2 => skipArguments? (d + 1) u us
    | .endOfInput => some (⟨t, u :: us⟩, none)
    | _ => skipArguments? depth u us

/-- Between a parenthesis that opens and the one that closes it, some parenthesis is open. -/
theorem Cursor.skipArguments?_eq :
    ∀ {depth : Nat} {t : Token} {ts : List Token}, 0 < depth ∨ t.kind = .leftParen →
      skipArguments? depth t ts = some (skipArguments depth t ts)
  | _, _, [], _ => rfl
  | depth, t, u :: us, h => by
    unfold skipArguments? skipArguments
    have hpos : t.kind ≠ .leftParen → 0 < depth := h.resolve_right
    cases hk : t.kind with
    | leftParen => exact skipArguments?_eq (.inl (Nat.succ_pos depth))
    | rightParen =>
      rcases depth with _ | _ | d
      · exact absurd (hpos (by simp [hk])) (Nat.lt_irrefl 0)
      · rfl
      · exact skipArguments?_eq (.inl (Nat.succ_pos d))
    | endOfInput => rfl
    | _ => exact skipArguments?_eq (.inl (hpos (by simp [hk])))

namespace Grammar

open Parse

/-- The rule that is called, in a mode and with a budget. -/
def Call.rule (v : Vocabulary) (m : Mode) (fuel : Nat) : ∀ {α : Type}, Call α → Parse α
  | _, .statements close => Grammar.statements v m fuel close
  | _, .statement close => Grammar.statement v m fuel close
  | _, .statementBody isPrivate => Grammar.statementBody v m fuel isPrivate
  | _, .expression least => Grammar.expression v m fuel least
  | _, .operations least left => Grammar.operations v m fuel least left
  | _, .operand => Grammar.operand v m fuel
  | _, .named => Grammar.named v m fuel
  | _, .array => Grammar.array v m fuel
  | _, .elements => Grammar.elements v m fuel
  | _, .moreElements failure => Grammar.moreElements v m fuel failure
  | _, .code => Grammar.code v m fuel
  | _, .paren => Grammar.paren v m fuel

end Grammar

open Grammar Parse

/-- What is done where reading cannot go on. -/
structure Exits where
  /-- A rule is called that there is no budget for. -/
  exhausted : ∀ {α : Type}, Call α → Parse α
  /-- A parenthesis is closed in an argument list that has none open. -/
  unopened : Parse Span
  /-- A failure is repaired that is not about the token under the cursor. -/
  misplaced : Parse TokenKind

namespace Exits

variable (x : Exits)

/-- `Parse.recover`, unless the run is going on and the failure is about another token. -/
def recover (strict : Bool) (failure : Diagnostic) (boundary : TokenKind) (skip : Bool) :
    Parse TokenKind := fun s =>
  if s.journal.aborted = false ∧ failure.span ≠ s.cursor.current.span then x.misplaced s
  else Parse.recover strict failure boundary skip s

/-- `Grammar.arguments` with a count of open parentheses that does not go below zero. -/
def arguments : Parse Span := fun s =>
  match Cursor.skipArguments? 0 s.cursor.current s.cursor.rest with
  | none => x.unopened s
  | some (cursor, some span) => .ok span { s with cursor }
  | some (cursor, none) => fail "')'" { s with cursor }

/-- The mode of a run with these exits. -/
@[reducible]
def mode (strict : Bool) : Mode where
  recover := x.recover strict
  arguments := x.arguments
  exhausted := x.exhausted

/-- The rule for a whole script, with exits. -/
def script (v : Vocabulary) (strict : Bool) (fuel : Nat) : Parse Script :=
  Script.rule v (x.mode strict) fuel

end Exits

/-! ## Rules that pass a token -/

namespace Grammar

variable {α : Type} {v : Vocabulary} {strict : Bool} {fuel n : Nat} {s t : ParseState}

/-- Where a rule only takes steps, no more is ahead than was. -/
theorem gives_lt (v : Vocabulary) (strict : Bool) {p : Parse α}
    (h : Traces v strict t p t) (hlt : t.cursor.rest.length < n) :
    Gives p t fun _ u => u.cursor.rest.length < n :=
  h.mono (fun _ _ hu => Nat.lt_of_le_of_lt hu.length_rest_le hlt) fun _ _ _ => trivial

theorem traces_parenEnd (opening : Token) {outcome : Except Diagnostic Expr}
    (h : Steps v strict s t) (hb : ∀ d, outcome = .error d → Blames d t) :
    Traces v strict s (do
      let inner ← parenInner strict outcome
      let close ← closingParen
      return Expr.paren inner (opening.span.through close)) t :=
  (traces_parenInner h hb).bind fun _ _ hu => (traces_closingParen hu).bind fun _ _ hw => hw

theorem kind_of_isSign {t : Token} (h : t.isSign = true) : t.kind ≠ .endOfInput := by
  intro hk
  simp [Token.isSign, Token.isOperator, hk] at h

section

variable (ht : Ends t.cursor.tokens)
include ht

theorem gives_named (hk : t.cursor.current.kind = .identifier) :
    Gives (named v strict fuel) t fun _ u =>
      u.cursor.rest.length < t.cursor.rest.length := by
  cases fuel with
  | zero => trivial
  | succ fuel =>
    have hlt := ht.length_advance_lt (by simp [hk])
    rw [Gives, named, leads_bind, leads_advance, leads_bind, leads_resolve]
    split
    · rw [leads_bind, leads_peek]
      split_ifs
      · exact gives_lt v strict (((traced v strict fuel).operand .refl).bind fun _ _ hu => hu) hlt
      · exact hlt
    · exact gives_lt v strict (traces_expansion .refl _) hlt
    · exact hlt
    · exact hlt

theorem gives_array (hk : t.cursor.current.kind = .leftBracket) :
    Gives (array v strict fuel) t fun _ u =>
      u.cursor.rest.length < t.cursor.rest.length := by
  cases fuel with
  | zero => trivial
  | succ fuel =>
    rw [Gives, array, leads_bind, leads_advance]
    exact gives_lt v strict (((traced v strict fuel).elements .refl).bind fun _ _ hu => hu)
      (ht.length_advance_lt (by simp [hk]))

theorem gives_code (hk : t.cursor.current.kind = .leftBrace) :
    Gives (code v strict fuel) t fun _ u =>
      u.cursor.rest.length < t.cursor.rest.length := by
  cases fuel with
  | zero => trivial
  | succ fuel =>
    rw [Gives, code, leads_bind, leads_advance]
    refine gives_lt v strict
      (((traced v strict fuel).statements .refl .rightBrace).bind fun _ _ hu => ?_)
      (ht.length_advance_lt (by simp [hk]))
    exact (traces_expect hu .rightBrace).bind fun _ _ hw => hw

theorem gives_paren (hk : t.cursor.current.kind = .leftParen) :
    Gives (paren v strict fuel) t fun _ u =>
      u.cursor.rest.length < t.cursor.rest.length := by
  cases fuel with
  | zero => trivial
  | succ fuel =>
    rw [Gives, paren, leads_bind, leads_advance]
    refine gives_lt v strict ?_ (ht.length_advance_lt (by simp [hk]))
    rw [Traces, leads_bind, leads_attempt]
    refine ((traced v strict fuel).expression .refl 0).mono (fun e u hu => ?_) fun d u hu => ?_
    · exact traces_parenEnd _ hu (by simp)
    · exact traces_parenEnd _ hu.1 fun d' hd => by cases hd; exact hu.2

/-- A command between two operands is passed. -/
theorem gives_passCommand_lt (strict : Bool) {p : Nat}
    (hp : v.precedence? t.cursor.current = some p) :
    Gives (passCommand v t.cursor.current) t fun _ u => Steps v strict t u ∧
      u.cursor.rest.length < t.cursor.rest.length := by
  have hk : t.cursor.current.kind ≠ .endOfInput := by
    intro hk
    simp [Vocabulary.precedence?, hk] at hp
  have hlt := ht.length_advance_lt hk
  rw [passCommand]
  split_ifs with hname
  · simp only [passName, Gives, leads_bind, leads_advance, leads_resolve, leads_pure]
    exact ⟨.single (.name t hname), hlt⟩
  · exact ⟨.single (.pass t), hlt⟩

/-- An operand passes a token. -/
theorem gives_operand :
    Gives (operand v strict fuel) t fun _ u =>
      u.cursor.rest.length < t.cursor.rest.length := by
  cases fuel with
  | zero => trivial
  | succ fuel =>
    rw [Gives, operand, leads_bind, leads_peek]
    split_ifs with hsign
    · rw [leads_bind, leads_advance]
      exact gives_lt v strict (((traced v strict fuel).operand .refl).bind fun _ _ hu => hu)
        (ht.length_advance_lt (kind_of_isSign hsign))
    split
    · next hk => exact gives_named ht hk
    · next hk => exact ht.length_advance_lt (by simp [hk])
    · next hk => exact ht.length_advance_lt (by simp [hk])
    · next hk => exact gives_array ht hk
    · next hk => exact gives_code ht hk
    · next hk => exact gives_paren ht hk
    · trivial

theorem gives_expression (least : Nat) :
    Gives (expression v strict fuel least) t fun _ u =>
      u.cursor.rest.length < t.cursor.rest.length := by
  cases fuel with
  | zero => trivial
  | succ fuel =>
    rw [expression]
    refine (gives_operand ht).andThen fun left u hu => ?_
    exact gives_lt v strict ((traced v strict fuel).operations .refl least left) hu

theorem gives_statementBody (isPrivate : Bool) :
    Gives (statementBody v strict fuel isPrivate) t fun _ u =>
      u.cursor.rest.length < t.cursor.rest.length := by
  cases fuel with
  | zero => trivial
  | succ fuel =>
    rw [Gives, statementBody, leads_bind, leads_cursor]
    split_ifs with ha
    · have hlt := ht.length_advance_lt (by simp [kind_of_atAssignment ha])
      simp only [passName, leads_bind, leads_advance, leads_resolve, leads_pure]
      exact gives_lt v strict ((traced v strict fuel).expression .refl 0)
        (Nat.lt_of_le_of_lt (length_rest_advance_le _) hlt)
    · refine (gives_expression ht 0).andThen fun e u hu => ?_
      rw [Gives, leads_bind, leads_peek]
      split_ifs
      · rw [leads_bind, leads_advance]
        exact gives_lt v strict (((traced v strict fuel).expression .refl 0).bind fun _ _ hw => hw)
          (Nat.lt_of_le_of_lt (length_rest_advance_le _) hu)
      · exact hu

/-- A statement passes a token. -/
theorem gives_statement (close : TokenKind) :
    Gives (statement v strict fuel close) t fun _ u =>
      u.cursor.rest.length < t.cursor.rest.length := by
  cases fuel with
  | zero => trivial
  | succ fuel =>
    rw [Gives, statement, leads_bind, leads_cursor]
    have hmark : Traces v strict t (privateMark v (atPrivate t.cursor)) t :=
      traces_privateMark .refl
    refine hmark.gives_bind fun _ u hu => ?_
    refine (gives_statementBody (hu.ends ht) _).andThen fun st w hw => ?_
    refine gives_lt v strict ?_ (Nat.lt_of_lt_of_le hw hu.length_rest_le)
    exact (traces_statementEnd .refl close).bind fun _ _ hx => hx

end

/-! ## Calls -/

namespace Call

variable {v : Vocabulary} {strict : Bool} {fuel : Nat} {s t : ParseState}

/-- What holds of a state in which the rule is called. -/
def Fits : ∀ {α : Type}, Call α → ParseState → Prop
  | _, .named, t => t.cursor.current.kind = .identifier
  | _, .array, t => t.cursor.current.kind = .leftBracket
  | _, .code, t => t.cursor.current.kind = .leftBrace
  | _, .paren, t => t.cursor.current.kind = .leftParen
  | _, .moreElements failure, t => Blames failure t
  | _, _, _ => True

/-- A rule calls rules of lower rank before it passes a token. -/
def rank : ∀ {α : Type}, Call α → Nat
  | _, .statements _ => 6
  | _, .statement _ => 5
  | _, .statementBody _ => 4
  | _, .elements => 4
  | _, .expression _ => 3
  | _, .operand => 2
  | _, _ => 1

/-- The budget that is enough for the rule : six for each token ahead, and its rank. -/
def need {α : Type} (c : Call α) (t : ParseState) : Nat :=
  6 * t.cursor.rest.length + c.rank

theorem need_pos {α : Type} (c : Call α) (t : ParseState) : 0 < c.need t := by
  cases c <;> simp [need, rank]

theorem rank_le {α : Type} (c : Call α) : c.rank ≤ 6 := by
  cases c <;> simp [rank]

variable {α β : Type} {c : Call α} {k : Nat}

/-- A call of lower rank needs less, if no more is ahead. -/
theorem need_le_of_rank_lt (hk : c.need t ≤ k + 1) (d : Call β) {u : ParseState}
    (hle : u.cursor.rest.length ≤ t.cursor.rest.length) (hr : d.rank < c.rank) :
    d.need u ≤ k := by
  unfold need at *
  omega

/-- Any call needs less if less is ahead. -/
theorem need_le_of_lt (hk : c.need t ≤ k + 1) (d : Call β) {u : ParseState}
    (hlt : u.cursor.rest.length < t.cursor.rest.length) : d.need u ≤ k := by
  have hd := d.rank_le
  have hc : 0 < c.rank := by cases c <;> simp [rank]
  unfold need at *
  omega

end Call

end Grammar

/-! ## Runs with exits -/

namespace Exits

variable (x : Exits) {v : Vocabulary} {strict : Bool} {fuel k : Nat} {s t : ParseState}

theorem recover_eq {failure : Diagnostic} (boundary : TokenKind) (skip : Bool)
    (hb : Blames failure s) :
    x.recover strict failure boundary skip s = Parse.recover strict failure boundary skip s := by
  refine if_neg ?_
  rintro ⟨hrun, hspan⟩
  rcases hb with hend | ⟨expected, rfl⟩
  · rw [hrun] at hend
    cases hend
  · exact hspan rfl

theorem arguments_eq (hk : s.cursor.current.kind = .leftParen) :
    x.arguments s = Grammar.arguments s := by
  unfold arguments Grammar.arguments
  rw [Cursor.skipArguments?_eq (.inr hk)]
  rcases Cursor.skipArguments 0 s.cursor.current s.cursor.rest with ⟨cursor, _ | span⟩
  · rfl
  · rfl

theorem expansion_eq (strict : Bool) (name : Token) :
    expansion (x.mode strict) name s = expansion strict name s := by
  refine bind_eq rfl ?_
  rw [Gives, leads_peek]
  split_ifs with hk
  · exact bind_eq_left _ (x.arguments_eq hk)
  · rfl

theorem parenInner_eq {outcome : Except Diagnostic Expr}
    (hb : ∀ d, outcome = .error d → Blames d s) :
    parenInner (x.mode strict) outcome s = parenInner strict outcome s := by
  cases outcome with
  | ok inner =>
    refine bind_eq rfl ?_
    rw [Gives, leads_peek]
    split_ifs
    · rfl
    · exact bind_eq_left _ (x.recover_eq _ _ (.inr ⟨_, rfl⟩))
  | error failure => exact bind_eq_left _ (x.recover_eq _ _ (hb failure rfl))

/-- With exits and a budget of `n`, calls that need at most `k` end as they do without exits and
with the given budget. -/
def Agrees (v : Vocabulary) (strict : Bool) (n fuel k : Nat) : Prop :=
  ∀ ⦃α : Type⦄ (c : Call α) ⦃t : ParseState⦄, Ends t.cursor.tokens → c.Fits t →
    c.need t ≤ k → c.rule v (x.mode strict) n t = c.rule v strict fuel t

namespace Agrees

variable {x} {n : Nat} (ih : x.Agrees v strict n fuel k) (ht : Ends t.cursor.tokens)
include ih ht

theorem statements {close : TokenKind} (hk : (Call.statements close).need t ≤ k + 1) :
    Grammar.statements v (x.mode strict) (n + 1) close t =
      Grammar.statements v strict (fuel + 1) close t := by
  have hdrop : Steps v strict t ⟨t.cursor.dropWhile Cursor.isSeparator, t.journal⟩ :=
    Steps.dropWhile _ .refl
  have hd := hdrop.ends ht
  have hst := ih (.statement close) hd trivial
    (Call.need_le_of_rank_lt hk _ hdrop.length_rest_le (by simp [Call.rank]))
  rw [Grammar.statements, Grammar.statements]
  refine bind_eq rfl ?_
  rw [Gives, leads_move]
  refine bind_eq rfl ?_
  rw [Gives, leads_peek]
  split_ifs
  · rfl
  refine bind_attempt_eq hst ?_
  refine (((traced v strict fuel).statement hdrop close).and (gives_statement hd close)).mono
    ?_ ?_
  · rintro st u ⟨hu, hlt⟩
    have hlt' := Nat.lt_of_lt_of_le hlt hdrop.length_rest_le
    exact bind_eq_left _ (ih (.statements close) (hu.ends ht) trivial
      (Call.need_le_of_lt hk _ hlt'))
  · rintro d u ⟨⟨hu, hb⟩, -⟩
    refine bind_eq (x.recover_eq _ _ hb) ?_
    have hsteps := traces_recover .semicolon true hu hb
    refine (hsteps.and (gives_recover_lt (hu.ends ht) d .semicolon true)).mono ?_
      fun _ _ _ => trivial
    rintro stop w ⟨hw, hlt⟩
    split_ifs with hstop
    · rfl
    · have hlt' := Nat.lt_of_lt_of_le (hlt.resolve_left hstop) hu.length_rest_le
      exact ih (.statements close) (hw.ends ht) trivial (Call.need_le_of_lt hk _ hlt')

theorem statement {close : TokenKind} (hk : (Call.statement close).need t ≤ k + 1) :
    Grammar.statement v (x.mode strict) (n + 1) close t =
      Grammar.statement v strict (fuel + 1) close t := by
  have hmark : Traces v strict t (privateMark v (atPrivate t.cursor)) t :=
    traces_privateMark .refl
  rw [Grammar.statement, Grammar.statement]
  refine bind_eq rfl ?_
  rw [Gives, leads_cursor]
  refine bind_eq rfl (hmark.mono (fun _ u hu => ?_) fun _ _ _ => trivial)
  exact bind_eq_left _ (ih (.statementBody (atPrivate t.cursor)) (hu.ends ht) trivial
    (Call.need_le_of_rank_lt hk _ hu.length_rest_le (by simp [Call.rank])))

theorem statementBody {isPrivate : Bool} (hk : (Call.statementBody isPrivate).need t ≤ k + 1) :
    Grammar.statementBody v (x.mode strict) (n + 1) isPrivate t =
      Grammar.statementBody v strict (fuel + 1) isPrivate t := by
  have hexpr : ∀ {u : ParseState}, Steps v strict t u →
      Grammar.expression v (x.mode strict) n 0 u = Grammar.expression v strict fuel 0 u := fun hu =>
    ih (.expression 0) (hu.ends ht) trivial
      (Call.need_le_of_rank_lt hk _ hu.length_rest_le (by simp [Call.rank]))
  rw [Grammar.statementBody, Grammar.statementBody]
  refine bind_eq rfl ?_
  rw [Gives, leads_cursor]
  split_ifs with ha
  · have hname : Traces v strict t (passName v) t :=
      traces_passName .refl (kind_of_atAssignment ha)
    refine bind_eq rfl (hname.mono (fun target u hu => ?_) fun _ _ _ => trivial)
    refine bind_eq rfl ?_
    rw [Gives, leads_advance]
    exact bind_eq_left _ (hexpr hu.pass)
  · refine bind_eq (hexpr .refl) ?_
    refine ((traced v strict fuel).expression .refl 0).mono (fun e u hu => ?_)
      fun _ _ _ => trivial
    refine bind_eq rfl ?_
    rw [Gives, leads_peek]
    split_ifs
    · refine bind_eq rfl ?_
      rw [Gives, leads_advance]
      exact bind_eq_left _ (hexpr hu.pass)
    · rfl

theorem expression {least : Nat} (hk : (Call.expression least).need t ≤ k + 1) :
    Grammar.expression v (x.mode strict) (n + 1) least t =
      Grammar.expression v strict (fuel + 1) least t := by
  have hoperand := ih .operand ht trivial
    (Call.need_le_of_rank_lt hk _ (Nat.le_refl _) (by simp [Call.rank]))
  rw [Grammar.expression, Grammar.expression]
  refine bind_eq hoperand ?_
  refine (((traced v strict fuel).operand .refl).and (gives_operand ht)).mono ?_
    fun _ _ _ => trivial
  rintro left u ⟨hu, hlt⟩
  exact ih (.operations least left) (hu.ends ht) trivial (Call.need_le_of_lt hk _ hlt)

theorem operations {least : Nat} {left : Expr}
    (hk : (Call.operations least left).need t ≤ k + 1) :
    Grammar.operations v (x.mode strict) (n + 1) least left t =
      Grammar.operations v strict (fuel + 1) least left t := by
  rw [Grammar.operations, Grammar.operations]
  refine bind_eq rfl ?_
  rw [Gives, leads_peek]
  cases hp : v.precedence? t.cursor.current with
  | none => rfl
  | some p =>
    dsimp only
    split_ifs
    · rfl
    refine bind_eq rfl ((gives_passCommand_lt ht strict hp).mono ?_)
    rintro op u ⟨hu, hlt⟩
    have hright := ih (.expression (p + 1)) (hu.ends ht) (by simp [Call.Fits])
      (Call.need_le_of_lt hk _ hlt)
    refine bind_eq hright ?_
    refine ((traced v strict fuel).expression .refl (p + 1)).mono (fun right w hw => ?_)
      fun _ _ _ => trivial
    exact ih (.operations least (.binary left op right)) (hw.ends (hu.ends ht)) trivial
      (Call.need_le_of_lt hk _ (Nat.lt_of_le_of_lt hw.length_rest_le hlt))

theorem operand (hk : Call.operand.need t ≤ k + 1) :
    Grammar.operand v (x.mode strict) (n + 1) t = Grammar.operand v strict (fuel + 1) t := by
  have hsame : ∀ c : Call Expr, c.rank < Call.operand.rank → c.Fits t →
      c.rule v (x.mode strict) n t = c.rule v strict fuel t :=
    fun c hr hc => ih c ht hc (Call.need_le_of_rank_lt hk c (Nat.le_refl _) hr)
  rw [Grammar.operand, Grammar.operand]
  refine bind_eq rfl ?_
  rw [Gives, leads_peek]
  split_ifs with hsign
  · refine bind_eq rfl ?_
    rw [Gives, leads_advance]
    have hpass : Steps v strict t { t with cursor := t.cursor.advance } := .single (.pass t)
    exact bind_eq_left _ (ih .operand (hpass.ends ht) trivial
      (Call.need_le_of_lt hk _ (ht.length_advance_lt (kind_of_isSign hsign))))
  cases hkind : t.cursor.current.kind with
  | identifier => exact hsame .named (by simp [Call.rank]) hkind
  | leftBracket => exact hsame .array (by simp [Call.rank]) hkind
  | leftBrace => exact hsame .code (by simp [Call.rank]) hkind
  | leftParen => exact hsame .paren (by simp [Call.rank]) hkind
  | _ => rfl

theorem named (hkind : t.cursor.current.kind = .identifier)
    (hk : Call.named.need t ≤ k + 1) :
    Grammar.named v (x.mode strict) (n + 1) t = Grammar.named v strict (fuel + 1) t := by
  have hname : Steps v strict t ⟨t.cursor.advance,
      (t.journal.resolve v t.cursor.current t.cursor.advance.current).2⟩ :=
    .single (.name t hkind)
  rw [Grammar.named, Grammar.named]
  refine bind_eq rfl ?_
  rw [Gives, leads_advance]
  refine bind_eq rfl ?_
  rw [Gives, leads_resolve]
  cases v.classify t.cursor.current.name with
  | command o =>
    refine bind_eq rfl ?_
    rw [Gives, leads_peek]
    split_ifs
    · exact bind_eq_left _ (ih .operand (hname.ends ht) trivial
        (Call.need_le_of_lt hk _ (ht.length_advance_lt (by simp [hkind]))))
    · rfl
  | expansion => exact x.expansion_eq strict _
  | magic => rfl
  | plain => rfl

theorem array (hkind : t.cursor.current.kind = .leftBracket)
    (hk : Call.array.need t ≤ k + 1) :
    Grammar.array v (x.mode strict) (n + 1) t = Grammar.array v strict (fuel + 1) t := by
  have hpass : Steps v strict t { t with cursor := t.cursor.advance } := .single (.pass t)
  rw [Grammar.array, Grammar.array]
  refine bind_eq rfl ?_
  rw [Gives, leads_advance]
  exact bind_eq_left _ (ih .elements (hpass.ends ht) trivial
    (Call.need_le_of_lt hk _ (ht.length_advance_lt (by simp [hkind]))))

theorem elements (hk : Call.elements.need t ≤ k + 1) :
    Grammar.elements v (x.mode strict) (n + 1) t = Grammar.elements v strict (fuel + 1) t := by
  have hexpr := ih (.expression 0) ht trivial
    (Call.need_le_of_rank_lt hk _ (Nat.le_refl _) (by simp [Call.rank]))
  have hmore : ∀ {d : Diagnostic} {u : ParseState}, Steps v strict t u → Blames d u →
      Grammar.moreElements v (x.mode strict) n d u = Grammar.moreElements v strict fuel d u :=
    fun {d} {u} hu hb => ih (.moreElements d) (hu.ends ht) hb
      (Call.need_le_of_rank_lt hk _ hu.length_rest_le (by simp [Call.rank]))
  rw [Grammar.elements, Grammar.elements]
  refine bind_eq rfl ?_
  rw [Gives, leads_peek]
  cases hkind : t.cursor.current.kind with
  | rightBracket => rfl
  | endOfInput => rfl
  | _ =>
    refine bind_attempt_eq hexpr ?_
    refine (((traced v strict fuel).expression .refl 0).and (gives_expression ht 0)).mono ?_ ?_
    · rintro e u ⟨hu, hlt⟩
      refine bind_eq rfl ?_
      rw [Gives, leads_peek]
      cases u.cursor.current.kind with
      | comma =>
        refine bind_eq rfl ?_
        rw [Gives, leads_advance]
        have hpass : Steps v strict t { u with cursor := u.cursor.advance } := hu.pass
        exact bind_eq_left _ (ih .elements (hpass.ends ht) trivial
          (Call.need_le_of_lt hk _ (Nat.lt_of_le_of_lt (length_rest_advance_le _) hlt)))
      | rightBracket => rfl
      | _ => exact bind_eq_left _ (hmore hu (.inr ⟨_, rfl⟩))
    · rintro d u ⟨⟨hu, hb⟩, -⟩
      exact hmore hu hb

theorem moreElements {failure : Diagnostic} (hb : Blames failure t)
    (hk : (Call.moreElements failure).need t ≤ k + 1) :
    Grammar.moreElements v (x.mode strict) (n + 1) failure t =
      Grammar.moreElements v strict (fuel + 1) failure t := by
  rw [Grammar.moreElements, Grammar.moreElements]
  refine bind_eq (x.recover_eq _ _ hb) ?_
  have hsteps : Traces v strict t (Parse.recover strict failure .rightBracket false) t :=
    traces_recover .rightBracket false .refl hb
  refine (hsteps.and (gives_recover_lt ht failure .rightBracket false)).mono ?_
    fun _ _ _ => trivial
  rintro stop u ⟨hu, hlt⟩
  split_ifs with hstop
  · rfl
  · exact ih .elements (hu.ends ht) trivial
      (Call.need_le_of_lt hk _ (hlt.resolve_left hstop))

theorem code (hkind : t.cursor.current.kind = .leftBrace) (hk : Call.code.need t ≤ k + 1) :
    Grammar.code v (x.mode strict) (n + 1) t = Grammar.code v strict (fuel + 1) t := by
  have hpass : Steps v strict t { t with cursor := t.cursor.advance } := .single (.pass t)
  rw [Grammar.code, Grammar.code]
  refine bind_eq rfl ?_
  rw [Gives, leads_advance]
  exact bind_eq_left _ (ih (.statements .rightBrace) (hpass.ends ht) trivial
    (Call.need_le_of_lt hk _ (ht.length_advance_lt (by simp [hkind]))))

theorem paren (hkind : t.cursor.current.kind = .leftParen) (hk : Call.paren.need t ≤ k + 1) :
    Grammar.paren v (x.mode strict) (n + 1) t = Grammar.paren v strict (fuel + 1) t := by
  have hpass : Steps v strict t { t with cursor := t.cursor.advance } := .single (.pass t)
  rw [Grammar.paren, Grammar.paren]
  refine bind_eq rfl ?_
  rw [Gives, leads_advance]
  refine bind_attempt_eq (ih (.expression 0) (hpass.ends ht) trivial
    (Call.need_le_of_lt hk _ (ht.length_advance_lt (by simp [hkind])))) ?_
  refine ((traced v strict fuel).expression hpass 0).mono (fun e u hu => ?_) fun d u hu => ?_
  · exact bind_eq_left _ (x.parenInner_eq (by simp))
  · exact bind_eq_left _ (x.parenInner_eq fun d' hd => by cases hd; exact hu.2)

end Agrees

/-- What holds of the calls that a rule makes holds of the rule. -/
theorem Agrees.succ {x : Exits} {n : Nat} (ih : x.Agrees v strict n fuel k) :
    x.Agrees v strict (n + 1) (fuel + 1) (k + 1) := by
  intro α c t ht hc hk
  cases c with
  | statements close => exact ih.statements ht hk
  | statement close => exact ih.statement ht hk
  | statementBody isPrivate => exact ih.statementBody ht hk
  | expression least => exact ih.expression ht hk
  | operations least left => exact ih.operations ht hk
  | operand => exact ih.operand ht hk
  | named => exact ih.named ht hc hk
  | array => exact ih.array ht hc hk
  | elements => exact ih.elements ht hk
  | moreElements failure => exact ih.moreElements ht hc hk
  | code => exact ih.code ht hc hk
  | paren => exact ih.paren ht hc hk

/-- With enough budget neither the exits nor the budget matter. -/
theorem agrees (x : Exits) (v : Vocabulary) (strict : Bool) : ∀ {k n fuel : Nat}, k ≤ n →
    k ≤ fuel → x.Agrees v strict n fuel k
  | 0, _, _, _, _ => fun _ c t _ _ hk => absurd hk (Nat.not_le.2 (c.need_pos t))
  | _ + 1, _ + 1, _ + 1, hn, hfuel =>
    (x.agrees v strict (Nat.le_of_succ_le_succ hn) (Nat.le_of_succ_le_succ hfuel)).succ

/-- No exit is taken where a script is read, and more budget changes nothing. -/
theorem script_eq (ht : Ends t.cursor.tokens) {n : Nat}
    (hn : (Call.statements .endOfInput).need t ≤ n)
    (hfuel : (Call.statements .endOfInput).need t ≤ fuel) :
    x.script v strict n t = Script.rule v strict fuel t := by
  refine bind_eq rfl ?_
  rw [Gives, leads_peek]
  have hrun := x.agrees v strict hn hfuel
  exact bind_eq_left _ (hrun (.statements .endOfInput) ht trivial (Nat.le_refl _))

end Exits

end SqfCheck
