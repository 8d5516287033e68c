import SqfCheck.Proofs.Lockstep
import SqfCheck.Proofs.References

/-!
# Boundaries of statements

Tokens that end in a semicolon and are read without an error make the same statements whatever
follows them, and what follows is read as if it stood alone (`read_append`).

The argument compares a strict run over the tokens and an end with a run over the tokens and what
follows. As long as some of the tokens are ahead, the last of them is a semicolon
(`Parse.Inside`). No rule looks past it : a rule looks two tokens ahead only from one name to the
next, and a semicolon is passed only at the end of a statement. So a rule that gives a value in
the strict run gives the same value in the other one, with the semicolon still ahead
(`Grammar.follows`). Where the strict run comes to the end of the tokens inside a block of code, it
fails, for the brace is missing ; so the end of the tokens is met between statements of the script
only, and the other run goes on there with what follows (`Grammar.statements_append`).

What follows is read with other findings in the journal, and with another budget. Neither
matters (`Likeness.appended`, `Grammar.statements_budget`).
-/

namespace SqfCheck

/-- The last of the tokens is a semicolon, and none of them is an end. -/
def Terminated (tokens : List Token) : Prop :=
  ∀ t ts, t :: ts <:+ tokens → t.kind ≠ .endOfInput ∧ (ts = [] → t.kind = .semicolon)

namespace Terminated

variable {t : Token} {ts : List Token} (h : Terminated (t :: ts))
include h

theorem tail : Terminated ts :=
  fun u us hu => h u us (hu.trans (List.suffix_cons t ts))

theorem kind_ne : t.kind ≠ .endOfInput :=
  (h t ts (List.suffix_refl _)).1

theorem exists_cons (hk : t.kind ≠ .semicolon) : ∃ u us, ts = u :: us :=
  List.exists_cons_of_ne_nil fun hts => hk ((h t ts (List.suffix_refl _)).2 hts)

end Terminated

theorem Ends.append {tokens : List Token} (h : Ends tokens) (before : List Token)
    (hne : tokens ≠ []) : Ends (before ++ tokens) := by
  intro t ht
  refine h t (List.suffix_of_suffix_length_le ht (List.suffix_append before tokens) ?_)
  exact List.length_pos_iff.2 hne

theorem ends_append {e : Token} (he : e.kind = .endOfInput) (body : List Token) :
    Ends (body ++ [e]) := by
  rintro t ⟨before, h⟩
  obtain rfl : t = e := List.singleton_inj.1 (List.append_inj_right' h rfl)
  exact he

namespace Parse

variable {α β : Type} {v : Vocabulary} {e b : Token} {bs : List Token} {s t : ParseState}

/-! ## Two runs over the same tokens -/

/-- The same tokens are ahead in both states, the last of them a semicolon. After them the first
state has the end `e`, the second one `b` and `bs`. -/
inductive Inside (e b : Token) (bs : List Token) : ParseState → ParseState → Prop where
  | mk {x : Token} {xs : List Token} (h : Terminated (x :: xs)) (j : Journal) :
    Inside e b bs ⟨⟨x, xs ++ [e]⟩, j⟩ ⟨⟨x, xs ++ b :: bs⟩, j⟩

/-- The states are as in `Inside`, or the tokens that they share have been read. -/
def UpTo (e b : Token) (bs : List Token) (s t : ParseState) : Prop :=
  Inside e b bs s t ∨ ∃ j, s = ⟨⟨e, []⟩, j⟩ ∧ t = ⟨⟨b, bs⟩, j⟩

namespace Inside

theorem current_eq (h : Inside e b bs s t) : t.cursor.current = s.cursor.current := by
  cases h
  rfl

theorem kind_ne (h : Inside e b bs s t) : s.cursor.current.kind ≠ .endOfInput := by
  cases h with
  | mk h => exact h.kind_ne

theorem ends (h : Inside e b bs s t) (he : e.kind = .endOfInput) : Ends s.cursor.tokens := by
  cases h with
  | @mk x xs => exact ends_append he (x :: xs)

theorem journal_eq (h : Inside e b bs s t) : t.journal = s.journal := by
  cases h
  rfl

theorem with_journal (h : Inside e b bs s t) (j : Journal) :
    Inside e b bs { s with journal := j } { t with journal := j } := by
  cases h with
  | mk h => exact .mk h j

/-- A token that is no semicolon is not the last of those that both states share. -/
theorem advance (h : Inside e b bs s t) (hk : s.cursor.current.kind ≠ .semicolon) :
    Inside e b bs { s with cursor := s.cursor.advance } { t with cursor := t.cursor.advance } := by
  cases h with
  | mk h j =>
    obtain ⟨y, ys, rfl⟩ := h.exists_cons hk
    exact .mk h.tail j

/-- Past any token the states still share tokens, or have read them all. -/
theorem advance_upTo (h : Inside e b bs s t) :
    UpTo e b bs { s with cursor := s.cursor.advance } { t with cursor := t.cursor.advance } := by
  cases h with
  | @mk x xs h j =>
    cases xs with
    | nil => exact .inr ⟨j, rfl, rfl⟩
    | cons y ys => exact .inl (.mk h.tail j)

/-- The token after a name is shared too. -/
theorem nth_one_eq (h : Inside e b bs s t) (hk : s.cursor.current.kind ≠ .semicolon) :
    t.cursor.nth 1 = s.cursor.nth 1 :=
  (h.advance hk).current_eq

theorem nth_two_eq (h : Inside e b bs s t) (hk : s.cursor.current.kind ≠ .semicolon)
    (hk' : (s.cursor.nth 1).kind ≠ .semicolon) : t.cursor.nth 2 = s.cursor.nth 2 :=
  ((h.advance hk).advance hk').current_eq

theorem atAssignment_eq (h : Inside e b bs s t) :
    Grammar.atAssignment t.cursor = Grammar.atAssignment s.cursor := by
  unfold Grammar.atAssignment
  rw [h.current_eq]
  by_cases hk : s.cursor.current.kind = .identifier
  · rw [h.nth_one_eq (by simp [hk])]
  · simp [hk]

theorem atPrivate_eq (h : Inside e b bs s t) :
    Grammar.atPrivate t.cursor = Grammar.atPrivate s.cursor := by
  unfold Grammar.atPrivate
  rw [h.current_eq]
  by_cases hk : s.cursor.current.kind = .identifier
  · have hne : s.cursor.current.kind ≠ .semicolon := by simp [hk]
    rw [h.nth_one_eq hne]
    by_cases hk' : (s.cursor.nth 1).kind = .identifier
    · rw [h.nth_two_eq hne (by simp [hk'])]
    · simp [hk']
  · simp [hk]

/-- Separators are dropped alike, unless there is nothing else ahead that both states share. -/
theorem dropWhile (h : Inside e b bs s t) (p : Token → Bool) :
    Inside e b bs { s with cursor := s.cursor.dropWhile p }
        { t with cursor := t.cursor.dropWhile p } ∨
      s.cursor.dropWhile p = ⟨e, []⟩ ∧ t.cursor.dropWhile p = Cursor.dropWhile p ⟨b, bs⟩ := by
  cases h with
  | @mk x xs h j =>
    induction xs generalizing x with
    | nil =>
      by_cases hp : p x = true
      · exact .inr (by simp [Cursor.dropWhile, Cursor.seek, hp])
      · left
        have hstay : ∀ r, (⟨x, [] ++ r⟩ : Cursor).dropWhile p = ⟨x, [] ++ r⟩ := by
          rintro (_ | ⟨y, r⟩) <;> simp [Cursor.dropWhile, Cursor.seek, hp]
        rw [hstay, hstay]
        exact .mk h j
    | cons y ys ih =>
      by_cases hp : p x = true
      · have hmove : ∀ r, (⟨x, y :: ys ++ r⟩ : Cursor).dropWhile p =
            (⟨y, ys ++ r⟩ : Cursor).dropWhile p := by
          simp [Cursor.dropWhile, Cursor.seek, hp]
        rw [hmove, hmove]
        exact ih h.tail
      · left
        have hstay : ∀ r, (⟨x, y :: ys ++ r⟩ : Cursor).dropWhile p = ⟨x, y :: ys ++ r⟩ := by
          simp [Cursor.dropWhile, Cursor.seek, hp]
        rw [hstay, hstay]
        exact .mk h j

/-- An argument list that is closed in the first state is closed by the same parenthesis in the
second one. -/
theorem skipArguments : ∀ {x : Token} {xs : List Token} {depth : Nat} {c : Cursor} {span : Span}
    (j : Journal), Terminated (x :: xs) →
    Cursor.skipArguments depth x (xs ++ [e]) = (c, some span) →
    ∃ c', Cursor.skipArguments depth x (xs ++ b :: bs) = (c', some span) ∧
      Inside e b bs ⟨c, j⟩ ⟨c', j⟩
  | x, [], depth, c, span, j, h, hskip => by
    have hk : x.kind = .semicolon := (h x [] (List.suffix_refl _)).2 rfl
    simp [Cursor.skipArguments, hk] at hskip
  | x, y :: ys, depth, c, span, j, h, hskip => by
    have ih : ∀ d, Cursor.skipArguments d y (ys ++ [e]) = (c, some span) →
        ∃ c', Cursor.skipArguments d y (ys ++ b :: bs) = (c', some span) ∧
          Inside e b bs ⟨c, j⟩ ⟨c', j⟩ := fun d => skipArguments j h.tail
    rw [List.cons_append] at hskip ⊢
    unfold Cursor.skipArguments at hskip ⊢
    cases hk : x.kind with
    | leftParen => rw [hk] at hskip; exact ih _ hskip
    | rightParen =>
      rw [hk] at hskip
      rcases depth with _ | _ | d
      · cases hskip
        exact ⟨_, rfl, .mk h.tail j⟩
      · cases hskip
        exact ⟨_, rfl, .mk h.tail j⟩
      · exact ih _ hskip
    | endOfInput => exact absurd hk h.kind_ne
    | _ => rw [hk] at hskip; exact ih _ hskip

end Inside

/-! ## Values that carry over -/

/-- What `p` gives from `s`, `q` gives from `t`, and `Q` holds of the value and the states they
leave. -/
def Carries (p q : Parse α) (s t : ParseState) (Q : α → ParseState → ParseState → Prop) : Prop :=
  Gives p s fun a s' => ∃ t', q t = .ok a t' ∧ Q a s' t'

/-- The value that one rule gives is what the next one goes on with. -/
theorem bind_of_ok {p : Parse α} {a : α} {u : ParseState} (h : p t = .ok a u) (f : α → Parse β) :
    (p >>= f) t = f a u := by
  rw [show (p >>= f) t = EStateM.bind p f t from rfl, EStateM.bind, h]

theorem bind_of_error {p : Parse α} {d : Diagnostic} {u : ParseState} (h : p t = .error d u)
    (f : α → Parse β) : (p >>= f) t = .error d u := by
  rw [show (p >>= f) t = EStateM.bind p f t from rfl, EStateM.bind, h]

theorem bind_congr_left {p q : Parse α} (h : p s = q t) (f : α → Parse β) :
    (p >>= f) s = (q >>= f) t := by
  rw [show (p >>= f) s = EStateM.bind p f s from rfl,
    show (q >>= f) t = EStateM.bind q f t from rfl, EStateM.bind, EStateM.bind, h]

theorem attempt_of_ok {p : Parse α} {a : α} {u : ParseState} (h : p t = .ok a u) :
    attempt p t = .ok (.ok a) u := by
  rw [attempt, h]

namespace Carries

variable {p q : Parse α} {Q : α → ParseState → ParseState → Prop}
  {R : β → ParseState → ParseState → Prop}

theorem pure {a : α} (h : Q a s t) : Carries (pure a) (pure a) s t Q :=
  ⟨t, rfl, h⟩

theorem bind {f g : α → Parse β} (h : Carries p q s t Q)
    (hf : ∀ a s' t', Q a s' t' → Carries (f a) (g a) s' t' R) :
    Carries (p >>= f) (q >>= g) s t R := by
  refine Gives.andThen h fun a s' ⟨t', hq, hQ⟩ => ?_
  refine (hf a s' t' hQ).mono fun b s'' ⟨t'', hg, hR⟩ => ⟨t'', ?_, hR⟩
  rw [bind_of_ok hq, hg]

/-- A rule that looks at how another one ended carries over, if it gives nothing after a
failure. -/
theorem attempt {f g : Except Diagnostic α → Parse β} (h : Carries p q s t Q)
    (hok : ∀ a s' t', Q a s' t' → Carries (f (.ok a)) (g (.ok a)) s' t' R)
    (herror : ∀ d s', Gives (f (.error d)) s' fun _ _ => False) :
    Carries (attempt p >>= f) (attempt q >>= g) s t R := by
  rw [Carries, Gives, leads_bind, leads_attempt]
  refine Leads.mono h (fun a s' hcarried => ?_) fun d s' _ => ?_
  · obtain ⟨t', hq, hQ⟩ := hcarried
    refine (hok a s' t' hQ).mono fun b s'' hmore => ?_
    obtain ⟨t'', hg, hR⟩ := hmore
    exact ⟨t'', by rw [bind_of_ok (attempt_of_ok hq), hg], hR⟩
  · exact (herror d s').mono fun _ _ hfalse => hfalse.elim

theorem of_gives_false (h : Gives p s fun _ _ => False) : Carries p q s t Q :=
  h.mono fun _ _ hfalse => hfalse.elim

variable (h : Inside e b bs s t)
include h

/-- Both runs look at the same token. -/
theorem peek {f g : Token → Parse β}
    (hf : Carries (f s.cursor.current) (g s.cursor.current) s t R) :
    Carries (peek >>= f) (peek >>= g) s t R := by
  rw [← h.current_eq] at hf
  nth_rewrite 1 [h.current_eq] at hf
  exact hf

theorem advance (hk : s.cursor.current.kind ≠ .semicolon) :
    Carries advance advance s t fun _ => Inside e b bs :=
  ⟨{ t with cursor := t.cursor.advance }, by rw [Parse.advance, h.current_eq], h.advance hk⟩

theorem advance_upTo : Carries Parse.advance Parse.advance s t fun _ => UpTo e b bs :=
  ⟨{ t with cursor := t.cursor.advance }, by rw [Parse.advance, h.current_eq], h.advance_upTo⟩

theorem resolve (x : Token) :
    Carries (resolve v x) (resolve v x) s t fun _ => Inside e b bs := by
  rw [Carries, Gives]
  simp only [Leads, Parse.resolve, h.current_eq, h.journal_eq]
  exact ⟨_, rfl, h.with_journal _⟩

end Carries

/-- A strict run repairs nothing. -/
theorem gives_recover_strict (d : Diagnostic) (boundary : TokenKind) (skip : Bool)
    (s : ParseState) : Gives (recover true d boundary skip) s fun _ _ => False := by
  rw [Gives, leads_recover, if_pos rfl, ite_self]
  trivial

theorem gives_bind_recover_strict (d : Diagnostic) (boundary : TokenKind) (skip : Bool)
    (s : ParseState) (f : TokenKind → Parse β) :
    Gives (recover true d boundary skip >>= f) s fun _ _ => False :=
  (gives_recover_strict d boundary skip s).andThen fun _ _ hfalse => hfalse.elim

end Parse

namespace Grammar

open Parse

variable {v : Vocabulary} {strict : Bool} {k fuel : Nat} {e b : Token} {bs : List Token}
  {s t : ParseState}

/-! ## Rules without recursion -/

theorem carries_passName (h : Inside e b bs s t) (hk : s.cursor.current.kind = .identifier) :
    Carries (passName v) (passName v) s t fun _ s' t' =>
      s'.cursor = s.cursor.advance ∧ Inside e b bs s' t' := by
  have hnext := h.advance (by simp [hk])
  have hlong : passName v t = .ok s.cursor.current ⟨t.cursor.advance,
      (s.journal.resolve v s.cursor.current s.cursor.advance.current).2⟩ := by
    rw [← h.current_eq, ← h.journal_eq, ← hnext.current_eq]
    rfl
  exact ⟨_, hlong, rfl, hnext.with_journal _⟩

theorem carries_privateMark (h : Inside e b bs s t) :
    Carries (privateMark v (atPrivate s.cursor)) (privateMark v (atPrivate t.cursor)) s t
      fun _ => Inside e b bs := by
  rw [h.atPrivate_eq, privateMark]
  split_ifs with hp
  · exact .bind (carries_passName h (kind_of_atPrivate hp)) fun _ _ _ h => .pure h.2
  · exact .pure h

theorem carries_passCommand {p : Nat} (h : Inside e b bs s t)
    (hp : v.precedence? s.cursor.current = some p) :
    Carries (passCommand v s.cursor.current) (passCommand v s.cursor.current) s t
      fun _ => Inside e b bs := by
  have hk : s.cursor.current.kind ≠ .semicolon := by
    intro hk
    simp [Vocabulary.precedence?, hk] at hp
  rw [passCommand]
  split_ifs with hname
  · refine (carries_passName h hname).mono fun _ _ hcarried => ?_
    obtain ⟨t', hlong, -, h⟩ := hcarried
    exact ⟨t', hlong, h⟩
  · exact .advance h hk

/-- A statement may end with the last semicolon. -/
theorem carries_statementEnd (h : Inside e b bs s t) (close : TokenKind) :
    Carries (statementEnd close) (statementEnd close) s t fun _ => UpTo e b bs := by
  refine .peek h ?_
  split_ifs
  · exact .bind (.advance_upTo h) fun _ _ _ h => .pure h
  · exact .pure (.inl h)
  · exact trivial

theorem carries_arguments (h : Inside e b bs s t) :
    Carries arguments arguments s t fun _ => Inside e b bs := by
  cases h with
  | @mk x xs h j =>
    rw [Carries, Gives, Leads, arguments]
    cases hskip : Cursor.skipArguments 0 x (xs ++ [e]) with
    | mk c span =>
      cases span with
      | none => exact trivial
      | some span =>
        obtain ⟨c', hlong, hin⟩ : ∃ c', Cursor.skipArguments 0 x (xs ++ b :: bs) =
            (c', some span) ∧ Inside e b bs ⟨c, j⟩ ⟨c', j⟩ := Inside.skipArguments j h hskip
        exact ⟨_, by rw [arguments, hlong], hin⟩

theorem carries_expansion (h : Inside e b bs s t) (name : Token) :
    Carries (expansion true name) (expansion strict name) s t fun _ => Inside e b bs := by
  refine .peek h ?_
  split_ifs
  · exact .bind (carries_arguments h) fun _ _ _ h => .pure h
  · exact .pure h

/-- In a strict run, what stands between parentheses is followed by the one that closes. -/
theorem carries_parenInner (h : Inside e b bs s t) (inner : Expr) :
    Carries (parenInner true (.ok inner)) (parenInner strict (.ok inner)) s t fun _ s' t' =>
      s'.cursor.current.kind = .rightParen ∧ Inside e b bs s' t' := by
  refine .peek h ?_
  split_ifs with hk
  · exact .pure ⟨hk, h⟩
  · exact .of_gives_false (gives_bind_recover_strict _ _ _ _ _)

theorem carries_closingParen (h : Inside e b bs s t)
    (hk : s.cursor.current.kind = .rightParen) :
    Carries closingParen closingParen s t fun _ => Inside e b bs := by
  refine .peek h ?_
  rw [if_pos hk]
  exact .bind (.advance h (by simp [hk])) fun _ _ _ h => .pure h

theorem carries_expect (h : Inside e b bs s t) {kind : TokenKind} (hk : kind ≠ .semicolon) :
    Carries (expect kind) (expect kind) s t fun _ => Inside e b bs := by
  rw [Carries, Gives, leads_expect]
  split_ifs with hkind
  have hne : s.cursor.current.kind ≠ .semicolon := by rwa [hkind]
  refine ⟨{ t with cursor := t.cursor.advance }, ?_, h.advance hne⟩
  rw [expect, h.current_eq, if_pos hkind, advance, h.current_eq]

theorem gives_moreElements_strict (fuel : Nat) (d : Diagnostic) (s : ParseState) :
    Gives (moreElements v true fuel d) s fun _ _ => False := by
  cases fuel with
  | zero => trivial
  | succ fuel =>
    rw [moreElements]
    exact gives_bind_recover_strict _ _ _ s _

/-! ## Lists of statements -/

theorem statements_of_closes (fuel : Nat) {close : TokenKind}
    (h : closes close (t.cursor.dropWhile Cursor.isSeparator).current.kind = true) :
    statements v strict (fuel + 1) close t =
      .ok [] { t with cursor := t.cursor.dropWhile Cursor.isSeparator } := by
  rw [statements, bind_of_ok (show move _ t = .ok () _ from rfl),
    bind_of_ok (show peek _ = .ok _ _ from rfl)]
  rw [if_pos h]
  rfl

theorem statements_of_statement {close : TokenKind} {st : Statement} {u : ParseState}
    (h : closes close (t.cursor.dropWhile Cursor.isSeparator).current.kind = false)
    (hst : statement v strict fuel close
      { t with cursor := t.cursor.dropWhile Cursor.isSeparator } = .ok st u) :
    statements v strict (fuel + 1) close t =
      (statements v strict fuel close >>= fun ss => pure (st :: ss)) u := by
  rw [statements, bind_of_ok (show move _ t = .ok () _ from rfl),
    bind_of_ok (show peek _ = .ok _ _ from rfl), if_neg (by simp [h]),
    bind_of_ok (attempt_of_ok hst)]

/-- A strict run gives statements if they are closed at once, or if it gives a statement and more
statements after it. -/
theorem statements_strict_cases {close : TokenKind} {ss : List Statement} {s' : ParseState}
    (h : statements v true (fuel + 1) close s = .ok ss s') :
    let from' : ParseState := { s with cursor := s.cursor.dropWhile Cursor.isSeparator }
    (closes close from'.cursor.current.kind = true ∧ ss = [] ∧ s' = from') ∨
      closes close from'.cursor.current.kind = false ∧
        ∃ st u rest, statement v true fuel close from' = .ok st u ∧
          statements v true fuel close u = .ok rest s' ∧ ss = st :: rest := by
  intro from'
  have hgives : Gives (statements v true (fuel + 1) close) s fun ss s' =>
      (closes close from'.cursor.current.kind = true ∧ ss = [] ∧ s' = from') ∨
      closes close from'.cursor.current.kind = false ∧
        ∃ st u rest, statement v true fuel close from' = .ok st u ∧
          statements v true fuel close u = .ok rest s' ∧ ss = st :: rest := by
    rw [Gives, statements, leads_bind, leads_move, leads_bind, leads_peek]
    split_ifs with hc
    · exact .inl ⟨hc, rfl, rfl⟩
    rw [leads_bind, leads_attempt, Leads]
    cases hst : statement v true fuel close from' with
    | error d u =>
      exact (gives_bind_recover_strict _ _ _ u _).mono fun _ _ hfalse => hfalse.elim
    | ok st u =>
      show Leads (statements v true fuel close >>= _) u _ _
      rw [leads_bind, Leads]
      cases hss : statements v true fuel close u with
      | error d w => trivial
      | ok rest w => exact .inr ⟨by simpa using hc, st, u, rest, rfl, hss, rfl⟩
  exact hgives.of_ok h

/-! ## All rules -/

/-- With the given budget, what a rule gives in a strict run it gives also with the budget `k`
more and with other tokens behind those ahead. Where a block of code is read, the strict run may
also come to the end. -/
structure Follows (v : Vocabulary) (strict : Bool) (e b : Token) (bs : List Token)
    (k fuel : Nat) : Prop where
  statements {s t s' : ParseState} {ss : List Statement} (h : UpTo e b bs s t)
    (hss : statements v true fuel .rightBrace s = .ok ss s') :
    s'.cursor.current.kind = .endOfInput ∨
      ∃ t', statements v strict (k + fuel) .rightBrace t = .ok ss t' ∧ Inside e b bs s' t'
  statement {s t : ParseState} (h : Inside e b bs s t) (close : TokenKind) :
    Carries (statement v true fuel close) (statement v strict (k + fuel) close) s t
      fun _ => UpTo e b bs
  statementBody {s t : ParseState} (h : Inside e b bs s t) (isPrivate : Bool) :
    Carries (statementBody v true fuel isPrivate) (statementBody v strict (k + fuel) isPrivate)
      s t fun _ => Inside e b bs
  expression {s t : ParseState} (h : Inside e b bs s t) (least : Nat) :
    Carries (expression v true fuel least) (expression v strict (k + fuel) least) s t
      fun _ => Inside e b bs
  operations {s t : ParseState} (h : Inside e b bs s t) (least : Nat) (left : Expr) :
    Carries (operations v true fuel least left) (operations v strict (k + fuel) least left) s t
      fun _ => Inside e b bs
  operand {s t : ParseState} (h : Inside e b bs s t) :
    Carries (operand v true fuel) (operand v strict (k + fuel)) s t fun _ => Inside e b bs
  named {s t : ParseState} (h : Inside e b bs s t)
    (hk : s.cursor.current.kind = .identifier) :
    Carries (named v true fuel) (named v strict (k + fuel)) s t fun _ => Inside e b bs
  array {s t : ParseState} (h : Inside e b bs s t)
    (hk : s.cursor.current.kind = .leftBracket) :
    Carries (array v true fuel) (array v strict (k + fuel)) s t fun _ => Inside e b bs
  elements {s t : ParseState} (h : Inside e b bs s t) :
    Carries (elements v true fuel) (elements v strict (k + fuel)) s t fun _ => Inside e b bs
  code {s t : ParseState} (h : Inside e b bs s t)
    (hk : s.cursor.current.kind = .leftBrace) :
    Carries (code v true fuel) (code v strict (k + fuel)) s t fun _ => Inside e b bs
  paren {s t : ParseState} (h : Inside e b bs s t)
    (hk : s.cursor.current.kind = .leftParen) :
    Carries (paren v true fuel) (paren v strict (k + fuel)) s t fun _ => Inside e b bs

namespace Follows

variable (ih : Follows v strict e b bs k fuel)
include ih

theorem statements_succ (he : e.kind = .endOfInput) {s' : ParseState} {ss : List Statement}
    (h : UpTo e b bs s t) (hss : Grammar.statements v true (fuel + 1) .rightBrace s = .ok ss s') :
    s'.cursor.current.kind = .endOfInput ∨
      ∃ t', Grammar.statements v strict (k + fuel + 1) .rightBrace t = .ok ss t' ∧
        Inside e b bs s' t' := by
  -- Without tokens that both states share, the strict run stands on the end.
  have hend : s.cursor.dropWhile Cursor.isSeparator = ⟨e, []⟩ →
      s'.cursor.current.kind = .endOfInput := by
    intro hcursor
    rcases statements_strict_cases hss with ⟨-, -, rfl⟩ | ⟨hc, -⟩
    · rw [hcursor]
      exact he
    · simp [hcursor, closes, he] at hc
  have hshared : UpTo e b bs s t → s.cursor.dropWhile Cursor.isSeparator = ⟨e, []⟩ ∨
      Inside e b bs { s with cursor := s.cursor.dropWhile Cursor.isSeparator }
        { t with cursor := t.cursor.dropWhile Cursor.isSeparator } := by
    rintro (h | ⟨j, rfl, rfl⟩)
    · exact (h.dropWhile Cursor.isSeparator).symm.imp And.left id
    · exact .inl rfl
  rcases hshared h with hcursor | h
  · exact .inl (hend hcursor)
  have hcurrent := congrArg Token.kind h.current_eq
  rcases statements_strict_cases hss with ⟨hc, rfl, rfl⟩ | ⟨hc, st, u, rest, hst, hrest, rfl⟩
  · exact .inr ⟨_, statements_of_closes _ (by rwa [hcurrent]), h⟩
  · obtain ⟨t₁, hlong, h₁⟩ := (ih.statement h .rightBrace).of_ok hst
    refine (ih.statements h₁ hrest).imp id fun hcarried => ?_
    obtain ⟨t₂, hlong₂, h₂⟩ := hcarried
    refine ⟨t₂, ?_, h₂⟩
    rw [statements_of_statement (by rwa [hcurrent]) hlong, bind_of_ok hlong₂]
    rfl

theorem statement_succ (h : Inside e b bs s t) (close : TokenKind) :
    Carries (Grammar.statement v true (fuel + 1) close)
      (Grammar.statement v strict (k + fuel + 1) close) s t fun _ => UpTo e b bs := by
  rw [Grammar.statement, Grammar.statement]
  show Carries (privateMark v (atPrivate s.cursor) >>= fun _ => _)
    (privateMark v (atPrivate t.cursor) >>= fun _ => _) s t _
  refine .bind (carries_privateMark h) fun _ s' t' h' => ?_
  rw [h.atPrivate_eq]
  refine .bind (ih.statementBody h' _) fun st _ _ h => ?_
  exact .bind (carries_statementEnd h close) fun _ _ _ h => .pure h

theorem statementBody_succ (h : Inside e b bs s t) (isPrivate : Bool) :
    Carries (Grammar.statementBody v true (fuel + 1) isPrivate)
      (Grammar.statementBody v strict (k + fuel + 1) isPrivate) s t
      fun _ => Inside e b bs := by
  rw [Grammar.statementBody, Grammar.statementBody]
  show Carries (if atAssignment s.cursor then _ else _) (if atAssignment t.cursor then _ else _)
    s t _
  rw [h.atAssignment_eq]
  split_ifs with ha
  · refine .bind (carries_passName h (kind_of_atAssignment ha)) ?_
    rintro target s' t' ⟨hcursor, h⟩
    have hassign : s'.cursor.current.kind = .assign := by
      simp only [atAssignment, Bool.and_eq_true, decide_eq_true_eq] at ha
      rw [hcursor]
      exact ha.2
    exact .bind (.advance h (by simp [hassign])) fun _ _ _ h =>
      .bind (ih.expression h 0) fun _ _ _ h => .pure h
  · refine .bind (ih.expression h 0) fun expr s t h => .peek h ?_
    split_ifs with hk
    · refine .bind (.advance h ?_) fun _ _ _ h => .bind (ih.expression h 0) fun _ _ _ h => .pure h
      simp only [Bool.and_eq_true, decide_eq_true_eq] at hk
      simp [hk.1]
    · exact .pure h

theorem expression_succ (h : Inside e b bs s t) (least : Nat) :
    Carries (Grammar.expression v true (fuel + 1) least)
      (Grammar.expression v strict (k + fuel + 1) least) s t fun _ => Inside e b bs := by
  rw [Grammar.expression, Grammar.expression]
  exact .bind (ih.operand h) fun left _ _ h => ih.operations h least left

theorem operations_succ (h : Inside e b bs s t) (least : Nat) (left : Expr) :
    Carries (Grammar.operations v true (fuel + 1) least left)
      (Grammar.operations v strict (k + fuel + 1) least left) s t fun _ => Inside e b bs := by
  rw [Grammar.operations, Grammar.operations]
  refine .peek h ?_
  cases hp : v.precedence? s.cursor.current with
  | none => exact .pure h
  | some p =>
    dsimp only
    split_ifs
    · exact .pure h
    refine .bind (carries_passCommand h hp) fun op _ _ h => ?_
    exact .bind (ih.expression h (p + 1)) fun right _ _ h => ih.operations h least _

theorem operand_succ (h : Inside e b bs s t) :
    Carries (Grammar.operand v true (fuel + 1)) (Grammar.operand v strict (k + fuel + 1)) s t
      fun _ => Inside e b bs := by
  rw [Grammar.operand, Grammar.operand]
  refine .peek h ?_
  split_ifs with hsign
  · have hk : s.cursor.current.kind ≠ .semicolon := by
      intro hk
      simp [Token.isSign, Token.isOperator, hk] at hsign
    exact .bind (.advance h hk) fun _ _ _ h => .bind (ih.operand h) fun _ _ _ h => .pure h
  cases hk : s.cursor.current.kind with
  | identifier => exact ih.named h hk
  | number => exact .bind (.advance h (by simp [hk])) fun _ _ _ h => .pure h
  | string => exact .bind (.advance h (by simp [hk])) fun _ _ _ h => .pure h
  | leftBracket => exact ih.array h hk
  | leftBrace => exact ih.code h hk
  | leftParen => exact ih.paren h hk
  | _ => exact trivial

theorem named_succ (h : Inside e b bs s t) (hk : s.cursor.current.kind = .identifier) :
    Carries (Grammar.named v true (fuel + 1)) (Grammar.named v strict (k + fuel + 1)) s t
      fun _ => Inside e b bs := by
  rw [Grammar.named, Grammar.named]
  refine .bind (.advance h (by simp [hk])) fun x _ _ h => .bind (.resolve h x) ?_
  intro meaning s t h
  cases meaning with
  | command o =>
    refine .peek h ?_
    split_ifs
    · exact .bind (ih.operand h) fun _ _ _ h => .pure h
    · exact .pure h
  | expansion => exact carries_expansion h x
  | magic => exact .pure h
  | plain => exact .pure h

theorem array_succ (h : Inside e b bs s t) (hk : s.cursor.current.kind = .leftBracket) :
    Carries (Grammar.array v true (fuel + 1)) (Grammar.array v strict (k + fuel + 1)) s t
      fun _ => Inside e b bs := by
  rw [Grammar.array, Grammar.array]
  refine .bind (.advance h (by simp [hk])) fun _ _ _ h => .bind (ih.elements h) ?_
  exact fun _ _ _ h => .pure h

theorem elements_succ (h : Inside e b bs s t) :
    Carries (Grammar.elements v true (fuel + 1)) (Grammar.elements v strict (k + fuel + 1)) s t
      fun _ => Inside e b bs := by
  rw [Grammar.elements, Grammar.elements]
  refine .peek h ?_
  cases hk : s.cursor.current.kind with
  | rightBracket => exact .bind (.advance h (by simp [hk])) fun _ _ _ h => .pure h
  | endOfInput => exact trivial
  | _ =>
    refine .attempt (ih.expression h 0) (fun expr s t h => .peek h ?_) fun d s' => ?_
    · cases hnext : s.cursor.current.kind with
      | comma =>
        exact .bind (.advance h (by simp [hnext])) fun _ _ _ h =>
          .bind (ih.elements h) fun _ _ _ h => .pure h
      | rightBracket => exact .bind (.advance h (by simp [hnext])) fun _ _ _ h => .pure h
      | _ =>
        exact .of_gives_false ((gives_moreElements_strict fuel _ s).andThen
          fun _ _ hfalse => hfalse.elim)
    · exact gives_moreElements_strict fuel d s'

theorem code_succ (h : Inside e b bs s t) (hk : s.cursor.current.kind = .leftBrace) :
    Carries (Grammar.code v true (fuel + 1)) (Grammar.code v strict (k + fuel + 1)) s t
      fun _ => Inside e b bs := by
  rw [Grammar.code, Grammar.code]
  refine .bind (.advance h (by simp [hk])) fun opening s t h => ?_
  rw [Carries, Gives, leads_bind, Leads]
  cases hbody : Grammar.statements v true fuel .rightBrace s with
  | error d s' => trivial
  | ok body s' =>
  rcases ih.statements (.inl h) hbody with hend | ⟨t', hlong, h'⟩
  · -- There is no brace to close the block.
    refine Gives.andThen (Q := fun _ _ => False) ?_ fun _ _ hfalse => hfalse.elim
    rw [Gives, leads_expect, if_neg (by simp [hend])]
    trivial
  · rw [bind_of_ok hlong]
    exact Carries.bind (carries_expect h' (by simp)) fun _ _ _ h => Carries.pure h

theorem paren_succ (h : Inside e b bs s t) (hk : s.cursor.current.kind = .leftParen) :
    Carries (Grammar.paren v true (fuel + 1)) (Grammar.paren v strict (k + fuel + 1)) s t
      fun _ => Inside e b bs := by
  rw [Grammar.paren, Grammar.paren]
  refine .bind (.advance h (by simp [hk])) fun opening s t h => ?_
  refine .attempt (ih.expression h 0) (fun expr s t h => ?_) fun d s' => ?_
  · refine .bind (carries_parenInner h expr) ?_
    rintro inner s' t' ⟨hk, h⟩
    exact .bind (carries_closingParen h hk) fun _ _ _ h => .pure h
  · rw [parenInner]
    refine Gives.andThen (Q := fun _ _ => False) ?_ fun _ _ hfalse => hfalse.elim
    exact gives_bind_recover_strict _ _ _ s' _

end Follows

/-- What a rule gives in a strict run, it gives also with more budget and with other tokens behind
those ahead. -/
theorem follows (he : e.kind = .endOfInput) (v : Vocabulary) (strict : Bool) (k : Nat) :
    ∀ fuel, Follows v strict e b bs k fuel
  | 0 =>
    { statements := fun _ hss => by cases hss
      statement := fun _ _ => trivial
      statementBody := fun _ _ => trivial
      expression := fun _ _ => trivial
      operations := fun _ _ _ => trivial
      operand := fun _ => trivial
      named := fun _ _ => trivial
      array := fun _ _ => trivial
      elements := fun _ => trivial
      code := fun _ _ => trivial
      paren := fun _ _ => trivial }
  | fuel + 1 =>
    have ih := follows he v strict k fuel
    { statements := ih.statements_succ he
      statement := ih.statement_succ
      statementBody := ih.statementBody_succ
      expression := ih.expression_succ
      operations := ih.operations_succ
      operand := ih.operand_succ
      named := ih.named_succ
      array := ih.array_succ
      elements := ih.elements_succ
      code := ih.code_succ
      paren := ih.paren_succ }

/-! ## Scripts -/

/-- Separators in front of statements do not matter. -/
theorem statements_of_dropWhile_eq {s t : ParseState} (fuel : Nat) (close : TokenKind)
    (hc : s.cursor.dropWhile Cursor.isSeparator = t.cursor.dropWhile Cursor.isSeparator)
    (hj : s.journal = t.journal) :
    statements v strict (fuel + 1) close s = statements v strict (fuel + 1) close t := by
  rw [statements, bind_of_ok (show move _ s = .ok () _ from rfl),
    bind_of_ok (show move _ t = .ok () _ from rfl), hc, hj]

/-- If a strict run reads the shared tokens as statements, the other run reads the same statements
and then goes on with what follows. It makes a call for each statement, and a statement has a
token. -/
theorem statements_append (he : e.kind = .endOfInput) (v : Vocabulary) (strict : Bool) :
    ∀ (fuel : Nat) {m : Nat} {s t s' : ParseState} {ss : List Statement}, fuel ≤ m →
      UpTo e b bs s t → statements v true fuel .endOfInput s = .ok ss s' →
      ∃ n, m ≤ n + (s.cursor.rest.length) ∧
        statements v strict m .endOfInput t =
          (statements v strict n .endOfInput >>= fun more => pure (ss ++ more))
            ⟨⟨b, bs⟩, s'.journal⟩
  | 0, _, _, _, _, _, _, _, hss => by cases hss
  | fuel + 1, 0, _, _, _, _, hm, _, _ => absurd hm (Nat.not_succ_le_zero fuel)
  | fuel + 1, m + 1, s, t, s', ss, hm, h, hss => by
    -- With the shared tokens read, the runs are where what follows begins.
    have hread : s.cursor.dropWhile Cursor.isSeparator = ⟨e, []⟩ →
        t.cursor.dropWhile Cursor.isSeparator = Cursor.dropWhile Cursor.isSeparator ⟨b, bs⟩ →
        t.journal = s.journal → ∃ n, m + 1 ≤ n + s.cursor.rest.length ∧
          statements v strict (m + 1) .endOfInput t =
            (statements v strict n .endOfInput >>= fun more => pure (ss ++ more))
              ⟨⟨b, bs⟩, s'.journal⟩ := by
      intro hshort hlong hj
      rcases statements_strict_cases hss with ⟨-, rfl, rfl⟩ | ⟨hc, -⟩
      · refine ⟨m + 1, Nat.le_add_right _ _, ?_⟩
        rw [statements_of_dropWhile_eq (t := ⟨⟨b, bs⟩, s.journal⟩) m .endOfInput hlong hj]
        simp only [List.nil_append, bind_pure]
      · simp [hshort, closes, he] at hc
    rcases h with h | ⟨j, rfl, rfl⟩
    · rcases h.dropWhile Cursor.isSeparator with hin | ⟨hshort, hlong⟩
      · have hcurrent := congrArg Token.kind hin.current_eq
        rcases statements_strict_cases hss with ⟨hc, -⟩ | ⟨hc, st, u, rest, hst, hrest, rfl⟩
        · exact absurd (by simpa [closes] using hc) hin.kind_ne
        have hle : fuel ≤ m := Nat.le_of_succ_le_succ hm
        obtain ⟨t', hlong, h'⟩ :=
          ((follows he v strict (m - fuel) fuel).statement hin .endOfInput).of_ok hst
        rw [Nat.sub_add_cancel hle] at hlong
        obtain ⟨n, hn, hmore⟩ := statements_append he v strict fuel hle h' hrest
        have hlt : u.cursor.rest.length <
            (s.cursor.dropWhile Cursor.isSeparator).rest.length :=
          (gives_statement (hin.ends he) .endOfInput).of_ok hst
        have hdrop := length_rest_dropWhile_le Cursor.isSeparator s.cursor
        refine ⟨n, by omega, ?_⟩
        rw [statements_of_statement (by rwa [hcurrent]) hlong, bind_congr_left hmore]
        simp only [bind_assoc, pure_bind, List.cons_append]
      · exact hread hshort hlong h.journal_eq
    · exact hread rfl rfl rfl

/-- With enough budget statements are read in the same way, whatever the budget is. -/
theorem statements_budget (ht : Ends t.cursor.tokens) (close : TokenKind) {n m : Nat}
    (hn : (Call.statements close).need t ≤ n) (hm : (Call.statements close).need t ≤ m) :
    statements v strict n close t = statements v strict m close t := by
  have x : Exits :=
    { exhausted := fun _ => fail "", unopened := fail "", misplaced := fail "" }
  have hsame : ∀ {fuel : Nat}, (Call.statements close).need t ≤ fuel →
      statements v (x.mode strict) ((Call.statements close).need t) close t =
        statements v strict fuel close t :=
    fun hfuel => x.agrees v strict (Nat.le_refl _) hfuel (.statements close) ht trivial
      (Nat.le_refl _)
  rw [← hsame hn, hsame hm]

end Grammar

/-! ## What follows -/

mutual

theorem Expr.map_id : ∀ e : Expr, e.map id id = e
  | .number _ | .string _ | .reference _ | .expansion _ _ | .nullary _ | .invalid _ => rfl
  | .array elements _ => congrArg (Expr.array · _) (mapExprs_id elements)
  | .code body _ => congrArg (Expr.code · _) (mapStatements_id body)
  | .paren inner _ => congrArg (Expr.paren · _) inner.map_id
  | .unary _ right => congrArg (Expr.unary _) right.map_id
  | .binary left _ right => congrArg₂ (Expr.binary · _) left.map_id right.map_id
  | .dangling left _ => congrArg (Expr.dangling · _) left.map_id

theorem mapExprs_id : ∀ es : List Expr, mapExprs id id es = es
  | [] => rfl
  | e :: es => congrArg₂ List.cons e.map_id (mapExprs_id es)

theorem Statement.map_id : ∀ s : Statement, s.map id id = s
  | .assignment _ target value => congrArg₂ (Statement.assignment _) target.map_id value.map_id
  | .expression value => congrArg Statement.expression value.map_id

theorem mapStatements_id : ∀ ss : List Statement, mapStatements id id ss = ss
  | [] => rfl
  | s :: ss => congrArg₂ List.cons s.map_id (mapStatements_id ss)

end

/-- Runs are the same but for what the first one had found before. -/
def Likeness.appended (before : List Entry) : Likeness where
  token := id
  span := id
  diagnostic := id
  Journals := fun i j => i.aborted = j.aborted ∧ i.entries.toList = before ++ j.entries.toList
  kind_token := fun _ => rfl
  name_token := fun _ => rfl
  text_token := fun _ _ => rfl
  span_token := fun _ => rfl
  span_through := fun _ _ => rfl
  span_diagnostic := fun _ => rfl
  diagnostic_unexpected := fun expected h => congrArg (Token.unexpected · expected) h
  aborted_eq := And.left
  usage := fun assigned h ht => by
    obtain rfl := ht
    exact ⟨h.1, by simp [h.2]⟩
  report := fun h hd => by
    obtain rfl := hd
    exact ⟨h.1, by simp [h.2]⟩
  repaired := fun h hd => ⟨h.1, by simpa [h.2] using hd⟩
  abort := fun h => ⟨rfl, h.2⟩

namespace Script

/-- What was found before stays in front, and changes nothing about what is read. -/
theorem read_appended (v : Vocabulary) (strict : Bool) (tokens : List Token) {j : Journal}
    (hj : j.aborted = false) :
    (read v strict tokens j).1 = (read v strict tokens {}).1 ∧
      (read v strict tokens j).2.aborted = (read v strict tokens {}).2.aborted ∧
      (read v strict tokens j).2.entries.toList =
        j.entries.toList ++ (read v strict tokens {}).2.entries.toList := by
  have hcursor : (Cursor.ofTokens tokens).map id = (Cursor.ofTokens tokens).map id := rfl
  obtain ⟨htree, haborted, hentries⟩ :=
    alike_read (.appended j.entries.toList) v strict hcursor (i := j) (j := {}) ⟨hj, by simp⟩
  have hmap : Script.map id id = id := by
    funext script
    rw [Script.map, mapStatements_id]
    rfl
  have hsame : ∀ r : Except Diagnostic Script, (r.map (Script.map id id)).mapError id = r := by
    rw [hmap]
    rintro (d | script) <;> rfl
  refine ⟨?_, haborted, hentries⟩
  rw [← hsame (read v strict tokens j).1, ← hsame (read v strict tokens {}).1]
  exact htree

/-- A run that has nothing to say was not aborted. -/
theorem aborted_read (v : Vocabulary) (strict : Bool) (tokens : List Token)
    (h : (read v strict tokens {}).2.diagnostics = []) :
    (read v strict tokens {}).2.aborted = false := by
  obtain ⟨s, hsteps, hs⟩ := exists_steps_read v strict tokens {}
  rw [hs] at h ⊢
  by_contra ha
  have hlt := hsteps.length_diagnostics_lt rfl (by simpa using ha)
  rw [h] at hlt
  exact absurd hlt (Nat.not_lt_zero _)

/-- A run that reads tokens as a script without an error is, strict or not, a strict run. -/
theorem statements_of_read {v : Vocabulary} {strict : Bool} {tokens : List Token}
    {script : Script} {j : Journal} (h : read v strict tokens {} = (.ok script, j))
    (hclean : j.diagnostics = []) :
    ∃ s, Grammar.statements v true (budget tokens) .endOfInput ⟨.ofTokens tokens, {}⟩ =
        .ok script.statements s ∧ s.journal = j ∧
      script.span = (Cursor.ofTokens tokens).current.span.through s.cursor.current.span := by
  have hstrict : read v true tokens {} = (.ok script, j) := by
    cases strict with
    | true => exact h
    | false =>
      rcases read_strict v tokens with ⟨heq, -⟩ | ⟨d, -, hd, hprefix⟩
      · rw [heq, h]
      · have hle := (Journal.isPrefix_diagnostics hprefix).length_le
        rw [hd, h, hclean] at hle
        exact absurd hle (by simp)
  rw [read_eq] at hstrict
  cases hrun : Grammar.statements v true (budget tokens) .endOfInput ⟨.ofTokens tokens, {}⟩ with
  | error d s =>
    rw [hrun] at hstrict
    cases hstrict
  | ok ss s =>
    rw [hrun] at hstrict
    cases hstrict
    exact ⟨s, rfl, rfl, rfl⟩

end Script

namespace Cursor

/-- Tokens without an end get one. -/
theorem exists_completed : ∀ (t : Token) (ts : List Token),
    (∀ u ∈ t :: ts, u.kind ≠ .endOfInput) →
    ∃ e, e.kind = .endOfInput ∧ completed t ts = ts ++ [e]
  | t, [], h => ⟨.ending t.span none, rfl, by simp [completed, h t]⟩
  | t, u :: us, h => by
    obtain ⟨e, he, hus⟩ := exists_completed u us fun w hw => h w (List.mem_cons_of_mem t hw)
    exact ⟨e, he, by rw [completed, hus, List.cons_append]⟩

theorem ofTokens_of_ends {t : Token} {ts : List Token} (h : Ends (t :: ts)) :
    ofTokens (t :: ts) = ⟨t, ts⟩ := by
  obtain ⟨body, e, hbody⟩ : ∃ body e, t :: ts = body ++ [e] :=
    ⟨_, _, (List.dropLast_append_getLast (List.cons_ne_nil t ts)).symm⟩
  have he : e.kind = .endOfInput := h e ⟨body, hbody.symm⟩
  have htokens : (ofTokens (body ++ [e])).tokens = body ++ [e] := tokens_ofTokens he
  rw [← hbody] at htokens
  exact congrArg₂ Cursor.mk (List.cons.inj htokens).1 (List.cons.inj htokens).2

end Cursor

namespace Script

/-- What follows tokens that end in a semicolon and are read without an error is read from what
they left in the journal. -/
theorem read_append_eq {v : Vocabulary} {strict : Bool} {as bs : List Token} {first : Script}
    {j : Journal} (has : Terminated as) (hne : as ≠ []) (hbs : Ends bs) (hne' : bs ≠ [])
    (h : read v strict as {} = (.ok first, j)) (hclean : j.diagnostics = []) :
    read v strict (as ++ bs) {} =
      ((read v strict bs j).1.map fun second =>
        ⟨first.statements ++ second.statements, first.span.through second.span⟩,
        (read v strict bs j).2) := by
  obtain ⟨x, xs, rfl⟩ := List.exists_cons_of_ne_nil hne
  obtain ⟨b, bs, rfl⟩ := List.exists_cons_of_ne_nil hne'
  have hend : ∀ u ∈ x :: xs, u.kind ≠ .endOfInput := by
    intro u hu
    obtain ⟨before, after, happend⟩ := List.append_of_mem hu
    exact (has u after ⟨before, happend.symm⟩).1
  obtain ⟨e, he, hcompleted⟩ := Cursor.exists_completed x xs hend
  have hshort : Cursor.ofTokens (x :: xs) = ⟨x, xs ++ [e]⟩ := by
    rw [Cursor.ofTokens, hcompleted]
  have hbstokens : Cursor.ofTokens (b :: bs) = ⟨b, bs⟩ := Cursor.ofTokens_of_ends hbs
  have hlong : Cursor.ofTokens (x :: xs ++ b :: bs) = ⟨x, xs ++ b :: bs⟩ :=
    Cursor.ofTokens_of_ends (hbs.append (x :: xs) hne')
  obtain ⟨s, hfirst, rfl, hspan⟩ := statements_of_read h hclean
  rw [hshort] at hfirst hspan
  have hbudget : budget (x :: xs) ≤ budget (x :: xs ++ b :: bs) := by
    simp only [budget, hshort, hlong, List.length_append, List.length_cons, List.length_nil]
    omega
  have hstart : Parse.UpTo e b bs ⟨⟨x, xs ++ [e]⟩, {}⟩ ⟨⟨x, xs ++ b :: bs⟩, {}⟩ :=
    .inl (.mk has {})
  obtain ⟨n, hn, hmore⟩ :=
    Grammar.statements_append he v strict (budget (x :: xs)) hbudget hstart hfirst
  have hsame : Grammar.statements v strict n .endOfInput ⟨⟨b, bs⟩, s.journal⟩ =
      Grammar.statements v strict (budget (b :: bs)) .endOfInput ⟨⟨b, bs⟩, s.journal⟩ := by
    refine Grammar.statements_budget (t := ⟨⟨b, bs⟩, s.journal⟩) hbs .endOfInput ?_ ?_
    · simp only [budget, hlong, List.length_append, List.length_cons, List.length_nil] at hn
      simp only [Grammar.Call.need, Grammar.Call.rank]
      omega
    · simp only [budget, hbstokens, Grammar.Call.need, Grammar.Call.rank]
      omega
  rw [read_eq, read_eq, hlong, hbstokens, hmore, Parse.bind_congr_left hsame]
  cases hrun : Grammar.statements v strict (budget (b :: bs)) .endOfInput
    ⟨⟨b, bs⟩, s.journal⟩ with
  | ok more u =>
    rw [Parse.bind_of_ok hrun, hspan]
    rfl
  | error d u =>
    rw [Parse.bind_of_error hrun]
    rfl

end Script

/-! ## Variables -/

/-- What the table knows of the named variable, which is nothing if it has no record of it. -/
def VariableTable.about (table : VariableTable) (name : String) : Variable :=
  (table.find? name).getD { name := foldCase name }

theorem Journal.about_table (j : Journal) (name : String) :
    j.table.about name = Variable.ofEntries j.entries.toList (foldCase name) := by
  rw [VariableTable.about, table_eq_foldl, VariableTable.find?_foldl]
  split_ifs with hname
  · rfl
  · exact (Variable.ofEntries_of_not_mem hname).symm

/-- Reading is compositional at the boundaries of statements. Tokens without an end that end in a
semicolon and are read without an error about their order, and any tokens after them that end in
an end : together they make the statements of the first, followed by those that the second make
alone, or fail as the second fail alone. The errors are exactly those of the second alone, and the
run is aborted just if it is aborted there. For each variable, what uses it, what defines it and
the comments of its definitions are those of the first followed by those of the second. -/
theorem read_append (v : Vocabulary) (strict : Bool) (as bs : List Token) (first : Script)
    (j : Journal) (hend : ∀ t ∈ as, t.kind ≠ .endOfInput)
    (hlast : as.getLast?.map Token.kind = some .semicolon)
    (hread : Script.read v strict as {} = (.ok first, j))
    (hclean : ∀ d ∈ j.diagnostics, d.kind ≠ .syntaxError)
    (hbs : bs.getLast?.map Token.kind = some .endOfInput) :
    let whole := Script.read v strict (as ++ bs) {}
    let alone := Script.read v strict bs {}
    (whole.1 = alone.1.map fun second =>
      ⟨first.statements ++ second.statements, first.span.through second.span⟩) ∧
    whole.2.errors = alone.2.errors ∧ whole.2.aborted = alone.2.aborted ∧
    ∀ name,
      let before := j.table.about name
      let after := alone.2.table.about name
      let joined := whole.2.table.about name
      joined.usages = before.usages ++ after.usages ∧
        joined.definitions = before.definitions ++ after.definitions ∧
        joined.comments = before.comments ++ after.comments := by
  intro whole alone
  have hnone : j.diagnostics = [] := by
    refine List.eq_nil_iff_forall_not_mem.2 fun d hd => ?_
    have hd' : d ∈ (Script.read v strict as {}).2.diagnostics := by rwa [hread]
    exact hclean d hd (Script.mem_diagnostics_read hd').1
  have haborted : j.aborted = false := by
    have hread' := Script.aborted_read v strict as
    rw [hread] at hread'
    exact hread' hnone
  have has : Terminated as := by
    intro t ts hsuffix
    refine ⟨hend t (hsuffix.subset List.mem_cons_self), fun hts => ?_⟩
    rw [List.singleton_suffix_iff_getLast?_eq_some.1 (hts ▸ hsuffix)] at hlast
    exact Option.some.inj hlast
  have hends : Ends bs := by
    intro t hsuffix
    rw [List.singleton_suffix_iff_getLast?_eq_some.1 hsuffix] at hbs
    exact Option.some.inj hbs
  have hwhole := Script.read_append_eq has (by rintro rfl; simp at hlast) hends
    (by rintro rfl; simp at hbs) hread hnone
  obtain ⟨hscript, habort, hentries⟩ := Script.read_appended v strict bs haborted
  have hjournal : whole.2 = (Script.read v strict bs j).2 := by
    show (Script.read v strict (as ++ bs) {}).2 = _
    rw [hwhole]
  refine ⟨?_, ?_, ?_, fun name => ?_⟩
  · show (Script.read v strict (as ++ bs) {}).1 = (Script.read v strict bs {}).1.map _
    rw [hwhole, hscript]
  · rw [Journal.errors, Journal.errors, hjournal, Journal.diagnostics_eq_filterMap, hentries,
      List.filterMap_append, ← Journal.diagnostics_eq_filterMap, hnone]
    rfl
  · rw [hjournal, habort]
  · intro before after joined
    have hparts : joined = Variable.ofEntries
        (j.entries.toList ++ alone.2.entries.toList) (foldCase name) := by
      show whole.2.table.about name = _
      rw [Journal.about_table, hjournal, hentries]
    have hbefore : before = _ := j.about_table name
    have hafter : after = _ := alone.2.about_table name
    rw [hparts, hbefore, hafter]
    simp only [Variable.ofEntries, List.filterMap_append, List.map_append,
      and_self]

/-- Two assignments, followed by an array that is not closed and by a statement that is read after
it is repaired. -/
theorem read_append_unclosed :
    let as := (Token.scan "_a = 1; _B = _a + 2;").dropLast
    let bs := Token.scan "_b = [_a, ; _A = 3] ; _b;"
    let whole := Script.read {} false (as ++ bs) {}
    let alone := Script.read {} false bs {}
    (∀ t ∈ as, t.kind ≠ .endOfInput) ∧ as.getLast?.map Token.kind = some .semicolon ∧
      bs.getLast?.map Token.kind = some .endOfInput ∧
      alone.2.errors.map Diagnostic.message = ["unexpected ';', expected an expression"] ∧
      whole.2.errors = alone.2.errors ∧
      (whole.1.map (·.statements.length)).toOption = some 4 ∧
      ∃ first j, Script.read {} false as {} = (.ok first, j) ∧ j.diagnostics = [] ∧
        (whole.2.table.about "_A").usages =
          (j.table.about "_A").usages ++ (alone.2.table.about "_A").usages := by
  intro as bs whole alone
  have hend : ∀ t ∈ as, t.kind ≠ .endOfInput := by
    decide +kernel
  have hlast : as.getLast?.map Token.kind = some .semicolon := by
    decide +kernel
  have hbs : bs.getLast?.map Token.kind = some .endOfInput := by
    decide +kernel
  have hok : (Script.read {} false as {}).1.isOk = true := by
    decide +kernel
  have hclean : (Script.read {} false as {}).2.diagnostics = [] := by
    decide +kernel
  cases hread : Script.read {} false as {} with
  | mk outcome j =>
    rw [hread] at hok hclean
    cases outcome with
    | error d => cases hok
    | ok first =>
      obtain ⟨-, herrors, -, htable⟩ := read_append {} false as bs first j hend hlast hread
        (by simp [hclean]) hbs
      exact ⟨hend, hlast, hbs, by decide +kernel, herrors, by decide +kernel, first, j, rfl, hclean,
        (htable "_A").1⟩

end SqfCheck
