import SqfCheck.Proofs.Boundary
import SqfCheck.Proofs.Finishing
import SqfCheck.Proofs.Nesting
import SqfCheck.Proofs.Pieces

/-!
# Nodes span their tokens

`extents_read` says where the nodes of a tree stand. What stands in a node stands within it,
whatever was repaired on the way (`within_of_read`). If nothing is wrong with the order of tokens,
every node spans just the tokens it was made of, with the brackets around it and the arguments of
macros.

Which tokens a node was made of is said for a whole tree at once (`Expr.MadeOf`). Every token of a
script is given to a statement or is a separator between statements, and so on down to the leaves,
and a property of nodes and their tokens can be asked for at each node on the way. Spans are not
looked at for this. Where nothing is wrong a strict run reads the same tree, and as it repairs
nothing, each of its rules can be asked what it made of the tokens it passed (`Grammar.Spells`).
-/

namespace SqfCheck

open Grammar Parse

/-! ## Spans of tokens -/

namespace Span

/-- The span runs from where the first of the tokens begins to where the last one ends. -/
def Fits (span : Span) (tokens : List Token) : Prop :=
  ∃ t u, tokens.head? = some t ∧ tokens.getLast? = some u ∧ span = t.span.through u.span

variable {span left right : Span} {tokens later : List Token}

theorem fits_token (t : Token) : t.span.Fits [t] :=
  ⟨t, t, rfl, rfl, rfl⟩

theorem Fits.through (h : left.Fits tokens) (h' : right.Fits later) (middle : List Token) :
    (left.through right).Fits (tokens ++ (middle ++ later)) := by
  obtain ⟨t, u, hfirst, -, rfl⟩ := h
  obtain ⟨t', u', -, hlast, rfl⟩ := h'
  exact ⟨t, u', by simp [hfirst], by simp [hlast], rfl⟩

theorem Fits.cons (h : span.Fits tokens) (t : Token) : (t.span.through span).Fits (t :: tokens) :=
  (fits_token t).through h []

theorem fits_enclosed (opening close : Token) (tokens : List Token) :
    (opening.span.through close.span).Fits (opening :: (tokens ++ [close])) :=
  ⟨opening, close, rfl, List.getLast?_concat (l := opening :: tokens), rfl⟩

end Span

/-! ## What trees are made of -/

/-- The tokens end an argument list in which `depth` parentheses are open : the last of them closes
it, and no other does. -/
def ClosesArguments : Nat → List Token → Prop
  | _, [] => False
  | depth, t :: ts =>
    match t.depthAfter depth with
    | some d => ClosesArguments d ts
    | none => ts = []

/-- The tokens are the argument list of a macro, its parentheses included. -/
structure IsArguments (tokens : List Token) : Prop where
  opens : tokens.head?.map Token.kind = some .leftParen
  closes : ClosesArguments 0 tokens

/-- The word that makes an assignment private, if it is. -/
def IsMark : Bool → List Token → Prop
  | true, tokens => ∃ word, tokens = [word] ∧ word.kind = .identifier ∧ word.name = "private"
  | false, tokens => tokens = []

mutual

/-- The expression is made of the tokens, and `P` holds of each node in it and the tokens that the
node is made of. -/
inductive Expr.MadeOf (P : Expr → List Token → Prop) : Expr → List Token → Prop
  | number {t : Token} : P (.number t) [t] → Expr.MadeOf P (.number t) [t]
  | string {t : Token} : P (.string t) [t] → Expr.MadeOf P (.string t) [t]
  | reference {t : Token} : P (.reference t) [t] → Expr.MadeOf P (.reference t) [t]
  | nullary {t : Token} : P (.nullary t) [t] → Expr.MadeOf P (.nullary t) [t]
  | bare {name : Token} {span : Span} : P (.expansion name span) [name] →
    Expr.MadeOf P (.expansion name span) [name]
  | expansion {name : Token} {span : Span} {arguments : List Token} : IsArguments arguments →
    P (.expansion name span) (name :: arguments) →
      Expr.MadeOf P (.expansion name span) (name :: arguments)
  | array {es : List Expr} {span : Span} {opening close : Token} {ts : List Token} :
    opening.kind = .leftBracket → ElementsMadeOf P es ts → close.kind = .rightBracket →
      P (.array es span) (opening :: (ts ++ [close])) →
        Expr.MadeOf P (.array es span) (opening :: (ts ++ [close]))
  | code {ss : List Statement} {span : Span} {opening close : Token} {ts : List Token} :
    opening.kind = .leftBrace → StatementsMadeOf P ss ts → close.kind = .rightBrace →
      P (.code ss span) (opening :: (ts ++ [close])) →
        Expr.MadeOf P (.code ss span) (opening :: (ts ++ [close]))
  | paren {e : Expr} {span : Span} {opening close : Token} {ts : List Token} :
    opening.kind = .leftParen → Expr.MadeOf P e ts → close.kind = .rightParen →
      P (.paren e span) (opening :: (ts ++ [close])) →
        Expr.MadeOf P (.paren e span) (opening :: (ts ++ [close]))
  | unary {op : Token} {right : Expr} {ts : List Token} : Expr.MadeOf P right ts →
    P (.unary op right) (op :: ts) → Expr.MadeOf P (.unary op right) (op :: ts)
  | binary {left right : Expr} {op : Token} {ts us : List Token} : Expr.MadeOf P left ts →
    Expr.MadeOf P right us → P (.binary left op right) (ts ++ op :: us) →
      Expr.MadeOf P (.binary left op right) (ts ++ op :: us)

/-- The expressions are made of the tokens, with commas between them and maybe one at the end. -/
inductive ElementsMadeOf (P : Expr → List Token → Prop) : List Expr → List Token → Prop
  | nil : ElementsMadeOf P [] []
  | last {e : Expr} {ts : List Token} : Expr.MadeOf P e ts → ElementsMadeOf P [e] ts
  | cons {e : Expr} {es : List Expr} {comma : Token} {ts us : List Token} : Expr.MadeOf P e ts →
    comma.kind = .comma → ElementsMadeOf P es us → ElementsMadeOf P (e :: es) (ts ++ comma :: us)

/-- The statement is made of the tokens. -/
inductive Statement.MadeOf (P : Expr → List Token → Prop) : Statement → List Token → Prop
  | assignment {isPrivate : Bool} {target value : Expr} {sign : Token} {mark ts us : List Token} :
    IsMark isPrivate mark → Expr.MadeOf P target ts → sign.kind = .assign →
      Expr.MadeOf P value us →
        Statement.MadeOf P (.assignment isPrivate target value) (mark ++ (ts ++ sign :: us))
  | expression {e : Expr} {ts : List Token} : Expr.MadeOf P e ts →
    Statement.MadeOf P (.expression e) ts

/-- The statements are made of the tokens, with separators before, between and after them. -/
inductive StatementsMadeOf (P : Expr → List Token → Prop) : List Statement → List Token → Prop
  | nil : StatementsMadeOf P [] []
  | separator {ss : List Statement} {t : Token} {ts : List Token} :
    Cursor.isSeparator t = true → StatementsMadeOf P ss ts → StatementsMadeOf P ss (t :: ts)
  | cons {s : Statement} {ss : List Statement} {ts us : List Token} : Statement.MadeOf P s ts →
    StatementsMadeOf P ss us → StatementsMadeOf P (s :: ss) (ts ++ us)

end

/-- The expression is made of some stretch of the tokens. -/
def Expr.MadeWithin (P : Expr → List Token → Prop) (e : Expr) (tokens : List Token) : Prop :=
  ∃ part, part <:+: tokens ∧ e.MadeOf P part

section

variable {P : Expr → List Token → Prop} {n e : Expr} {ts us : List Token}

theorem Expr.MadeOf.holds (h : e.MadeOf P ts) : P e ts := by
  cases h <;> assumption

theorem Expr.MadeOf.within (h : e.MadeOf P ts) : e.MadeWithin P ts :=
  ⟨ts, List.infix_refl ts, h⟩

theorem Expr.MadeWithin.mono (h : e.MadeWithin P ts) (hsub : ts <:+: us) : e.MadeWithin P us := by
  obtain ⟨part, hpart, hmade⟩ := h
  exact ⟨part, hpart.trans hsub, hmade⟩

theorem Expr.MadeWithin.enclosed (h : e.MadeWithin P ts) (opening close : Token) :
    e.MadeWithin P (opening :: (ts ++ [close])) :=
  h.mono ⟨[opening], [close], rfl⟩

theorem Expr.MadeWithin.before (h : e.MadeWithin P ts) (us : List Token) :
    e.MadeWithin P (ts ++ us) :=
  h.mono (List.prefix_append ts us).isInfix

theorem Expr.MadeWithin.after (h : e.MadeWithin P us) (ts : List Token) :
    e.MadeWithin P (ts ++ us) :=
  h.mono (List.suffix_append ts us).isInfix

theorem Expr.MadeWithin.cons (h : e.MadeWithin P ts) (t : Token) : e.MadeWithin P (t :: ts) :=
  h.after [t]

mutual

/-- Every node of an expression is made of some stretch of its tokens. -/
theorem Expr.MadeOf.within_of_mem {e : Expr} {ts : List Token} (h : e.MadeOf P ts)
    (hn : n ∈ e.nodes) : n.MadeWithin P ts := by
  by_cases hself : n = e
  · exact hself ▸ h.within
  match h with
  | .number _ | .string _ | .reference _ | .nullary _ | .bare _ | .expansion _ _ =>
    exact absurd (List.mem_singleton.1 hn) hself
  | .array _ hes _ _ =>
    exact (hes.within_of_mem ((List.mem_cons.1 hn).resolve_left hself)).enclosed _ _
  | .code _ hss _ _ =>
    exact (hss.within_of_mem ((List.mem_cons.1 hn).resolve_left hself)).enclosed _ _
  | .paren _ he _ _ =>
    exact (he.within_of_mem ((List.mem_cons.1 hn).resolve_left hself)).enclosed _ _
  | .unary hright _ =>
    exact (hright.within_of_mem ((List.mem_cons.1 hn).resolve_left hself)).cons _
  | .binary hleft hright _ =>
    rcases List.mem_append.1 ((List.mem_cons.1 hn).resolve_left hself) with hn | hn
    · exact (hleft.within_of_mem hn).before _
    · exact ((hright.within_of_mem hn).cons _).after _

theorem ElementsMadeOf.within_of_mem {es : List Expr} {ts : List Token}
    (h : ElementsMadeOf P es ts) (hn : n ∈ nodesOfExprs es) : n.MadeWithin P ts := by
  match h with
  | .nil => cases hn
  | .last he => exact he.within_of_mem (by simpa [nodesOfExprs] using hn)
  | .cons he _ hes =>
    rcases List.mem_append.1 hn with hn | hn
    · exact (he.within_of_mem hn).before _
    · exact ((hes.within_of_mem hn).cons _).after _

theorem Statement.MadeOf.within_of_mem {s : Statement} {ts : List Token} (h : s.MadeOf P ts)
    (hn : n ∈ s.nodes) : n.MadeWithin P ts := by
  match h with
  | .expression he => exact he.within_of_mem hn
  | .assignment _ htarget _ hvalue =>
    rcases List.mem_append.1 hn with hn | hn
    · exact ((htarget.within_of_mem hn).before _).after _
    · exact (((hvalue.within_of_mem hn).cons _).after _).after _

theorem StatementsMadeOf.within_of_mem {ss : List Statement} {ts : List Token}
    (h : StatementsMadeOf P ss ts) (hn : n ∈ nodesOfStatements ss) : n.MadeWithin P ts := by
  match h with
  | .nil => cases hn
  | .separator _ hss => exact (hss.within_of_mem hn).cons _
  | .cons hs hss =>
    rcases List.mem_append.1 hn with hn | hn
    · exact (hs.within_of_mem hn).before _
    · exact (hss.within_of_mem hn).after _

end

end

/-- The span of the expression runs over the tokens. -/
abbrev Expr.Fits (e : Expr) (tokens : List Token) : Prop :=
  e.span.Fits tokens

/-! ## Stretches of tokens -/

namespace Cursor

/-- The property holds of the tokens from the first cursor up to the second one. -/
def Takes (c d : Cursor) (R : List Token → Prop) : Prop :=
  ∃ seg, c.tokens = seg ++ d.tokens ∧ R seg

variable {c d e : Cursor} {R S T : List Token → Prop}

theorem takes_refl (h : R []) : c.Takes c R :=
  ⟨[], rfl, h⟩

theorem Takes.append (h : c.Takes d R) (h' : d.Takes e S)
    (hT : ∀ ts us, R ts → S us → T (ts ++ us)) : c.Takes e T := by
  obtain ⟨ts, hts, hR⟩ := h
  obtain ⟨us, hus, hS⟩ := h'
  exact ⟨ts ++ us, by rw [hts, hus, List.append_assoc], hT ts us hR hS⟩

theorem Takes.mono (h : c.Takes d R) (hS : ∀ ts, R ts → S ts) : c.Takes d S := by
  obtain ⟨ts, hts, hR⟩ := h
  exact ⟨ts, hts, hS ts hR⟩

/-- A token that is not the end is passed. -/
theorem takes_token (hc : Ends c.tokens) (hk : c.current.kind ≠ .endOfInput) :
    c.Takes c.advance (· = [c.current]) := by
  obtain ⟨u, us, hrest⟩ := List.exists_cons_of_ne_nil (hc.rest_ne_nil hk)
  refine ⟨[c.current], ?_, rfl⟩
  simp [Cursor.tokens, Cursor.advance, hrest]

/-- A token that is not the end comes before what is taken after it. -/
theorem Takes.cons (h : c.advance.Takes d R) (hc : Ends c.tokens)
    (hk : c.current.kind ≠ .endOfInput) (hS : ∀ ts, R ts → S (c.current :: ts)) :
    c.Takes d S := by
  refine (takes_token hc hk).append h fun ts us hts hus => ?_
  rw [hts]
  exact hS us hus

theorem takes_seek : ∀ {rest : List Token} {t : Token},
    Takes ⟨t, rest⟩ (seek isSeparator t rest) (∀ u ∈ ·, isSeparator u = true)
  | [], t => takes_refl (by simp)
  | u :: us, t => by
    rw [seek]
    split_ifs with ht
    · obtain ⟨seps, htokens, hseps⟩ : Takes ⟨u, us⟩ (seek isSeparator u us) _ := takes_seek
      exact ⟨t :: seps, congrArg (t :: ·) htokens, List.forall_mem_cons.2 ⟨ht, hseps⟩⟩
    · exact takes_refl (by simp)

/-- The argument list that is skipped is taken, and its end is where its last token ends. -/
theorem takes_skipArguments {span : Span} : ∀ {depth : Nat} {t : Token} {rest : List Token},
    skipArguments depth t rest = (c, some span) →
      Takes ⟨t, rest⟩ c fun seg => seg.head? = some t ∧ ClosesArguments depth seg ∧
        ∃ close, seg.getLast? = some close ∧ span = close.span
  | _, _, [], h => by cases h
  | depth, t, u :: us, h => by
    have hnext : ∀ {n : Nat}, t.depthAfter depth = some n →
        skipArguments n u us = (c, some span) → Takes ⟨t, u :: us⟩ c fun seg =>
          seg.head? = some t ∧ ClosesArguments depth seg ∧
            ∃ close, seg.getLast? = some close ∧ span = close.span := by
      intro n hdepth hskip
      obtain ⟨seg, htokens, -, hcloses, close, hlast, hspan⟩ := takes_skipArguments hskip
      refine ⟨t :: seg, congrArg (t :: ·) htokens, rfl, ?_, close, ?_, hspan⟩
      · rwa [ClosesArguments, hdepth]
      · simp [List.getLast?_cons, hlast]
    unfold skipArguments at h
    split at h
    · next hk => exact hnext (by unfold Token.depthAfter; rw [hk]) h
    · next hk =>
      split at h
      · exact hnext (by unfold Token.depthAfter; rw [hk]) h
      · cases h
        have hdepth : t.depthAfter depth = none := by simp only [Token.depthAfter, hk]
        refine ⟨[t], rfl, rfl, ?_, t, rfl, rfl⟩
        rw [ClosesArguments, hdepth]
    · cases h
    · refine hnext ?_ h
      unfold Token.depthAfter
      split <;> simp_all

end Cursor

theorem StatementsMadeOf.separators {P : Expr → List Token → Prop} {ss : List Statement}
    {ts : List Token} (h : StatementsMadeOf P ss ts) :
    ∀ {seps : List Token}, (∀ t ∈ seps, Cursor.isSeparator t = true) →
      StatementsMadeOf P ss (seps ++ ts)
  | [], _ => h
  | _ :: _, hseps =>
    .separator (List.forall_mem_cons.1 hseps).1 (h.separators (List.forall_mem_cons.1 hseps).2)

namespace Grammar

variable {v : Vocabulary} {fuel : Nat} {t : ParseState}

/-! ## Rules without recursion -/

theorem takes_passCommand (ht : Ends t.cursor.tokens) {p : Nat}
    (hp : v.precedence? t.cursor.current = some p) :
    Gives (passCommand v t.cursor.current) t fun op u => t.cursor.Takes u.cursor (· = [op]) := by
  have hk : t.cursor.current.kind ≠ .endOfInput := by
    intro hk
    simp [Vocabulary.precedence?, hk] at hp
  rw [passCommand]
  split_ifs
  · rw [Gives, passName]
    simp only [leads_bind, leads_advance, leads_resolve, leads_pure]
    exact Cursor.takes_token ht hk
  · exact Cursor.takes_token ht hk

/-- A private assignment is an assignment after the word that makes it private. -/
theorem takes_privateMark (ht : Ends t.cursor.tokens) :
    Gives (privateMark v (atPrivate t.cursor)) t fun _ u =>
      (atPrivate t.cursor = true → atAssignment u.cursor = true) ∧
        t.cursor.Takes u.cursor (IsMark (atPrivate t.cursor)) := by
  cases hprivate : atPrivate t.cursor with
  | false => exact ⟨by simp, Cursor.takes_refl rfl⟩
  | true =>
    have hk := kind_of_atPrivate hprivate
    simp only [atPrivate, Bool.and_eq_true, decide_eq_true_eq, beq_iff_eq] at hprivate
    obtain ⟨⟨⟨-, hname⟩, hnext⟩, hassign⟩ := hprivate
    rw [privateMark, if_pos rfl, Gives, passName]
    simp only [leads_bind, leads_advance, leads_resolve, leads_pure]
    refine ⟨fun _ => ?_, (Cursor.takes_token ht (by simp [hk])).mono fun ts hts => ?_⟩
    · simp only [atAssignment, Bool.and_eq_true, decide_eq_true_eq]
      exact ⟨hnext, hassign⟩
    · exact ⟨_, hts, hk, hname⟩

theorem takes_statementEnd (ht : Ends t.cursor.tokens) (close : TokenKind) :
    Gives (statementEnd close) t fun _ u =>
      t.cursor.Takes u.cursor (∀ s ∈ ·, Cursor.isSeparator s = true) := by
  rw [Gives, statementEnd]
  simp only [leads_bind, leads_peek]
  split_ifs with hseparator
  · have hk : t.cursor.current.kind ≠ .endOfInput := by
      intro hk
      simp [Cursor.isSeparator, hk] at hseparator
    refine (Cursor.takes_token ht hk).mono fun ts hts => ?_
    rw [hts]
    exact List.forall_mem_singleton.2 hseparator
  · exact Cursor.takes_refl (by simp)
  · trivial

/-- A macro, with its argument list if it has one. -/
theorem takes_expansion {c : Cursor} {name : Token} (hname : c.Takes t.cursor (· = [name])) :
    Gives (expansion true name) t fun e u => c.Takes u.cursor (e.MadeOf Expr.Fits) := by
  rw [Gives, expansion]
  simp only [leads_bind, leads_peek]
  split_ifs with hk
  · rw [leads_bind, leads_arguments]
    split
    · next cursor span hskip =>
      refine hname.append (Cursor.takes_skipArguments hskip) ?_
      rintro _ seg rfl ⟨hfirst, hcloses, close, hlast, rfl⟩
      refine .expansion ⟨by simp [hfirst, hk], hcloses⟩ ⟨name, close, rfl, ?_, rfl⟩
      simp [List.getLast?_cons, hlast]
    · trivial
  · exact hname.mono fun ts hts => hts ▸ .bare (Span.fits_token name)

/-- In a strict run what stands between parentheses is followed by the one that closes. -/
theorem gives_parenInner_strict {outcome : Except Diagnostic Expr} :
    Gives (parenInner true outcome) t fun inner u =>
      outcome = .ok inner ∧ u = t ∧ t.cursor.current.kind = .rightParen := by
  cases outcome with
  | ok inner =>
    rw [Gives, parenInner]
    simp only [leads_bind, leads_peek]
    split_ifs with hk
    · exact ⟨rfl, rfl, hk⟩
    · exact (gives_bind_recover_strict _ .rightParen false t _).mono fun _ _ hfalse => hfalse.elim
  | error failure =>
    exact (gives_bind_recover_strict _ .rightParen false t _).mono fun _ _ hfalse => hfalse.elim

/-! ## All rules -/

/-- With the given budget, a strict run makes of the tokens it passes what every rule gives. -/
structure Spells (v : Vocabulary) (fuel : Nat) : Prop where
  statements {t : ParseState} (ht : Ends t.cursor.tokens) (close : TokenKind) :
    Gives (statements v true fuel close) t fun ss u =>
      closes close u.cursor.current.kind = true ∧
        t.cursor.Takes u.cursor (StatementsMadeOf Expr.Fits ss)
  statement {t : ParseState} (ht : Ends t.cursor.tokens) (close : TokenKind) :
    Gives (statement v true fuel close) t fun st u => t.cursor.Takes u.cursor fun seg =>
      ∃ ts seps, seg = ts ++ seps ∧ st.MadeOf Expr.Fits ts ∧
        ∀ s ∈ seps, Cursor.isSeparator s = true
  statementBody {c : Cursor} {t : ParseState} (ht : Ends t.cursor.tokens) {isPrivate : Bool}
    (hmark : c.Takes t.cursor (IsMark isPrivate))
    (hp : isPrivate = true → atAssignment t.cursor = true) :
    Gives (statementBody v true fuel isPrivate) t fun st u =>
      c.Takes u.cursor (st.MadeOf Expr.Fits)
  expression {t : ParseState} (ht : Ends t.cursor.tokens) (least : Nat) :
    Gives (expression v true fuel least) t fun e u => t.cursor.Takes u.cursor (e.MadeOf Expr.Fits)
  operations {c : Cursor} {t : ParseState} (ht : Ends t.cursor.tokens) (least : Nat) {left : Expr}
    (hleft : c.Takes t.cursor (left.MadeOf Expr.Fits)) :
    Gives (operations v true fuel least left) t fun e u => c.Takes u.cursor (e.MadeOf Expr.Fits)
  operand {t : ParseState} (ht : Ends t.cursor.tokens) :
    Gives (operand v true fuel) t fun e u => t.cursor.Takes u.cursor (e.MadeOf Expr.Fits)
  named {t : ParseState} (ht : Ends t.cursor.tokens) (hk : t.cursor.current.kind = .identifier) :
    Gives (named v true fuel) t fun e u => t.cursor.Takes u.cursor (e.MadeOf Expr.Fits)
  array {t : ParseState} (ht : Ends t.cursor.tokens) (hk : t.cursor.current.kind = .leftBracket) :
    Gives (array v true fuel) t fun e u => t.cursor.Takes u.cursor (e.MadeOf Expr.Fits)
  elements {t : ParseState} (ht : Ends t.cursor.tokens) :
    Gives (elements v true fuel) t fun r u => t.cursor.Takes u.cursor fun seg =>
      ∃ ts close, seg = ts ++ [close] ∧ close.kind = .rightBracket ∧ r.2 = close.span ∧
        ElementsMadeOf Expr.Fits r.1 ts
  code {t : ParseState} (ht : Ends t.cursor.tokens) (hk : t.cursor.current.kind = .leftBrace) :
    Gives (code v true fuel) t fun e u => t.cursor.Takes u.cursor (e.MadeOf Expr.Fits)
  paren {t : ParseState} (ht : Ends t.cursor.tokens) (hk : t.cursor.current.kind = .leftParen) :
    Gives (paren v true fuel) t fun e u => t.cursor.Takes u.cursor (e.MadeOf Expr.Fits)

namespace Spells

variable (ih : Spells v fuel) (ht : Ends t.cursor.tokens)
include ih ht

theorem statements_succ (close : TokenKind) :
    Gives (Grammar.statements v true (fuel + 1) close) t fun ss u =>
      closes close u.cursor.current.kind = true ∧
        t.cursor.Takes u.cursor (StatementsMadeOf Expr.Fits ss) := by
  have hdrop : t.cursor.Takes (t.cursor.dropWhile Cursor.isSeparator)
      (∀ u ∈ ·, Cursor.isSeparator u = true) := Cursor.takes_seek
  have hd : Steps v true t ⟨t.cursor.dropWhile Cursor.isSeparator, t.journal⟩ :=
    Steps.dropWhile _ .refl
  rw [Gives, Grammar.statements]
  simp only [leads_bind, leads_move, leads_peek]
  split_ifs with hclose
  · refine ⟨hclose, hdrop.mono fun seps hseps => ?_⟩
    simpa using StatementsMadeOf.nil.separators hseps
  refine (ih.statement (hd.ends ht) close).bind_attempt ((traced v true fuel).statement hd close)
    (fun st u hu hst => ?_) fun d u _ _ => ?_
  · refine (ih.statements (hu.ends ht) close).andThen ?_
    rintro ss w ⟨hend, hss⟩
    have hboth : (t.cursor.dropWhile Cursor.isSeparator).Takes w.cursor
        (StatementsMadeOf Expr.Fits (st :: ss)) := by
      refine hst.append hss ?_
      rintro _ us ⟨ts, seps, rfl, hts, hseps⟩ hus
      rw [List.append_assoc]
      exact .cons hts (hus.separators hseps)
    exact ⟨hend, hdrop.append hboth fun seps us hseps hus => hus.separators hseps⟩
  · exact (gives_bind_recover_strict d .semicolon true u _).mono fun _ _ hfalse => hfalse.elim

theorem statement_succ (close : TokenKind) :
    Gives (Grammar.statement v true (fuel + 1) close) t fun st u =>
      t.cursor.Takes u.cursor fun seg => ∃ ts seps, seg = ts ++ seps ∧
        st.MadeOf Expr.Fits ts ∧ ∀ s ∈ seps, Cursor.isSeparator s = true := by
  have hstart : Steps v true t t := .refl
  rw [Gives, Grammar.statement, leads_bind, leads_cursor]
  refine (takes_privateMark ht).bind (traces_privateMark hstart) ?_
  rintro _ u hu ⟨hp, hmark⟩
  refine (ih.statementBody (hu.ends ht) hmark hp).bind ((traced v true fuel).statementBody hu _)
    fun st w hw hst => ?_
  refine (takes_statementEnd (hw.ends ht) close).andThen fun _ x hend => ?_
  exact hst.append hend fun ts seps hts hseps => ⟨ts, seps, rfl, hts, hseps⟩

/-- An assignment to `target`, which was read before. -/
theorem assignment {c d : Cursor} {isPrivate : Bool} {target : Expr}
    (hmark : c.Takes d (IsMark isPrivate)) (htarget : d.Takes t.cursor (target.MadeOf Expr.Fits))
    (hk : t.cursor.current.kind = .assign) :
    Gives (do
      let _ ← advance
      let value ← Grammar.expression v true fuel 0
      return Statement.assignment isPrivate target value) t fun st u =>
      c.Takes u.cursor (st.MadeOf Expr.Fits) := by
  rw [Gives, leads_bind, leads_advance]
  have hpass : Steps v true t { t with cursor := t.cursor.advance } := Steps.pass .refl
  refine (ih.expression (hpass.ends ht) 0).andThen fun value u hvalue => ?_
  have hsign : t.cursor.Takes u.cursor fun seg =>
      ∃ us, seg = t.cursor.current :: us ∧ value.MadeOf Expr.Fits us :=
    hvalue.cons ht (by simp [hk]) fun us hus => ⟨us, rfl, hus⟩
  refine hmark.append (htarget.append hsign (T := fun seg => ∃ ts us,
    seg = ts ++ t.cursor.current :: us ∧ target.MadeOf Expr.Fits ts ∧ value.MadeOf Expr.Fits us)
    ?_) ?_
  · rintro ts _ hts ⟨us, rfl, hus⟩
    exact ⟨ts, us, rfl, hts, hus⟩
  · rintro mark _ hm ⟨ts, us, rfl, hts, hus⟩
    exact .assignment hm hts hk hus

theorem statementBody_succ {c : Cursor} {isPrivate : Bool}
    (hmark : c.Takes t.cursor (IsMark isPrivate))
    (hp : isPrivate = true → atAssignment t.cursor = true) :
    Gives (Grammar.statementBody v true (fuel + 1) isPrivate) t fun st u =>
      c.Takes u.cursor (st.MadeOf Expr.Fits) := by
  have hstart : Steps v true t t := .refl
  rw [Gives, Grammar.statementBody, leads_bind, leads_cursor]
  split
  · next ha =>
    have hk := kind_of_atAssignment ha
    have hnext : t.cursor.advance.current.kind = .assign := by
      simp only [atAssignment, Bool.and_eq_true, decide_eq_true_eq] at ha
      exact ha.2
    have hname : Steps v true t ⟨t.cursor.advance,
      (t.journal.resolve v t.cursor.current t.cursor.advance.current).2⟩ := .single (.name t hk)
    have htarget : t.cursor.Takes t.cursor.advance
        ((Expr.reference t.cursor.current).MadeOf Expr.Fits) :=
      (Cursor.takes_token ht (by simp [hk])).mono fun ts hts =>
        hts ▸ .reference (Span.fits_token _)
    rw [leads_bind]
    exact ih.assignment (hname.ends ht) hmark htarget hnext
  · next ha =>
    refine (ih.expression ht 0).bind ((traced v true fuel).expression hstart 0)
      fun e u hu he => ?_
    rw [Gives, leads_bind, leads_peek]
    split
    · next hk =>
      exact ih.assignment (hu.ends ht) hmark he (by simpa using (Bool.and_eq_true_iff.1 hk).1)
    · obtain rfl : isPrivate = false := by
        cases isPrivate with
        | false => rfl
        | true => exact absurd (hp rfl) ha
      refine hmark.append he ?_
      rintro _ us rfl hus
      exact .expression hus

theorem expression_succ (least : Nat) :
    Gives (Grammar.expression v true (fuel + 1) least) t fun e u =>
      t.cursor.Takes u.cursor (e.MadeOf Expr.Fits) := by
  rw [Grammar.expression]
  exact (ih.operand ht).bind ((traced v true fuel).operand .refl) fun left u hu hleft =>
    ih.operations (hu.ends ht) least hleft

theorem operations_succ {c : Cursor} (least : Nat) {left : Expr}
    (hleft : c.Takes t.cursor (left.MadeOf Expr.Fits)) :
    Gives (Grammar.operations v true (fuel + 1) least left) t fun e u =>
      c.Takes u.cursor (e.MadeOf Expr.Fits) := by
  have hstart : Steps v true t t := .refl
  rw [Gives, Grammar.operations, leads_bind, leads_peek]
  split
  · exact hleft
  next p hp =>
  split_ifs
  · exact hleft
  refine (takes_passCommand ht hp).bind (traces_passCommand hstart) fun op u hu hop => ?_
  refine (ih.expression (hu.ends ht) _).bind ((traced v true fuel).expression hu _)
    fun right w hw hright => ?_
  refine ih.operations (hw.ends ht) least (hleft.append (hop.append hright
    (T := fun seg => ∃ us, seg = op :: us ∧ right.MadeOf Expr.Fits us) ?_) ?_)
  · rintro _ us rfl hus
    exact ⟨us, rfl, hus⟩
  · rintro ts _ hts ⟨us, rfl, hus⟩
    exact .binary hts hus (hts.holds.through hus.holds [op])

theorem operand_succ :
    Gives (Grammar.operand v true (fuel + 1)) t fun e u =>
      t.cursor.Takes u.cursor (e.MadeOf Expr.Fits) := by
  have hpass : Steps v true t { t with cursor := t.cursor.advance } := Steps.pass .refl
  rw [Gives, Grammar.operand, leads_bind, leads_peek]
  split_ifs with hsign
  · rw [leads_bind, leads_advance]
    refine (ih.operand (hpass.ends ht)).andThen fun right u hright => ?_
    exact hright.cons ht (kind_of_isSign hsign) fun ts hts => .unary hts (hts.holds.cons _)
  split
  · next hk => exact ih.named ht hk
  · next hk =>
    exact (Cursor.takes_token ht (by simp [hk])).mono fun ts hts =>
      hts ▸ .number (Span.fits_token _)
  · next hk =>
    exact (Cursor.takes_token ht (by simp [hk])).mono fun ts hts =>
      hts ▸ .string (Span.fits_token _)
  · next hk => exact ih.array ht hk
  · next hk => exact ih.code ht hk
  · next hk => exact ih.paren ht hk
  · trivial

theorem named_succ (hk : t.cursor.current.kind = .identifier) :
    Gives (Grammar.named v true (fuel + 1)) t fun e u =>
      t.cursor.Takes u.cursor (e.MadeOf Expr.Fits) := by
  have hname : Steps v true t ⟨t.cursor.advance,
      (t.journal.resolve v t.cursor.current t.cursor.advance.current).2⟩ := .single (.name t hk)
  have hne : t.cursor.current.kind ≠ .endOfInput := by simp [hk]
  have htoken := Cursor.takes_token ht hne
  rw [Gives, Grammar.named, leads_bind, leads_advance, leads_bind, leads_resolve]
  split
  · rw [leads_bind, leads_peek]
    split_ifs
    · refine (ih.operand (hname.ends ht)).andThen fun right u hright => ?_
      exact hright.cons ht hne fun ts hts => .unary hts (hts.holds.cons _)
    · exact htoken.mono fun ts hts => hts ▸ .nullary (Span.fits_token _)
  · exact takes_expansion htoken
  · exact htoken.mono fun ts hts => hts ▸ .reference (Span.fits_token _)
  · exact htoken.mono fun ts hts => hts ▸ .reference (Span.fits_token _)

theorem array_succ (hk : t.cursor.current.kind = .leftBracket) :
    Gives (Grammar.array v true (fuel + 1)) t fun e u =>
      t.cursor.Takes u.cursor (e.MadeOf Expr.Fits) := by
  have hpass : Steps v true t { t with cursor := t.cursor.advance } := Steps.pass .refl
  rw [Gives, Grammar.array, leads_bind, leads_advance]
  refine (ih.elements (hpass.ends ht)).andThen fun r u hr => ?_
  refine hr.cons ht (by simp [hk]) ?_
  rintro _ ⟨ts, close, rfl, hclose, hspan, hts⟩
  rw [hspan]
  exact .array hk hts hclose (Span.fits_enclosed _ _ _)

theorem elements_succ :
    Gives (Grammar.elements v true (fuel + 1)) t fun r u =>
      t.cursor.Takes u.cursor fun seg => ∃ ts close, seg = ts ++ [close] ∧
        close.kind = .rightBracket ∧ r.2 = close.span ∧ ElementsMadeOf Expr.Fits r.1 ts := by
  rw [Gives, Grammar.elements, leads_bind, leads_peek]
  split
  · next hk =>
    refine (Cursor.takes_token ht (by simp [hk])).mono ?_
    rintro _ rfl
    exact ⟨[], _, rfl, hk, rfl, .nil⟩
  · trivial
  refine (ih.expression ht 0).bind_attempt ((traced v true fuel).expression .refl 0)
    (fun e u hu he => ?_) fun d u _ _ => ?_
  · rw [Gives, leads_bind, leads_peek]
    dsimp only
    split
    · next hk =>
      rw [leads_bind, leads_advance]
      refine (ih.elements (hu.pass.ends ht)).andThen fun r w hr => ?_
      refine he.append (hr.cons (hu.ends ht) (by simp [hk]) (S := fun seg => ∃ ts close,
        seg = u.cursor.current :: (ts ++ [close]) ∧ close.kind = .rightBracket ∧
          r.2 = close.span ∧ ElementsMadeOf Expr.Fits r.1 ts) ?_) ?_
      · rintro _ ⟨ts, close, rfl, hr⟩
        exact ⟨ts, close, rfl, hr⟩
      · rintro ts _ hts ⟨us, close, rfl, hclose, hspan, hus⟩
        exact ⟨ts ++ u.cursor.current :: us, close, by simp, hclose, hspan, .cons hts hk hus⟩
    · next hk =>
      refine he.append (Cursor.takes_token (hu.ends ht) (by simp [hk])) ?_
      rintro ts _ hts rfl
      exact ⟨ts, _, rfl, hk, rfl, .last hts⟩
    · exact (gives_moreElements_strict fuel _ u).andThen fun _ _ hfalse => hfalse.elim
  · exact (gives_moreElements_strict fuel d u).mono fun _ _ hfalse => hfalse.elim

theorem code_succ (hk : t.cursor.current.kind = .leftBrace) :
    Gives (Grammar.code v true (fuel + 1)) t fun e u =>
      t.cursor.Takes u.cursor (e.MadeOf Expr.Fits) := by
  have hpass : Steps v true t { t with cursor := t.cursor.advance } := Steps.pass .refl
  rw [Gives, Grammar.code, leads_bind, leads_advance]
  refine (ih.statements (hpass.ends ht) .rightBrace).bind
    ((traced v true fuel).statements hpass _) ?_
  rintro body u hu ⟨-, hbody⟩
  rw [Gives, leads_bind, leads_expect]
  split_ifs with hclose
  refine (hbody.append (Cursor.takes_token (hu.ends ht) (by simp [hclose]))
    (T := fun seg => ∃ ts, seg = ts ++ [u.cursor.current] ∧
      StatementsMadeOf Expr.Fits body ts) ?_).cons ht (by simp [hk]) ?_
  · rintro ts _ hts rfl
    exact ⟨ts, rfl, hts⟩
  · rintro _ ⟨ts, rfl, hts⟩
    exact .code hk hts hclose (Span.fits_enclosed _ _ _)

theorem paren_succ (hk : t.cursor.current.kind = .leftParen) :
    Gives (Grammar.paren v true (fuel + 1)) t fun e u =>
      t.cursor.Takes u.cursor (e.MadeOf Expr.Fits) := by
  have hpass : Steps v true t { t with cursor := t.cursor.advance } := Steps.pass .refl
  rw [Gives, Grammar.paren, leads_bind, leads_advance]
  refine (ih.expression (hpass.ends ht) 0).bind_attempt ((traced v true fuel).expression hpass 0)
    (fun e u hu he => ?_) fun d u _ _ => ?_
  · refine gives_parenInner_strict.andThen ?_
    rintro _ w ⟨heq, hw, hclose⟩
    cases heq
    rw [hw]
    rw [Gives, closingParen]
    simp only [leads_bind, leads_peek, hclose, if_true, leads_advance, leads_pure]
    refine (he.append (Cursor.takes_token (hu.ends ht) (by simp [hclose]))
      (T := fun seg => ∃ ts, seg = ts ++ [u.cursor.current] ∧
        e.MadeOf Expr.Fits ts) ?_).cons ht (by simp [hk]) ?_
    · rintro ts _ hts rfl
      exact ⟨ts, rfl, hts⟩
    · rintro _ ⟨ts, rfl, hts⟩
      exact .paren hk hts hclose (Span.fits_enclosed _ _ _)
  · refine gives_parenInner_strict.andThen ?_
    rintro _ _ ⟨heq, -⟩
    cases heq

end Spells

/-- A strict run makes of the tokens it passes what every rule gives, whatever its budget. -/
theorem spells (v : Vocabulary) : ∀ fuel, Spells v fuel
  | 0 =>
    { statements _ _ := trivial
      statement _ _ := trivial
      statementBody _ _ _ _ := trivial
      expression _ _ := trivial
      operations _ _ _ _ := trivial
      operand _ := trivial
      named _ _ := trivial
      array _ _ := trivial
      elements _ := trivial
      code _ _ := trivial
      paren _ _ := trivial }
  | fuel + 1 =>
    have ih := spells v fuel
    { statements ht := ih.statements_succ ht
      statement ht := ih.statement_succ ht
      statementBody ht := ih.statementBody_succ ht
      expression ht := ih.expression_succ ht
      operations ht := ih.operations_succ ht
      operand ht := ih.operand_succ ht
      named ht := ih.named_succ ht
      array ht := ih.array_succ ht
      elements ht := ih.elements_succ ht
      code ht := ih.code_succ ht
      paren ht := ih.paren_succ ht }

end Grammar

/-! ## Scripts -/

/-- If nothing is wrong with the order of tokens, a strict run reads the same. -/
theorem Script.read_strict_eq {v : Vocabulary} {tokens : List Token}
    (h : (read v false tokens {}).2.diagnostics = []) :
    read v true tokens {} = read v false tokens {} := by
  rcases read_strict v tokens with ⟨heq, -⟩ | ⟨d, -, hd, hprefix⟩
  · exact heq
  · have hdiagnostics := Journal.isPrefix_diagnostics hprefix
    rw [hd, h] at hdiagnostics
    simp at hdiagnostics

/-- A text in which nothing is wrong with the order of tokens makes a script of all of them but the
end, each node of which spans what it is made of. -/
theorem madeOf_of_read {v : Vocabulary} {source : String} {script : Script} {j : Journal}
    (hread : Script.read v false (Token.scan source) {} = (.ok script, j))
    (hj : j.diagnostics = []) :
    ∃ body e, Token.scan source = body ++ [e] ∧ e.kind = .endOfInput ∧
      StatementsMadeOf Expr.Fits script.statements body := by
  have hends : EndsOnce (Cursor.ofTokens (Token.scan source)).tokens :=
    Cursor.endsOnce_ofTokens_scan source
  have hstrict : Script.read v true (Token.scan source) {} =
      Script.read v false (Token.scan source) {} := Script.read_strict_eq (by rw [hread, hj])
  rw [hread, Script.read_eq] at hstrict
  split at hstrict
  · next ss u hss =>
    have hscript := congrArg Prod.fst hstrict
    cases hscript
    have hgives := (spells v (Script.budget (Token.scan source))).statements
      (t := ⟨.ofTokens (Token.scan source), {}⟩) hends.ends .endOfInput
    obtain ⟨hclose, body, htokens, hbody⟩ := hgives.of_ok hss
    have hk : u.cursor.current.kind = .endOfInput := by
      simpa [closes] using hclose
    have hlast : u.cursor.tokens = [u.cursor.current] := by
      have hsuffix : u.cursor.tokens <:+ (Cursor.ofTokens (Token.scan source)).tokens :=
        ⟨body, htokens.symm⟩
      rw [Cursor.tokens, (hends.of_isSuffix hsuffix).rest_eq_nil_iff.1 hk]
    rw [Cursor.tokens_ofTokens_scan, hlast] at htokens
    exact ⟨body, u.cursor.current, htokens, hk, hbody⟩
  · cases hstrict

/-- Where the nodes of a script stand. With repairs or without, what stands in a node stands within
its span, and the parts of statements within the span of the script. If nothing is wrong with the
order of tokens, all tokens of the text but the end are what the statements are made of, and every
node runs from where the first token that it is made of begins to where the last one ends. -/
theorem extents_read (catalogue : Catalogue) (ledger : Ledger) (source : String) :
    let v : Vocabulary := ⟨catalogue, ledger⟩
    let tokens := Token.scan source
    ∃ script j, Script.read v false tokens {} = (.ok script, j) ∧
      (∀ n ∈ script.nodes, ∀ child ∈ n.children, child.span.Within n.span) ∧
      (∀ e ∈ script.statements.flatMap Statement.parts, e.span.Within script.span) ∧
      ((∀ d ∈ j.diagnostics, d.kind ≠ .syntaxError) →
        ∃ body e, tokens = body ++ [e] ∧ e.kind = .endOfInput ∧
          StatementsMadeOf Expr.Fits script.statements body ∧
          ∀ n ∈ script.nodes, ∃ part, part <:+: body ∧ n.MadeOf Expr.Fits part ∧
            n.span.Fits part) := by
  intro v tokens
  obtain ⟨script, last, -, hread, -⟩ :=
    Script.exists_rule_repair v (j := {}) (Cursor.endsOnce_ofTokens_scan source) rfl
  have hwithin := within_of_read (congrArg Prod.fst hread)
  refine ⟨script, last.journal, hread, hwithin.1, hwithin.2, fun hclean => ?_⟩
  have hnone : last.journal.diagnostics = [] := by
    refine List.eq_nil_iff_forall_not_mem.2 fun d hd => hclean d hd ?_
    have hmem : d ∈ (Script.read v false tokens {}).2.diagnostics := by rwa [hread]
    exact (Script.mem_diagnostics_read hmem).1
  obtain ⟨body, e, hscan, hk, hbody⟩ := madeOf_of_read hread hnone
  refine ⟨body, e, hscan, hk, hbody, fun n hn => ?_⟩
  obtain ⟨part, hpart, hmade⟩ := hbody.within_of_mem hn
  exact ⟨part, hpart, hmade, hmade.holds⟩

/-- A private assignment of an array with a macro in it, and code : nothing is wrong, so every node
spans the tokens it is made of. -/
theorem extents_read_assignment :
    let ledger : Ledger := { macros := [⟨"FOO", none, []⟩] }
    let source := "private _a = [-1, foo(2; (3))]; \x7b (_a) \x7d"
    let tokens := Token.scan source
    (∀ d ∈ (Script.read ⟨{}, ledger⟩ false tokens {}).2.diagnostics, d.kind ≠ .syntaxError) ∧
      ∃ script j body e, Script.read ⟨{}, ledger⟩ false tokens {} = (.ok script, j) ∧
        tokens = body ++ [e] ∧ StatementsMadeOf Expr.Fits script.statements body ∧
        ∀ n ∈ script.nodes, ∃ part, part <:+: body ∧ n.MadeOf Expr.Fits part ∧
          n.span.Fits part := by
  intro ledger source tokens
  have hclean : ∀ d ∈ (Script.read ⟨{}, ledger⟩ false tokens {}).2.diagnostics,
      d.kind ≠ .syntaxError := by
    decide +kernel
  obtain ⟨script, j, hread, -, -, hextents⟩ := extents_read {} ledger source
  obtain ⟨body, e, htokens, -, hbody, hnodes⟩ := hextents (by rwa [hread] at hclean)
  exact ⟨hclean, script, j, body, e, hread, htokens, hbody, hnodes⟩

end SqfCheck
