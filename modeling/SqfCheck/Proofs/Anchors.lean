import SqfCheck.Proofs.Binding

/-!
# Where nodes stand

Every node of a script stands where tokens stand (`anchors_of_read`) : its span begins where some
token begins, and ends where that token or a later one ends (`Span.Anchored`). This holds of what
stands in for a failure too.

An expression begins where the rule that reads it begins (`Expr.LaidOut`), so what is known of a
rule is said of the tokens ahead of it, and is kept when more tokens are ahead. Brackets, braces
and parentheses are closed by a token ahead of them, or by the end in place of one. A failure
between parentheses that is repaired leaves a node at the token that the failure blames.
-/

namespace SqfCheck

/-! ## Spans -/

namespace Span

variable {span : Span} {tokens more : List Token} {c : Cursor}

/-- The span ends where one of the tokens ends. -/
def EndsIn (span : Span) (tokens : List Token) : Prop :=
  ∃ u ∈ tokens, span.last = u.span.last

/-- The span begins where the token under the cursor begins, and ends where that token or one
after it ends. -/
structure StartsAt (span : Span) (c : Cursor) : Prop where
  first_eq : span.first = c.current.span.first
  endsIn : span.EndsIn c.tokens

/-- The span begins where one of the tokens begins, and ends where that token or a later one
ends. -/
def Anchored (span : Span) (tokens : List Token) : Prop :=
  ∃ c : Cursor, c.tokens <:+ tokens ∧ span.StartsAt c

theorem EndsIn.mono (h : span.EndsIn tokens) (hsub : tokens <:+ more) : span.EndsIn more := by
  obtain ⟨u, hu, hlast⟩ := h
  exact ⟨u, hsub.subset hu, hlast⟩

theorem endsIn_of_mem {u : Token} (hu : u ∈ tokens) : u.span.EndsIn tokens :=
  ⟨u, hu, rfl⟩

theorem endsIn_current (c : Cursor) : c.current.span.EndsIn c.tokens :=
  endsIn_of_mem List.mem_cons_self

theorem Anchored.mono (h : span.Anchored tokens) (hsub : tokens <:+ more) :
    span.Anchored more := by
  obtain ⟨c, hc, hspan⟩ := h
  exact ⟨c, hc.trans hsub, hspan⟩

theorem StartsAt.anchored (h : span.StartsAt c) : span.Anchored c.tokens :=
  ⟨c, List.suffix_refl _, h⟩

theorem anchored_current (c : Cursor) : c.current.span.Anchored c.tokens :=
  StartsAt.anchored ⟨rfl, endsIn_current c⟩

theorem anchored_of_mem {u : Token} (hu : u ∈ tokens) : u.span.Anchored tokens := by
  obtain ⟨before, after, rfl⟩ := List.append_of_mem hu
  exact (anchored_current ⟨u, after⟩).mono (List.suffix_append _ _)

end Span

/-! ## Nodes -/

/-- All of the nodes are anchored in the tokens. -/
def Anchors (tokens : List Token) (nodes : List Expr) : Prop :=
  ∀ n ∈ nodes, n.span.Anchored tokens

namespace Anchors

variable {tokens more : List Token} {nodes others : List Expr}

theorem nil : Anchors tokens [] := by
  simp [Anchors]

theorem append (h : Anchors tokens nodes) (h' : Anchors tokens others) :
    Anchors tokens (nodes ++ others) :=
  List.forall_mem_append.2 ⟨h, h'⟩

theorem mono (h : Anchors tokens nodes) (hsub : tokens <:+ more) : Anchors more nodes :=
  fun n hn => (h n hn).mono hsub

end Anchors

namespace Expr

/-- The expression begins at the cursor, and all in it is anchored in the tokens ahead. -/
structure LaidOut (c : Cursor) (e : Expr) : Prop where
  startsAt : e.span.StartsAt c
  anchors : Anchors c.tokens e.nodes

variable {c d : Cursor} {e : Expr}

/-- What begins with the token under the cursor, ends where one of the tokens ahead ends, and has
only nodes in it that are anchored, is laid out. -/
theorem laidOut_through {close : Span} {inner : List Expr} (hnodes : e.nodes = e :: inner)
    (hspan : e.span = c.current.span.through close) (hclose : close.EndsIn c.tokens)
    (hinner : Anchors c.tokens inner) : e.LaidOut c := by
  have hstarts : e.span.StartsAt c := by
    rw [hspan]
    exact ⟨rfl, hclose⟩
  refine ⟨hstarts, ?_⟩
  rw [hnodes]
  exact List.forall_mem_cons.2 ⟨hstarts.anchored, hinner⟩

theorem laidOut_leaf (hnodes : e.nodes = [e]) (hspan : e.span = c.current.span) : e.LaidOut c :=
  laidOut_through hnodes hspan (Span.endsIn_current c) .nil

theorem LaidOut.unary {right : Expr} (h : right.LaidOut d) (hsub : d.tokens <:+ c.tokens) :
    (unary c.current right).LaidOut c :=
  laidOut_through rfl rfl (h.startsAt.endsIn.mono hsub) (h.anchors.mono hsub)

theorem LaidOut.binary {left right : Expr} {op : Token} (h : left.LaidOut c)
    (hright : right.LaidOut d) (hsub : d.tokens <:+ c.tokens) :
    (binary left op right).LaidOut c := by
  have hstarts : (Expr.binary left op right).span.StartsAt c :=
    ⟨h.startsAt.first_eq, hright.startsAt.endsIn.mono hsub⟩
  have hoperands : Anchors c.tokens (left.nodes ++ right.nodes) :=
    h.anchors.append (hright.anchors.mono hsub)
  exact ⟨hstarts, List.forall_mem_cons.2 ⟨hstarts.anchored, hoperands⟩⟩

end Expr

/-- An argument list is closed by one of its tokens. -/
theorem Cursor.exists_of_skipArguments {c : Cursor} {span : Span} :
    ∀ {depth : Nat} {t : Token} {rest : List Token},
      skipArguments depth t rest = (c, some span) → ∃ u ∈ t :: rest, span = u.span
  | _, _, [], h => by cases h
  | depth, t, u :: us, h => by
    have hlater : ∀ {n : Nat}, skipArguments n u us = (c, some span) →
        ∃ w ∈ t :: u :: us, span = w.span := by
      intro n hn
      obtain ⟨w, hw, hspan⟩ := exists_of_skipArguments hn
      exact ⟨w, List.mem_cons_of_mem t hw, hspan⟩
    unfold skipArguments at h
    split at h
    · exact hlater h
    · split at h
      · exact hlater h
      · cases h
        exact ⟨t, List.mem_cons_self, rfl⟩
    · cases h
    · exact hlater h

namespace Grammar

open Parse

variable {v : Vocabulary} {strict : Bool} {fuel : Nat} {t : ParseState}

/-! ## Rules without recursion -/

theorem laidOut_expansion {c : Cursor} (hsub : t.cursor.tokens <:+ c.tokens) :
    Gives (expansion strict c.current) t fun e _ => e.LaidOut c := by
  rw [Gives, expansion]
  simp only [leads_bind, leads_peek]
  split_ifs
  · rw [leads_bind, leads_arguments]
    split
    · next cursor span hskip =>
      obtain ⟨u, hu, rfl⟩ := Cursor.exists_of_skipArguments hskip
      exact Expr.laidOut_through rfl rfl (Span.endsIn_of_mem (hsub.subset hu)) .nil
    · trivial
  · exact Expr.laidOut_leaf rfl rfl

theorem endsIn_closingParen : Gives closingParen t fun close _ => close.EndsIn t.cursor.tokens := by
  rw [Gives, closingParen]
  simp only [leads_bind, leads_peek]
  split_ifs
  · exact Span.endsIn_current t.cursor
  · exact Span.endsIn_current t.cursor

/-- A failure that is repaired leaves a node at the token it blames. -/
theorem anchors_parenInner {tokens : List Token} (hsub : t.cursor.tokens <:+ tokens)
    {outcome : Except Diagnostic Expr} (hb : ∀ d, outcome = .error d → Blames d t)
    (hok : ∀ e, outcome = .ok e → Anchors tokens e.nodes) :
    Gives (parenInner strict outcome) t fun e _ => Anchors tokens e.nodes := by
  cases outcome with
  | ok inner =>
    rw [Gives, parenInner]
    simp only [leads_bind, leads_peek]
    split_ifs
    · exact hok inner rfl
    · rw [leads_bind, leads_recover]
      split
      · trivial
      split
      · trivial
      · exact hok inner rfl
  | error failure =>
    rw [Gives, parenInner, leads_bind, leads_recover]
    split
    · trivial
    next ha =>
    split
    · trivial
    · obtain ⟨expected, rfl⟩ := (hb failure rfl).resolve_left ha
      exact List.forall_mem_singleton.2 ((Span.anchored_current t.cursor).mono hsub)

/-! ## All rules -/

/-- With the given budget, what every rule gives is anchored in the tokens ahead of it, and
expressions begin at its cursor. -/
structure LaysOut (v : Vocabulary) (strict : Bool) (fuel : Nat) : Prop where
  statements (t : ParseState) (close : TokenKind) :
    Gives (statements v strict fuel close) t
      fun ss _ => Anchors t.cursor.tokens (nodesOfStatements ss)
  statement (t : ParseState) (close : TokenKind) :
    Gives (statement v strict fuel close) t fun st _ => Anchors t.cursor.tokens st.nodes
  statementBody (t : ParseState) (isPrivate : Bool) :
    Gives (statementBody v strict fuel isPrivate) t fun st _ => Anchors t.cursor.tokens st.nodes
  expression (t : ParseState) (least : Nat) :
    Gives (expression v strict fuel least) t fun e _ => e.LaidOut t.cursor
  operations {c : Cursor} {t : ParseState} (hsub : t.cursor.tokens <:+ c.tokens) (least : Nat)
    {left : Expr} (hleft : left.LaidOut c) :
    Gives (operations v strict fuel least left) t fun e _ => e.LaidOut c
  operand (t : ParseState) :
    Gives (operand v strict fuel) t fun e _ => e.LaidOut t.cursor
  named {t : ParseState} (hk : t.cursor.current.kind = .identifier) :
    Gives (named v strict fuel) t fun e _ => e.LaidOut t.cursor
  array (t : ParseState) :
    Gives (array v strict fuel) t fun e _ => e.LaidOut t.cursor
  elements (t : ParseState) :
    Gives (elements v strict fuel) t
      fun r _ => Anchors t.cursor.tokens (nodesOfExprs r.1) ∧ r.2.EndsIn t.cursor.tokens
  moreElements {t : ParseState} {failure : Diagnostic} (hb : Blames failure t) :
    Gives (moreElements v strict fuel failure) t
      fun r _ => Anchors t.cursor.tokens (nodesOfExprs r.1) ∧ r.2.EndsIn t.cursor.tokens
  code (t : ParseState) : Gives (code v strict fuel) t fun e _ => e.LaidOut t.cursor
  paren (t : ParseState) : Gives (paren v strict fuel) t fun e _ => e.LaidOut t.cursor

namespace LaysOut

variable (ih : LaysOut v strict fuel)
include ih

theorem statements_succ (t : ParseState) (close : TokenKind) :
    Gives (Grammar.statements v strict (fuel + 1) close) t
      fun ss _ => Anchors t.cursor.tokens (nodesOfStatements ss) := by
  rw [Gives, Grammar.statements]
  simp only [leads_bind, leads_move, leads_peek]
  have hd : Steps v strict t ⟨t.cursor.dropWhile Cursor.isSeparator, t.journal⟩ :=
    Steps.dropWhile _ .refl
  split_ifs
  · exact .nil
  refine (ih.statement _ close).bind_attempt ((traced v strict fuel).statement hd close)
    (fun st u hu hst => ?_) fun d u hu hb => ?_
  · refine (ih.statements u close).andThen fun ss w hss => ?_
    exact (hst.mono hd.isSuffix_tokens).append (hss.mono hu.isSuffix_tokens)
  · refine (traces_recover .semicolon true hu hb).gives_bind fun stop w hw => ?_
    split_ifs
    · exact Anchors.nil
    · exact (ih.statements w close).mono fun ss _ hss => hss.mono hw.isSuffix_tokens

theorem statement_succ (t : ParseState) (close : TokenKind) :
    Gives (Grammar.statement v strict (fuel + 1) close) t
      fun st _ => Anchors t.cursor.tokens st.nodes := by
  have hstart : Steps v strict t t := .refl
  rw [Gives, Grammar.statement, leads_bind, leads_cursor]
  refine (traces_privateMark hstart).gives_bind fun _ u hu => ?_
  refine (ih.statementBody u _).bind ((traced v strict fuel).statementBody hu _)
    fun st w hw hst => ?_
  exact (traces_statementEnd hw close).gives_bind fun _ _ _ => hst.mono hu.isSuffix_tokens

theorem statementBody_succ (t : ParseState) (isPrivate : Bool) :
    Gives (Grammar.statementBody v strict (fuel + 1) isPrivate) t
      fun st _ => Anchors t.cursor.tokens st.nodes := by
  have hstart : Steps v strict t t := .refl
  rw [Gives, Grammar.statementBody, leads_bind, leads_cursor]
  split_ifs with ha
  · refine gives_passName.bind (traces_passName hstart (kind_of_atAssignment ha))
      fun target u hu htarget => ?_
    rw [Gives, leads_bind, leads_advance]
    refine (ih.expression _ 0).andThen fun value w hvalue => ?_
    have hname : (Expr.reference target).LaidOut t.cursor :=
      Expr.laidOut_leaf rfl (by rw [htarget]; rfl)
    exact hname.anchors.append (hvalue.anchors.mono hu.pass.isSuffix_tokens)
  · refine (ih.expression t 0).bind ((traced v strict fuel).expression hstart 0)
      fun e u hu he => ?_
    rw [Gives, leads_bind, leads_peek]
    split_ifs
    · rw [leads_bind, leads_advance]
      refine (ih.expression _ 0).andThen fun value w hvalue => ?_
      exact he.anchors.append (hvalue.anchors.mono hu.pass.isSuffix_tokens)
    · exact he.anchors

theorem expression_succ (t : ParseState) (least : Nat) :
    Gives (Grammar.expression v strict (fuel + 1) least) t fun e _ => e.LaidOut t.cursor := by
  rw [Grammar.expression]
  exact (ih.operand t).bind ((traced v strict fuel).operand .refl) fun left u hu hleft =>
    ih.operations hu.isSuffix_tokens least hleft

theorem operations_succ {c : Cursor} (hsub : t.cursor.tokens <:+ c.tokens) (least : Nat)
    {left : Expr} (hleft : left.LaidOut c) :
    Gives (Grammar.operations v strict (fuel + 1) least left) t fun e _ => e.LaidOut c := by
  have hstart : Steps v strict t t := .refl
  rw [Gives, Grammar.operations, leads_bind, leads_peek]
  split
  · exact hleft
  split_ifs
  · exact hleft
  refine (traces_passCommand hstart).gives_bind fun op u hu => ?_
  refine (ih.expression u _).bind ((traced v strict fuel).expression hu _)
    fun right w hw hright => ?_
  exact ih.operations (hw.isSuffix_tokens.trans hsub) least
    (hleft.binary hright (hu.isSuffix_tokens.trans hsub))

theorem operand_succ (t : ParseState) :
    Gives (Grammar.operand v strict (fuel + 1)) t fun e _ => e.LaidOut t.cursor := by
  rw [Gives, Grammar.operand, leads_bind, leads_peek]
  split_ifs
  · rw [leads_bind, leads_advance]
    exact (ih.operand _).andThen fun right u hright =>
      hright.unary (isSuffix_tokens_advance t.cursor)
  split
  · next hk => exact ih.named hk
  · exact Expr.laidOut_leaf rfl rfl
  · exact Expr.laidOut_leaf rfl rfl
  · exact ih.array t
  · exact ih.code t
  · exact ih.paren t
  · trivial

theorem named_succ (hk : t.cursor.current.kind = .identifier) :
    Gives (Grammar.named v strict (fuel + 1)) t fun e _ => e.LaidOut t.cursor := by
  rw [Gives, Grammar.named, leads_bind, leads_advance, leads_bind, leads_resolve]
  have hname : Steps v strict t ⟨t.cursor.advance,
      (t.journal.resolve v t.cursor.current t.cursor.advance.current).2⟩ := .single (.name t hk)
  split
  · rw [leads_bind, leads_peek]
    split_ifs
    · exact (ih.operand _).andThen fun right u hright => hright.unary hname.isSuffix_tokens
    · exact Expr.laidOut_leaf rfl rfl
  · exact laidOut_expansion hname.isSuffix_tokens
  · exact Expr.laidOut_leaf rfl rfl
  · exact Expr.laidOut_leaf rfl rfl

theorem array_succ (t : ParseState) :
    Gives (Grammar.array v strict (fuel + 1)) t fun e _ => e.LaidOut t.cursor := by
  have hsub := isSuffix_tokens_advance t.cursor
  rw [Gives, Grammar.array, leads_bind, leads_advance]
  refine (ih.elements _).andThen fun r u hr => ?_
  exact Expr.laidOut_through rfl rfl (hr.2.mono hsub) (hr.1.mono hsub)

theorem elements_succ (t : ParseState) :
    Gives (Grammar.elements v strict (fuel + 1)) t
      fun r _ => Anchors t.cursor.tokens (nodesOfExprs r.1) ∧ r.2.EndsIn t.cursor.tokens := by
  rw [Gives, Grammar.elements, leads_bind, leads_peek]
  split
  · exact ⟨.nil, Span.endsIn_current t.cursor⟩
  · trivial
  refine (ih.expression t 0).bind_attempt ((traced v strict fuel).expression .refl 0)
    (fun e u hu he => ?_) fun d u hu hb => ?_
  · have hnext := hu.isSuffix_tokens
    rw [Gives, leads_bind, leads_peek]
    dsimp only
    split
    · rw [leads_bind, leads_advance]
      refine (ih.elements _).andThen fun r w hr => ?_
      exact ⟨he.anchors.append (hr.1.mono hu.pass.isSuffix_tokens),
        hr.2.mono hu.pass.isSuffix_tokens⟩
    · exact ⟨he.anchors.append .nil, (Span.endsIn_current u.cursor).mono hnext⟩
    · refine (ih.moreElements (.inr ⟨_, rfl⟩)).andThen fun r w hr => ?_
      exact ⟨he.anchors.append (hr.1.mono hnext), hr.2.mono hnext⟩
  · exact (ih.moreElements hb).mono fun r w hr =>
      ⟨hr.1.mono hu.isSuffix_tokens, hr.2.mono hu.isSuffix_tokens⟩

theorem moreElements_succ {failure : Diagnostic} (hb : Blames failure t) :
    Gives (Grammar.moreElements v strict (fuel + 1) failure) t
      fun r _ => Anchors t.cursor.tokens (nodesOfExprs r.1) ∧ r.2.EndsIn t.cursor.tokens := by
  have hstart : Steps v strict t t := .refl
  rw [Grammar.moreElements]
  refine (traces_recover .rightBracket false hstart hb).gives_bind fun stop u hu => ?_
  have hsub := hu.isSuffix_tokens
  split_ifs
  · exact ⟨.nil, (Span.endsIn_current u.cursor).mono hsub⟩
  · exact (ih.elements u).mono fun r w hr => ⟨hr.1.mono hsub, hr.2.mono hsub⟩

theorem code_succ (t : ParseState) :
    Gives (Grammar.code v strict (fuel + 1)) t fun e _ => e.LaidOut t.cursor := by
  have hpass : Steps v strict t { t with cursor := t.cursor.advance } := Steps.pass .refl
  rw [Gives, Grammar.code, leads_bind, leads_advance]
  refine (ih.statements _ .rightBrace).bind ((traced v strict fuel).statements hpass _)
    fun body u hu hbody => ?_
  rw [Gives, leads_bind, leads_expect]
  split_ifs
  exact Expr.laidOut_through rfl rfl ((Span.endsIn_current u.cursor).mono hu.isSuffix_tokens)
    (hbody.mono hpass.isSuffix_tokens)

theorem paren_succ (t : ParseState) :
    Gives (Grammar.paren v strict (fuel + 1)) t fun e _ => e.LaidOut t.cursor := by
  have hpass : Steps v strict t { t with cursor := t.cursor.advance } := Steps.pass .refl
  rw [Gives, Grammar.paren, leads_bind, leads_advance]
  have hclose : ∀ {outcome : Except Diagnostic Expr} {u : ParseState}, Steps v strict t u →
      (∀ d, outcome = .error d → Blames d u) →
      (∀ e, outcome = .ok e → Anchors t.cursor.tokens e.nodes) →
      Gives (do
        let inner ← parenInner strict outcome
        let close ← closingParen
        return Expr.paren inner (t.cursor.current.span.through close)) u
        fun e _ => e.LaidOut t.cursor := by
    intro outcome u hu hb hok
    refine (anchors_parenInner hu.isSuffix_tokens hb hok).bind (traces_parenInner hu hb)
      fun inner w hw hinner => ?_
    exact endsIn_closingParen.andThen fun close _ hend =>
      Expr.laidOut_through rfl rfl (hend.mono hw.isSuffix_tokens) hinner
  refine (ih.expression _ 0).bind_attempt ((traced v strict fuel).expression hpass 0)
    (fun e u hu he => ?_) fun d u hu hb => ?_
  · refine hclose hu (by simp) fun e' he' => ?_
    cases he'
    exact he.anchors.mono hpass.isSuffix_tokens
  · exact hclose hu (fun d' hd => by cases hd; exact hb) (by simp)

end LaysOut

/-- What every rule gives is anchored in the tokens ahead of it, whatever its budget. -/
theorem laysOut (v : Vocabulary) (strict : Bool) : ∀ fuel, LaysOut v strict fuel
  | 0 =>
    { statements _ _ := trivial
      statement _ _ := trivial
      statementBody _ _ := trivial
      expression _ _ := trivial
      operations _ _ _ _ := trivial
      operand _ := trivial
      named _ := trivial
      array _ := trivial
      elements _ := trivial
      moreElements _ := trivial
      code _ := trivial
      paren _ := trivial }
  | fuel + 1 =>
    have ih := laysOut v strict fuel
    { statements := ih.statements_succ
      statement := ih.statement_succ
      statementBody := ih.statementBody_succ
      expression := ih.expression_succ
      operations := ih.operations_succ
      operand := ih.operand_succ
      named := ih.named_succ
      array := ih.array_succ
      elements := ih.elements_succ
      moreElements := ih.moreElements_succ
      code := ih.code_succ
      paren := ih.paren_succ }

end Grammar

/-- Every node of a script is anchored in the tokens that the script was read from. -/
theorem anchors_of_read {v : Vocabulary} {strict : Bool} {tokens : List Token} {j : Journal}
    {script : Script} (h : (Script.read v strict tokens j).1 = .ok script) :
    Anchors (Cursor.ofTokens tokens).tokens script.nodes := by
  have hgives := (Grammar.laysOut v strict (Script.budget tokens)).statements
    ⟨.ofTokens tokens, j⟩ .endOfInput
  rw [Script.read_eq] at h
  split at h
  · next ss t hss =>
    obtain rfl := Except.ok.inj h
    exact hgives.of_ok hss
  · cases h

end SqfCheck
