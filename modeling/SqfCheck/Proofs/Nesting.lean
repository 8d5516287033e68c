import Mathlib.Data.Prod.Lex
import SqfCheck.Proofs.Positions

/-!
# Trees are nested

In every tree that is read, with repairs or without, what stands in a node stands within the span of
the node (`Expr.Nested`), and what stands in a statement of a script within the span of the script
(`within_of_read`).

The tokens of a text come one after the other (`Ascending`), so it is enough to know which token an
expression begins with and which token it does not go beyond (`Expr.Lies`) : it begins with the
token that the rule begins at, and it ends at the latest with the token that the rule leaves the
cursor on. That token is in it only where the text ends too early, for there the end stands in for
what should close a bracket.
-/

namespace SqfCheck

open Grammar Parse

/-! ## Positions in order -/

namespace Position

instance : LinearOrder Position :=
  LinearOrder.lift' (fun p => toLex (p.line, p.column)) fun ⟨_, _⟩ ⟨_, _⟩ h => by
    simpa using h

theorem lt_iff_before {p q : Position} : p < q ↔ p.Before q :=
  Prod.Lex.toLex_lt_toLex

theorem le_iff_not_before {p q : Position} : p ≤ q ↔ ¬q.Before p := by
  rw [← lt_iff_before, not_lt]

/-- A text that is not empty ends before what follows it. -/
theorem lastOf_lt_after (p : Position) {cs : List Char} (h : cs ≠ []) :
    p.lastOf cs < p.after cs := by
  rw [← List.dropLast_append_getLast h, after_append, lt_iff_before, lastOf,
    List.dropLast_concat]
  exact before_step _ _

end Position

namespace Span

/-- The first span begins and ends inside the second one. -/
def Within (s t : Span) : Prop :=
  t.first ≤ s.first ∧ s.last ≤ t.last

instance (s t : Span) : Decidable (s.Within t) :=
  inferInstanceAs (Decidable (_ ∧ _))

end Span

/-- Every token begins before it ends, and ends before the next one begins. -/
structure Ascending (tokens : List Token) : Prop where
  first_le : ∀ t ∈ tokens, t.span.first ≤ t.span.last
  last_lt : tokens.Pairwise fun t u => t.span.last < u.span.first

namespace Ascending

variable {tokens later : List Token} {c d : Cursor}

theorem of_isSuffix (h : Ascending tokens) (hs : later <:+ tokens) : Ascending later where
  first_le t ht := h.first_le t (hs.subset ht)
  last_lt := h.last_lt.sublist hs.sublist

theorem le_of_isSuffix (h : Ascending c.tokens) (hs : d.tokens <:+ c.tokens) :
    c.current.span.first ≤ d.current.span.first ∧ c.current.span.last ≤ d.current.span.last := by
  have hmem : d.current ∈ c.tokens := hs.subset List.mem_cons_self
  have hd := h.first_le d.current hmem
  rcases List.mem_cons.1 hmem with heq | hrest
  · rw [heq]
    exact ⟨le_refl _, le_refl _⟩
  · have hc := h.first_le c.current List.mem_cons_self
    have hlt := (List.pairwise_cons.1 h.last_lt).1 d.current hrest
    exact ⟨(hc.trans_lt hlt).le, (hlt.trans_le hd).le⟩

end Ascending

namespace Token

theorem place_last_lt : ∀ {ls : List Lexeme} {p : Position} {pending : Option Comment},
    (∀ l ∈ ls, l.text ≠ []) →
      (place p pending ls).Pairwise fun t u => t.span.last < u.span.first
  | [], p, pending, _ => List.pairwise_singleton _ _
  | l :: ls, p, pending, h => by
    have hls := fun m hm => h m (List.mem_cons_of_mem l hm)
    unfold place
    split
    · exact place_last_lt hls
    · exact place_last_lt hls
    · refine List.pairwise_cons.2 ⟨fun u hu => ?_, place_last_lt hls⟩
      refine (p.lastOf_lt_after (h l List.mem_cons_self)).trans_le ?_
      rcases (place_pairwise hls).1 u hu with heq | hbefore
      · exact heq.ge
      · exact (Position.lt_iff_before.2 hbefore).le

theorem ascending_scan (source : String) : Ascending (scan source) where
  first_le _ ht := Position.le_iff_not_before.2 (not_before_of_mem_scan ht)
  last_lt := place_last_lt (Lexeme.text_ne_nil_of_mem_all _)

end Token

/-! ## Nested expressions -/

/-- The expressions that a statement is made of. -/
def Statement.parts : Statement → List Expr
  | assignment _ target value => [target, value]
  | expression value => [value]

/-- The expressions that stand directly in an expression. The statements of code stand in it with
their parts. -/
def Expr.children : Expr → List Expr
  | array elements _ => elements
  | code body _ => body.flatMap Statement.parts
  | paren inner _ => [inner]
  | unary _ right => [right]
  | binary left _ right => [left, right]
  | dangling left _ => [left]
  | number _ | string _ | reference _ | expansion _ _ | nullary _ | invalid _ => []

theorem Statement.mem_nodes {n : Expr} {s : Statement} :
    n ∈ s.nodes ↔ ∃ e ∈ s.parts, n ∈ e.nodes := by
  cases s <;> simp [nodes, parts]

theorem mem_nodesOfStatements_parts {n : Expr} {ss : List Statement} :
    n ∈ nodesOfStatements ss ↔ ∃ e ∈ ss.flatMap Statement.parts, n ∈ e.nodes := by
  simp only [mem_nodesOfStatements, Statement.mem_nodes, List.mem_flatMap]
  exact ⟨fun ⟨s, hs, e, he, hn⟩ => ⟨e, ⟨s, hs, he⟩, hn⟩,
    fun ⟨e, ⟨s, hs, he⟩, hn⟩ => ⟨s, hs, e, he, hn⟩⟩

/-- The nodes of an expression are itself and those of its children. -/
theorem Expr.mem_nodes {n e : Expr} :
    n ∈ e.nodes ↔ n = e ∨ ∃ child ∈ e.children, n ∈ child.nodes := by
  cases e <;>
    simp only [nodes, children, List.mem_cons, List.mem_append, List.not_mem_nil, or_false,
      mem_nodesOfExprs, mem_nodesOfStatements_parts, exists_eq_left, exists_eq_or_imp, false_and,
      exists_false]

/-- Whatever stands in the expression, at any depth, stands within the node that it is directly
in. -/
def Expr.Nested (e : Expr) : Prop :=
  ∀ n ∈ e.nodes, ∀ child ∈ n.children, child.span.Within n.span

/-- The expressions are nested, and stand between `p` and `q`. -/
def Bounded (p q : Position) (es : List Expr) : Prop :=
  ∀ e ∈ es, p ≤ e.span.first ∧ e.span.last ≤ q ∧ e.Nested

section

variable {p p' q q' : Position} {es es' : List Expr}

theorem Bounded.nil : Bounded p q [] := by
  simp [Bounded]

theorem Bounded.mono (h : Bounded p q es) (hp : p' ≤ p) (hq : q ≤ q') : Bounded p' q' es := by
  intro e he
  obtain ⟨hfirst, hlast, hnested⟩ := h e he
  exact ⟨hp.trans hfirst, hlast.trans hq, hnested⟩

theorem Bounded.append (h : Bounded p q es) (h' : Bounded p q es') : Bounded p q (es ++ es') :=
  List.forall_mem_append.2 ⟨h, h'⟩

theorem Bounded.cons {e : Expr} (hfirst : p ≤ e.span.first) (hlast : e.span.last ≤ q)
    (hnested : e.Nested) (h : Bounded p q es) : Bounded p q (e :: es) :=
  List.forall_mem_cons.2 ⟨⟨hfirst, hlast, hnested⟩, h⟩

/-- An expression is nested if its children are, and stand between its ends. -/
theorem Expr.nested_of_bounded {e : Expr} (h : Bounded e.span.first e.span.last e.children) :
    e.Nested := by
  intro n hn
  rcases mem_nodes.1 hn with rfl | ⟨child, hchild, hn⟩
  · exact fun child hchild => ⟨(h child hchild).1, (h child hchild).2.1⟩
  · exact (h child hchild).2.2 n hn

end

namespace Expr

/-- The expression begins with the token under the first cursor, ends at the latest with that under
the second one, and is nested. -/
structure Lies (c d : Cursor) (e : Expr) : Prop where
  first_eq : e.span.first = c.current.span.first
  last_ge : c.current.span.last ≤ e.span.last
  last_le : e.span.last ≤ d.current.span.last
  nested : e.Nested

variable {c c' d : Cursor} {e : Expr}

theorem lies_through {close : Span} (hspan : e.span = c.current.span.through close)
    (hge : c.current.span.last ≤ close.last) (hle : close.last ≤ d.current.span.last)
    (hchildren : Bounded c.current.span.first close.last e.children) : e.Lies c d := by
  have hfirst : e.span.first = c.current.span.first := by rw [hspan]; rfl
  have hlast : e.span.last = close.last := by rw [hspan]; rfl
  refine ⟨hfirst, hlast ▸ hge, hlast ▸ hle, nested_of_bounded ?_⟩
  rw [hfirst, hlast]
  exact hchildren

theorem lies_leaf (hspan : e.span = c.current.span) (hchildren : e.children = [])
    (hle : c.current.span.last ≤ d.current.span.last) : e.Lies c d :=
  lies_through hspan (le_refl _) hle (hchildren ▸ .nil)

theorem Lies.bounded (h : e.Lies c d) {p : Position} (hp : p ≤ c.current.span.first) :
    Bounded p d.current.span.last [e] :=
  .cons (h.first_eq ▸ hp) h.last_le h.nested .nil

theorem Lies.unary (h : e.Lies c' d) (hc : Ascending c.tokens) (hsub : c'.tokens <:+ c.tokens) :
    (Expr.unary c.current e).Lies c d := by
  obtain ⟨hfirst, hlast⟩ := hc.le_of_isSuffix hsub
  exact lies_through rfl (hlast.trans h.last_ge) h.last_le
    (.cons (h.first_eq ▸ hfirst) (le_refl _) h.nested .nil)

theorem Lies.binary {left right : Expr} {op : Token} (hleft : left.Lies c c')
    (hright : right.Lies c' d) (hc : Ascending c.tokens) (hsub : c'.tokens <:+ c.tokens) :
    (Expr.binary left op right).Lies c d := by
  obtain ⟨hfirst, hlast⟩ := hc.le_of_isSuffix hsub
  refine ⟨hleft.first_eq, hlast.trans hright.last_ge, hright.last_le, nested_of_bounded ?_⟩
  refine .cons (le_refl _) (hleft.last_le.trans hright.last_ge) hleft.nested ?_
  refine .cons ?_ (le_refl _) hright.nested .nil
  rw [hright.first_eq]
  exact hleft.first_eq.trans_le hfirst

theorem Lies.mono (h : e.Lies c d) {d' : Cursor}
    (hle : d.current.span.last ≤ d'.current.span.last) : e.Lies c d' :=
  { h with last_le := h.last_le.trans hle }

end Expr

/-- An argument list is closed before the token that follows it. -/
theorem Cursor.le_of_skipArguments {c : Cursor} {span : Span} :
    ∀ {depth : Nat} {t : Token} {rest : List Token}, Ascending (t :: rest) →
      skipArguments depth t rest = (c, some span) →
        t.span.last ≤ span.last ∧ span.last ≤ c.current.span.last
  | _, _, [], _, h => by cases h
  | depth, t, u :: us, ht, h => by
    have hu : Ascending (u :: us) := ht.of_isSuffix (List.suffix_cons t _)
    have hnext : t.span.last ≤ u.span.last :=
      (ht.le_of_isSuffix (c := ⟨t, u :: us⟩) (d := ⟨u, us⟩) (List.suffix_cons t _)).2
    have hlater : ∀ {n : Nat}, skipArguments n u us = (c, some span) →
        t.span.last ≤ span.last ∧ span.last ≤ c.current.span.last := by
      intro n hn
      obtain ⟨hge, hle⟩ := le_of_skipArguments hu hn
      exact ⟨hnext.trans hge, hle⟩
    unfold skipArguments at h
    split at h
    · exact hlater h
    · split at h
      · exact hlater h
      · cases h
        exact ⟨le_refl _, hnext⟩
    · cases h
    · exact hlater h

/-- Steps lead to tokens that do not begin or end before. -/
theorem Parse.Steps.le {v : Vocabulary} {strict : Bool} {s t : ParseState} (h : Steps v strict s t)
    (hs : Ascending s.cursor.tokens) :
    s.cursor.current.span.first ≤ t.cursor.current.span.first ∧
      s.cursor.current.span.last ≤ t.cursor.current.span.last :=
  hs.le_of_isSuffix h.isSuffix_tokens

namespace Grammar

variable {v : Vocabulary} {strict : Bool} {fuel : Nat} {t u : ParseState}

/-! ## Rules without recursion -/

theorem lies_expansion {c : Cursor} (hc : Ascending c.tokens)
    (hsub : t.cursor.tokens <:+ c.tokens) :
    Gives (expansion strict c.current) t fun e u => e.Lies c u.cursor := by
  have hlast := (hc.le_of_isSuffix hsub).2
  rw [Gives, expansion]
  simp only [leads_bind, leads_peek]
  split_ifs
  · rw [leads_bind, leads_arguments]
    split
    · next cursor span hskip =>
      obtain ⟨hge, hle⟩ := Cursor.le_of_skipArguments (hc.of_isSuffix hsub) hskip
      exact Expr.lies_through rfl (hlast.trans hge) hle .nil
    · trivial
  · exact Expr.lies_leaf rfl rfl hlast

theorem gives_closingParen :
    Gives closingParen t fun close _ => close = t.cursor.current.span := by
  rw [Gives, closingParen]
  simp only [leads_bind, leads_peek]
  split_ifs <;> rfl

/-- What stands in for a failure stands at the token that the failure blames. -/
theorem bounded_parenInner {p : Position} (ht : Ascending t.cursor.tokens)
    (hp : p ≤ t.cursor.current.span.first) {outcome : Except Diagnostic Expr}
    (hb : ∀ d, outcome = .error d → Blames d t)
    (hok : ∀ e, outcome = .ok e → Bounded p t.cursor.current.span.last [e]) :
    Gives (parenInner strict outcome) t fun inner u =>
      Bounded p u.cursor.current.span.last [inner] := by
  have hstop : t.cursor.current.span.last ≤ (t.cursor.advance.dropWhile fun u =>
      !stopsAt .rightParen u).current.span.last := by
    have hsteps : Steps {} false t ⟨t.cursor.advance.dropWhile fun u => !stopsAt .rightParen u,
        t.journal⟩ := Steps.dropWhile _ (.single (.pass t))
    exact (hsteps.le ht).2
  cases outcome with
  | ok inner =>
    rw [Gives, parenInner]
    simp only [leads_bind, leads_peek]
    split_ifs
    · exact hok inner rfl
    · rw [leads_bind, leads_recover]
      split
      · trivial
      split
      · trivial
      · exact (hok inner rfl).mono (le_refl p) hstop
  | error failure =>
    rw [Gives, parenInner, leads_bind, leads_recover]
    split
    · trivial
    next ha =>
    split
    · trivial
    · obtain ⟨expected, rfl⟩ := (hb failure rfl).resolve_left ha
      exact .cons hp hstop (Expr.nested_of_bounded .nil) .nil

/-! ## All rules -/

/-- With the given budget, what every rule gives is nested, begins with the token that the rule
begins at or later, and ends at the latest with the token that the rule leaves the cursor on. -/
structure Encloses (v : Vocabulary) (strict : Bool) (fuel : Nat) : Prop where
  statements {t : ParseState} (ht : Ascending t.cursor.tokens) (close : TokenKind) :
    Gives (statements v strict fuel close) t fun ss u =>
      Bounded t.cursor.current.span.first u.cursor.current.span.last (ss.flatMap Statement.parts)
  statement {t : ParseState} (ht : Ascending t.cursor.tokens) (close : TokenKind) :
    Gives (statement v strict fuel close) t fun st u =>
      Bounded t.cursor.current.span.first u.cursor.current.span.last st.parts
  statementBody {t : ParseState} (ht : Ascending t.cursor.tokens) (isPrivate : Bool) :
    Gives (statementBody v strict fuel isPrivate) t fun st u =>
      Bounded t.cursor.current.span.first u.cursor.current.span.last st.parts
  expression {t : ParseState} (ht : Ascending t.cursor.tokens) (least : Nat) :
    Gives (expression v strict fuel least) t fun e u => e.Lies t.cursor u.cursor
  operations {c : Cursor} {t : ParseState} (hc : Ascending c.tokens)
    (hsub : t.cursor.tokens <:+ c.tokens) (least : Nat) {left : Expr}
    (hleft : left.Lies c t.cursor) :
    Gives (operations v strict fuel least left) t fun e u => e.Lies c u.cursor
  operand {t : ParseState} (ht : Ascending t.cursor.tokens) :
    Gives (operand v strict fuel) t fun e u => e.Lies t.cursor u.cursor
  named {t : ParseState} (ht : Ascending t.cursor.tokens)
    (hk : t.cursor.current.kind = .identifier) :
    Gives (named v strict fuel) t fun e u => e.Lies t.cursor u.cursor
  array {t : ParseState} (ht : Ascending t.cursor.tokens) :
    Gives (array v strict fuel) t fun e u => e.Lies t.cursor u.cursor
  elements {t : ParseState} (ht : Ascending t.cursor.tokens) :
    Gives (elements v strict fuel) t fun r u =>
      Bounded t.cursor.current.span.first r.2.last r.1 ∧
        t.cursor.current.span.last ≤ r.2.last ∧ r.2.last ≤ u.cursor.current.span.last
  moreElements {t : ParseState} (ht : Ascending t.cursor.tokens) {failure : Diagnostic}
    (hb : Blames failure t) :
    Gives (moreElements v strict fuel failure) t fun r u =>
      Bounded t.cursor.current.span.first r.2.last r.1 ∧
        t.cursor.current.span.last ≤ r.2.last ∧ r.2.last ≤ u.cursor.current.span.last
  code {t : ParseState} (ht : Ascending t.cursor.tokens) :
    Gives (code v strict fuel) t fun e u => e.Lies t.cursor u.cursor
  paren {t : ParseState} (ht : Ascending t.cursor.tokens) :
    Gives (paren v strict fuel) t fun e u => e.Lies t.cursor u.cursor

namespace Encloses

variable (ih : Encloses v strict fuel) (ht : Ascending t.cursor.tokens)
include ih ht

theorem statements_succ (close : TokenKind) :
    Gives (Grammar.statements v strict (fuel + 1) close) t fun ss u =>
      Bounded t.cursor.current.span.first u.cursor.current.span.last
        (ss.flatMap Statement.parts) := by
  rw [Gives, Grammar.statements]
  simp only [leads_bind, leads_move, leads_peek]
  have hd : Steps v strict t ⟨t.cursor.dropWhile Cursor.isSeparator, t.journal⟩ :=
    Steps.dropWhile _ .refl
  have hlater : ∀ {w : ParseState}, Steps v strict t w →
      Gives (Grammar.statements v strict fuel close) w fun ss x =>
        Steps v strict w x ∧ Bounded t.cursor.current.span.first x.cursor.current.span.last
          (ss.flatMap Statement.parts) := by
    intro w hw
    refine (((traced v strict fuel).statements .refl close).and
      (ih.statements (ht.of_isSuffix hw.isSuffix_tokens) close)).mono ?_ fun _ _ _ => trivial
    rintro ss x ⟨hx, hss⟩
    exact ⟨hx, hss.mono (hw.le ht).1 (le_refl _)⟩
  split_ifs
  · exact .nil
  refine (ih.statement (ht.of_isSuffix hd.isSuffix_tokens) close).bind_attempt
    ((traced v strict fuel).statement hd close) (fun st u hu hst => ?_) fun d u hu hb => ?_
  · refine (hlater hu).andThen ?_
    rintro ss w ⟨hw, hss⟩
    have hle := (hw.le (ht.of_isSuffix hu.isSuffix_tokens)).2
    exact (hst.mono (hd.le ht).1 hle).append hss
  · refine (traces_recover .semicolon true hu hb).gives_bind fun stop w hw => ?_
    split_ifs
    · exact Bounded.nil
    · exact (hlater hw).mono fun _ _ hss => hss.2

theorem statement_succ (close : TokenKind) :
    Gives (Grammar.statement v strict (fuel + 1) close) t fun st u =>
      Bounded t.cursor.current.span.first u.cursor.current.span.last st.parts := by
  have hstart : Steps v strict t t := .refl
  rw [Gives, Grammar.statement, leads_bind, leads_cursor]
  refine (traces_privateMark hstart).gives_bind fun _ u hu => ?_
  have hau := ht.of_isSuffix hu.isSuffix_tokens
  refine (ih.statementBody hau _).bind ((traced v strict fuel).statementBody .refl _)
    fun st w hw hst => ?_
  have hend : Traces v strict w (statementEnd close) w := traces_statementEnd .refl close
  refine hend.gives_bind fun _ x hx => ?_
  exact hst.mono (hu.le ht).1 (hx.le (hau.of_isSuffix hw.isSuffix_tokens)).2

/-- An assignment to `target`, which was read before. -/
theorem assignment (hu : Steps v strict t u) (isPrivate : Bool) {target : Expr}
    (htarget : target.Lies t.cursor u.cursor) :
    Gives (do
      let _ ← advance
      let value ← Grammar.expression v strict fuel 0
      return Statement.assignment isPrivate target value) u fun st w =>
      Bounded t.cursor.current.span.first w.cursor.current.span.last st.parts := by
  have hpass : Steps v strict u { u with cursor := u.cursor.advance } := Steps.pass .refl
  have hau := ht.of_isSuffix hu.isSuffix_tokens
  rw [Gives, leads_bind, leads_advance]
  refine (ih.expression (hau.of_isSuffix hpass.isSuffix_tokens) 0).bind
    ((traced v strict fuel).expression hpass 0) fun value w hw hvalue => ?_
  have hle : target.span.last ≤ w.cursor.current.span.last :=
    htarget.last_le.trans (hw.le hau).2
  exact .cons htarget.first_eq.ge hle htarget.nested (hvalue.bounded (hu.pass.le ht).1)

theorem statementBody_succ (isPrivate : Bool) :
    Gives (Grammar.statementBody v strict (fuel + 1) isPrivate) t fun st u =>
      Bounded t.cursor.current.span.first u.cursor.current.span.last st.parts := by
  have hstart : Steps v strict t t := .refl
  rw [Gives, Grammar.statementBody, leads_bind, leads_cursor]
  split_ifs with ha
  · refine gives_passName.bind (traces_passName hstart (kind_of_atAssignment ha))
      fun target u hu htarget => ?_
    rw [htarget]
    exact ih.assignment ht hu isPrivate (Expr.lies_leaf rfl rfl (hu.le ht).2)
  · refine (ih.expression ht 0).bind ((traced v strict fuel).expression hstart 0)
      fun e u hu he => ?_
    rw [Gives, leads_bind, leads_peek]
    split_ifs
    · exact ih.assignment ht hu isPrivate he
    · exact he.bounded (le_refl _)

theorem expression_succ (least : Nat) :
    Gives (Grammar.expression v strict (fuel + 1) least) t fun e u =>
      e.Lies t.cursor u.cursor := by
  rw [Grammar.expression]
  exact (ih.operand ht).bind ((traced v strict fuel).operand .refl) fun left u hu hleft =>
    ih.operations ht hu.isSuffix_tokens least hleft

omit ht in
theorem operations_succ {c : Cursor} (hc : Ascending c.tokens)
    (hsub : t.cursor.tokens <:+ c.tokens) (least : Nat) {left : Expr}
    (hleft : left.Lies c t.cursor) :
    Gives (Grammar.operations v strict (fuel + 1) least left) t fun e u => e.Lies c u.cursor := by
  have hstart : Steps v strict t t := .refl
  have ht := hc.of_isSuffix hsub
  rw [Gives, Grammar.operations, leads_bind, leads_peek]
  split
  · exact hleft
  split_ifs
  · exact hleft
  refine (traces_passCommand hstart).gives_bind fun op u hu => ?_
  have hau := ht.of_isSuffix hu.isSuffix_tokens
  refine (ih.expression hau _).bind ((traced v strict fuel).expression hu _)
    fun right w hw hright => ?_
  exact ih.operations hc (hw.isSuffix_tokens.trans hsub) least
    ((hleft.mono (hu.le ht).2).binary hright hc (hu.isSuffix_tokens.trans hsub))

theorem operand_succ :
    Gives (Grammar.operand v strict (fuel + 1)) t fun e u => e.Lies t.cursor u.cursor := by
  have hpass : Steps v strict t { t with cursor := t.cursor.advance } := Steps.pass .refl
  have hnext := (hpass.le ht).2
  rw [Gives, Grammar.operand, leads_bind, leads_peek]
  split_ifs
  · rw [leads_bind, leads_advance]
    exact (ih.operand (ht.of_isSuffix hpass.isSuffix_tokens)).andThen fun right u hright =>
      hright.unary ht hpass.isSuffix_tokens
  split
  · next hk => exact ih.named ht hk
  · exact Expr.lies_leaf rfl rfl hnext
  · exact Expr.lies_leaf rfl rfl hnext
  · exact ih.array ht
  · exact ih.code ht
  · exact ih.paren ht
  · trivial

theorem named_succ (hk : t.cursor.current.kind = .identifier) :
    Gives (Grammar.named v strict (fuel + 1)) t fun e u => e.Lies t.cursor u.cursor := by
  rw [Gives, Grammar.named, leads_bind, leads_advance, leads_bind, leads_resolve]
  have hname : Steps v strict t ⟨t.cursor.advance,
      (t.journal.resolve v t.cursor.current t.cursor.advance.current).2⟩ := .single (.name t hk)
  have hnext := (hname.le ht).2
  split
  · rw [leads_bind, leads_peek]
    split_ifs
    · exact (ih.operand (ht.of_isSuffix hname.isSuffix_tokens)).andThen fun right u hright =>
        hright.unary ht hname.isSuffix_tokens
    · exact Expr.lies_leaf rfl rfl hnext
  · exact lies_expansion ht hname.isSuffix_tokens
  · exact Expr.lies_leaf rfl rfl hnext
  · exact Expr.lies_leaf rfl rfl hnext

theorem array_succ :
    Gives (Grammar.array v strict (fuel + 1)) t fun e u => e.Lies t.cursor u.cursor := by
  have hsub := isSuffix_tokens_advance t.cursor
  obtain ⟨hfirst, hlast⟩ := ht.le_of_isSuffix hsub
  rw [Gives, Grammar.array, leads_bind, leads_advance]
  refine (ih.elements (ht.of_isSuffix hsub)).andThen ?_
  rintro r u ⟨hr, hge, hle⟩
  exact Expr.lies_through rfl (hlast.trans hge) hle (hr.mono hfirst (le_refl _))

theorem elements_succ :
    Gives (Grammar.elements v strict (fuel + 1)) t fun r u =>
      Bounded t.cursor.current.span.first r.2.last r.1 ∧
        t.cursor.current.span.last ≤ r.2.last ∧ r.2.last ≤ u.cursor.current.span.last := by
  have hnext : ∀ {u : ParseState}, Steps v strict t u →
      u.cursor.current.span.last ≤ u.cursor.advance.current.span.last := fun hu =>
    ((ht.of_isSuffix hu.isSuffix_tokens).le_of_isSuffix (isSuffix_tokens_advance _)).2
  rw [Gives, Grammar.elements, leads_bind, leads_peek]
  split
  · exact ⟨.nil, le_refl _, hnext .refl⟩
  · trivial
  refine (ih.expression ht 0).bind_attempt ((traced v strict fuel).expression .refl 0)
    (fun e u hu he => ?_) fun d u hu hb => ?_
  · obtain ⟨hfirst, hlast⟩ := hu.le ht
    have hau := ht.of_isSuffix hu.isSuffix_tokens
    rw [Gives, leads_bind, leads_peek]
    dsimp only
    split
    · have hp := hu.pass.le ht
      rw [leads_bind, leads_advance]
      refine (ih.elements (ht.of_isSuffix hu.pass.isSuffix_tokens)).andThen ?_
      rintro r w ⟨hr, hge, hle⟩
      refine ⟨.cons he.first_eq.ge ?_ he.nested (hr.mono hp.1 (le_refl _)), hp.2.trans hge, hle⟩
      exact he.last_le.trans ((hnext hu).trans hge)
    · exact ⟨he.bounded (le_refl _), hlast, hnext hu⟩
    · refine (ih.moreElements hau (.inr ⟨_, rfl⟩)).andThen ?_
      rintro r w ⟨hr, hge, hle⟩
      exact ⟨.cons he.first_eq.ge (he.last_le.trans hge) he.nested (hr.mono hfirst (le_refl _)),
        hlast.trans hge, hle⟩
  · obtain ⟨hfirst, hlast⟩ := hu.le ht
    refine (ih.moreElements (ht.of_isSuffix hu.isSuffix_tokens) hb).mono ?_
    rintro r w ⟨hr, hge, hle⟩
    exact ⟨hr.mono hfirst (le_refl _), hlast.trans hge, hle⟩

theorem moreElements_succ {failure : Diagnostic} (hb : Blames failure t) :
    Gives (Grammar.moreElements v strict (fuel + 1) failure) t fun r u =>
      Bounded t.cursor.current.span.first r.2.last r.1 ∧
        t.cursor.current.span.last ≤ r.2.last ∧ r.2.last ≤ u.cursor.current.span.last := by
  have hstart : Steps v strict t t := .refl
  rw [Grammar.moreElements]
  refine (traces_recover .rightBracket false hstart hb).gives_bind fun stop u hu => ?_
  obtain ⟨hfirst, hlast⟩ := hu.le ht
  split_ifs
  · exact ⟨.nil, hlast, le_refl _⟩
  · refine (ih.elements (ht.of_isSuffix hu.isSuffix_tokens)).mono ?_
    rintro r w ⟨hr, hge, hle⟩
    exact ⟨hr.mono hfirst (le_refl _), hlast.trans hge, hle⟩

theorem code_succ :
    Gives (Grammar.code v strict (fuel + 1)) t fun e u => e.Lies t.cursor u.cursor := by
  have hpass : Steps v strict t { t with cursor := t.cursor.advance } := Steps.pass .refl
  rw [Gives, Grammar.code, leads_bind, leads_advance]
  refine (ih.statements (ht.of_isSuffix hpass.isSuffix_tokens) .rightBrace).bind
    ((traced v strict fuel).statements hpass _) fun body u hu hbody => ?_
  rw [Gives, leads_bind, leads_expect]
  split_ifs
  have hend := (ht.of_isSuffix hu.isSuffix_tokens).le_of_isSuffix
    (isSuffix_tokens_advance u.cursor)
  exact Expr.lies_through rfl (hu.le ht).2 hend.2 (hbody.mono (hpass.le ht).1 (le_refl _))

theorem paren_succ :
    Gives (Grammar.paren v strict (fuel + 1)) t fun e u => e.Lies t.cursor u.cursor := by
  have hpass : Steps v strict t { t with cursor := t.cursor.advance } := Steps.pass .refl
  have hclose : ∀ {outcome : Except Diagnostic Expr} {u : ParseState}, Steps v strict t u →
      (∀ d, outcome = .error d → Blames d u) →
      (∀ e, outcome = .ok e →
        Bounded t.cursor.current.span.first u.cursor.current.span.last [e]) →
      Gives (do
        let inner ← parenInner strict outcome
        let close ← closingParen
        return Expr.paren inner (t.cursor.current.span.through close)) u
        fun e w => e.Lies t.cursor w.cursor := by
    intro outcome u hu hb hok
    have hau := ht.of_isSuffix hu.isSuffix_tokens
    refine (bounded_parenInner hau (hu.le ht).1 hb hok).bind (traces_parenInner hu hb)
      fun inner w hw hinner => ?_
    have hend : Traces v strict w closingParen w := traces_closingParen .refl
    refine gives_closingParen.bind hend fun close x hx hspan => ?_
    rw [hspan]
    exact Expr.lies_through rfl (hw.le ht).2 (hx.le (ht.of_isSuffix hw.isSuffix_tokens)).2 hinner
  rw [Gives, Grammar.paren, leads_bind, leads_advance]
  refine (ih.expression (ht.of_isSuffix hpass.isSuffix_tokens) 0).bind_attempt
    ((traced v strict fuel).expression hpass 0) (fun e u hu he => ?_) fun d u hu hb => ?_
  · refine hclose hu (by simp) fun e' he' => ?_
    cases he'
    exact he.bounded (hpass.le ht).1
  · exact hclose hu (fun d' hd => by cases hd; exact hb) (by simp)

end Encloses

/-- What every rule gives is nested, whatever its budget. -/
theorem encloses (v : Vocabulary) (strict : Bool) : ∀ fuel, Encloses v strict fuel
  | 0 =>
    { statements _ _ := trivial
      statement _ _ := trivial
      statementBody _ _ := trivial
      expression _ _ := trivial
      operations _ _ _ _ _ := trivial
      operand _ := trivial
      named _ _ := trivial
      array _ := trivial
      elements _ := trivial
      moreElements _ _ _ := trivial
      code _ := trivial
      paren _ := trivial }
  | fuel + 1 =>
    have ih := encloses v strict fuel
    { statements ht := ih.statements_succ ht
      statement ht := ih.statement_succ ht
      statementBody ht := ih.statementBody_succ ht
      expression ht := ih.expression_succ ht
      operations := ih.operations_succ
      operand ht := ih.operand_succ ht
      named ht := ih.named_succ ht
      array ht := ih.array_succ ht
      elements ht := ih.elements_succ ht
      moreElements ht _ := ih.moreElements_succ ht
      code ht := ih.code_succ ht
      paren ht := ih.paren_succ ht }

end Grammar

/-- Whatever stands in a node of a script stands within the node, and the parts of its statements
stand within the script. -/
theorem within_of_read {v : Vocabulary} {strict : Bool} {source : String} {script : Script}
    (h : (Script.read v strict (Token.scan source) {}).1 = .ok script) :
    (∀ n ∈ script.nodes, ∀ child ∈ n.children, child.span.Within n.span) ∧
      ∀ e ∈ script.statements.flatMap Statement.parts, e.span.Within script.span := by
  have hascending : Ascending (Cursor.ofTokens (Token.scan source)).tokens := by
    rw [Cursor.tokens_ofTokens_scan]
    exact Token.ascending_scan source
  rw [Script.read_eq] at h
  split at h
  · next ss u hss =>
    obtain rfl := Except.ok.inj h
    have hbounded := ((encloses v strict _).statements hascending .endOfInput).of_ok hss
    refine ⟨fun n hn => ?_, fun e he => ⟨(hbounded e he).1, (hbounded e he).2.1⟩⟩
    obtain ⟨e, he, hn⟩ := mem_nodesOfStatements_parts.1 hn
    exact (hbounded e he).2.2 n hn
  · cases h

end SqfCheck
