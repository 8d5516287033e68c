import SqfCheck.Proofs.Nodes
import SqfCheck.Proofs.Outcome
import SqfCheck.Proofs.Scanned

/-!
# How commands bind

In the tree of a script, commands between two operands group as `precedence` says and to the
left (`Expr.GroupsWell`) : the left operand of such a command may be another one that binds at
least as strongly, the right operand only one that binds more strongly, and what follows a sign
or a command in front of its operand is never an application of a command between two operands,
unless parentheses are around it.

`Expr.Built` says all that the grammar ensures of a node : which tokens it is made of, what the
catalogue knows of its command, and how its operands are grouped. While the commands after an
operand are read, what was read so far either is no application of a command between operands,
or binds at least as strongly as the next command (`Extends`) ; that an expression ends where
the next command binds too weakly (`BindsFrom`) keeps this up. So all of a script is built like
that (`allBuilt_of_read`), in scripts with failures too.
-/

namespace SqfCheck

/-- Only a variable or a macro is assigned to. -/
def Statement.AssignsName : Statement → Prop
  | assignment _ (.reference _) _ => True
  | assignment _ (.expansion _ _) _ => True
  | assignment _ _ _ => False
  | expression _ => True

namespace Expr

/-- The command, if the expression is one with an operand to its left. -/
def between? : Expr → Option Token
  | binary _ op _ => some op
  | dangling _ op => some op
  | _ => none

/-- The operands of the expression, if it is a command, are grouped as they should be. -/
def GroupsWell : Expr → Prop
  | binary left op right =>
    (∀ o, left.between? = some o → precedence op.name ≤ precedence o.name) ∧
      ∀ o, right.between? = some o → precedence op.name < precedence o.name
  | unary _ right => right.between? = none
  | _ => True

/-- What the grammar ensures of a node. -/
def Built (v : Vocabulary) : Expr → Prop
  | number t => t.kind = .number
  | string t => t.kind = .string
  | reference t => t.kind = .identifier
  | expansion name _ => name.kind = .identifier ∧ v.classify name.name = .expansion
  | array _ _ | paren _ _ | invalid _ => True
  | code body _ => ∀ st ∈ body, st.AssignsName
  | nullary op => op.kind = .identifier ∧ ∃ o, v.classify op.name = .command o
  | unary op right => right.between? = none ∧ (op.isSign = true ∨
      op.kind = .identifier ∧ ∃ o, v.classify op.name = .command o ∧ o.takesOperand = true)
  | binary left op right => v.precedence? op = some (precedence op.name) ∧
      (binary left op right).GroupsWell
  | dangling _ _ => False

theorem Built.groupsWell {v : Vocabulary} {e : Expr} (h : e.Built v) : e.GroupsWell := by
  cases e with
  | unary op right => exact h.1
  | binary left op right => exact h.2
  | _ => trivial

/-- Every node of the expression is built as the grammar builds it. -/
def AllBuilt (v : Vocabulary) (e : Expr) : Prop :=
  ∀ n ∈ e.nodes, n.Built v

theorem AllBuilt.mono {v : Vocabulary} {e x : Expr} (h : e.AllBuilt v)
    (hx : ∀ n ∈ x.nodes, n ∈ e.nodes) : x.AllBuilt v :=
  fun n hn => h n (hx n hn)

theorem allBuilt_leaf {v : Vocabulary} {e : Expr} (hn : e.nodes = [e]) (h : e.Built v) :
    e.AllBuilt v := by
  intro n hmem
  rw [hn, List.mem_singleton] at hmem
  rwa [hmem]

theorem allBuilt_array {v : Vocabulary} {elements : List Expr} {span : Span}
    (h : ∀ e ∈ elements, e.AllBuilt v) : (array elements span).AllBuilt v := by
  intro n hn
  rw [nodes, List.mem_cons, mem_nodesOfExprs] at hn
  rcases hn with rfl | ⟨e, he, hn⟩
  · trivial
  · exact h e he n hn

theorem allBuilt_paren {v : Vocabulary} {inner : Expr} {span : Span} (h : inner.AllBuilt v) :
    (paren inner span).AllBuilt v := by
  intro n hn
  rw [nodes, List.mem_cons] at hn
  rcases hn with rfl | hn
  · trivial
  · exact h n hn

theorem allBuilt_unary {v : Vocabulary} {op : Token} {right : Expr}
    (h : (unary op right).Built v) (hr : right.AllBuilt v) : (unary op right).AllBuilt v := by
  intro n hn
  rw [nodes, List.mem_cons] at hn
  rcases hn with rfl | hn
  · exact h
  · exact hr n hn

end Expr

/-- The statement and every node of it is built as the grammar builds it. -/
structure Statement.AllBuilt (v : Vocabulary) (st : Statement) : Prop where
  assignsName : st.AssignsName
  built : ∀ n ∈ st.nodes, n.Built v

theorem Statement.allBuilt_assignment {v : Vocabulary} {isPrivate : Bool} {target value : Expr}
    (h : (assignment isPrivate target value).AssignsName) (ht : target.AllBuilt v)
    (hv : value.AllBuilt v) : (assignment isPrivate target value).AllBuilt v where
  assignsName := h
  built n hn := by
    rw [Statement.nodes, List.mem_append] at hn
    exact hn.elim (ht n) (hv n)

theorem Expr.allBuilt_code {v : Vocabulary} {body : List Statement} {span : Span}
    (h : ∀ st ∈ body, st.AllBuilt v) : (code body span).AllBuilt v := by
  intro n hn
  rw [nodes, List.mem_cons, mem_nodesOfStatements] at hn
  rcases hn with rfl | ⟨st, hst, hn⟩
  · exact fun st hst => (h st hst).assignsName
  · exact (h st hst).built n hn

namespace Parse

/-- The expression is well built, is bound at least as strongly as `least`, and the next token
binds less strongly than that. -/
structure BindsFrom (v : Vocabulary) (least : Nat) (e : Expr) (t : ParseState) : Prop where
  built : e.AllBuilt v
  least_le : ∀ o, e.between? = some o → least ≤ precedence o.name
  next_lt : ∀ q, v.precedence? t.cursor.current = some q → q < least

/-- The expression is well built, is bound at least as strongly as `least`, and at least as
strongly as the next token binds. -/
structure Extends (v : Vocabulary) (least : Nat) (left : Expr) (t : ParseState) : Prop where
  built : left.AllBuilt v
  least_le : ∀ o, left.between? = some o → least ≤ precedence o.name
  next_le : ∀ o, left.between? = some o → ∀ q, v.precedence? t.cursor.current = some q →
    q ≤ precedence o.name

/-- The expression is well built and is no command after its left operand. -/
structure IsOperand (v : Vocabulary) (e : Expr) : Prop where
  built : e.AllBuilt v
  between?_eq : e.between? = none

variable {v : Vocabulary} {strict : Bool} {fuel least : Nat} {s t : ParseState}

theorem IsOperand.extends {e : Expr} (h : IsOperand v e) : Extends v least e t where
  built := h.built
  least_le o ho := by rw [h.between?_eq] at ho; cases ho
  next_le o ho := by rw [h.between?_eq] at ho; cases ho

/-- A token binds as its folded name says. -/
theorem precedence_name {tok : Token} {p : Nat} (hp : v.precedence? tok = some p)
    (htok : tok.kind = .operator → tok.name = tok.text) : precedence tok.name = p := by
  unfold Vocabulary.precedence? at hp
  split at hp
  · next hk =>
    rw [htok hk]
    split_ifs at hp
    exact Option.some.inj hp
  · split_ifs at hp
    exact Option.some.inj hp
  · cases hp

/-- The command under the cursor, with an operand after it that binds more strongly. -/
theorem Extends.binary {left right : Expr} {op : Token} {p : Nat} {u : ParseState}
    (hleft : Extends v least left t) (hop : op = t.cursor.current)
    (hp : v.precedence? t.cursor.current = some p) (hname : precedence op.name = p)
    (hle : least ≤ p) (hright : BindsFrom v (p + 1) right u) :
    Extends v least (.binary left op right) u where
  built := by
    intro n hn
    rw [Expr.nodes, List.mem_cons, List.mem_append] at hn
    rcases hn with rfl | hn | hn
    · refine ⟨by rw [hop, hp, ← hname, hop], fun o ho => ?_, fun o ho => ?_⟩
      · rw [hname]
        exact hleft.next_le o ho p hp
      · rw [hname]
        exact hright.least_le o ho
    · exact hleft.built n hn
    · exact hright.built n hn
  least_le o ho := by
    obtain rfl := Option.some.inj ho
    rwa [hname]
  next_le o ho q hq := by
    obtain rfl := Option.some.inj ho
    rw [hname]
    exact Nat.lt_succ_iff.1 (hright.next_lt q hq)

end Parse

namespace Grammar

open Parse

variable {v : Vocabulary} {strict : Bool} {fuel : Nat} {s t : ParseState}

theorem gives_passName : Gives (passName v) t fun op _ => op = t.cursor.current := by
  rw [Gives, passName]
  simp only [leads_bind, leads_advance, leads_resolve, leads_pure]

theorem gives_passCommand :
    Gives (passCommand v t.cursor.current) t fun op _ => op = t.cursor.current := by
  rw [passCommand]
  split_ifs
  · exact gives_passName
  · exact rfl

theorem gives_expansion {name : Token}
    (h : name.kind = .identifier ∧ v.classify name.name = .expansion) :
    Gives (expansion strict name) t fun e _ => IsOperand v e := by
  have hop : ∀ span, IsOperand v (.expansion name span) := fun span =>
    ⟨Expr.allBuilt_leaf rfl h, rfl⟩
  rw [Gives, expansion]
  simp only [leads_bind, leads_peek]
  split_ifs
  · rw [leads_bind, leads_arguments]
    split
    · exact hop _
    · trivial
  · exact hop _

theorem gives_parenInner (h : Steps v strict s t) {outcome : Except Diagnostic Expr}
    (hb : ∀ d, outcome = .error d → Blames d t)
    (hok : ∀ e, outcome = .ok e → e.AllBuilt v) :
    Gives (parenInner strict outcome) t fun e _ => e.AllBuilt v := by
  cases outcome with
  | ok inner =>
    rw [Gives, parenInner]
    simp only [leads_bind, leads_peek]
    split_ifs
    · exact hok inner rfl
    · exact (traces_recover .rightParen false h (.inr ⟨_, rfl⟩)).gives_bind fun _ _ _ =>
        hok inner rfl
  | error failure =>
    exact (traces_recover .rightParen false h (hb failure rfl)).gives_bind fun _ _ _ =>
      Expr.allBuilt_leaf rfl trivial

/-- With the given budget, what every rule gives is well built, from the states that were reached
from `s`. -/
structure Builds (v : Vocabulary) (strict : Bool) (s : ParseState) (fuel : Nat) : Prop where
  statements {t : ParseState} (h : Steps v strict s t) (close : TokenKind) :
    Gives (statements v strict fuel close) t fun ss _ => ∀ st ∈ ss, st.AllBuilt v
  statement {t : ParseState} (h : Steps v strict s t) (close : TokenKind) :
    Gives (statement v strict fuel close) t fun st _ => st.AllBuilt v
  statementBody {t : ParseState} (h : Steps v strict s t) (isPrivate : Bool) :
    Gives (statementBody v strict fuel isPrivate) t fun st _ => st.AllBuilt v
  expression {t : ParseState} (h : Steps v strict s t) (least : Nat) :
    Gives (expression v strict fuel least) t (BindsFrom v least)
  operations {t : ParseState} (h : Steps v strict s t) {least : Nat} {left : Expr}
    (hl : Extends v least left t) :
    Gives (operations v strict fuel least left) t (BindsFrom v least)
  operand {t : ParseState} (h : Steps v strict s t) :
    Gives (operand v strict fuel) t fun e _ => IsOperand v e
  named {t : ParseState} (h : Steps v strict s t) (hk : t.cursor.current.kind = .identifier) :
    Gives (named v strict fuel) t fun e _ => IsOperand v e
  array {t : ParseState} (h : Steps v strict s t) :
    Gives (array v strict fuel) t fun e _ => IsOperand v e
  elements {t : ParseState} (h : Steps v strict s t) :
    Gives (elements v strict fuel) t fun r _ => ∀ e ∈ r.1, e.AllBuilt v
  moreElements {t : ParseState} (h : Steps v strict s t) {failure : Diagnostic}
    (hb : Blames failure t) :
    Gives (moreElements v strict fuel failure) t fun r _ => ∀ e ∈ r.1, e.AllBuilt v
  code {t : ParseState} (h : Steps v strict s t) :
    Gives (code v strict fuel) t fun e _ => IsOperand v e
  paren {t : ParseState} (h : Steps v strict s t) :
    Gives (paren v strict fuel) t fun e _ => IsOperand v e

namespace Builds

variable (ih : Builds v strict s fuel) (h : Steps v strict s t)
include ih h

theorem statements_succ (close : TokenKind) :
    Gives (Grammar.statements v strict (fuel + 1) close) t
      fun ss _ => ∀ st ∈ ss, st.AllBuilt v := by
  rw [Gives, Grammar.statements]
  simp only [leads_bind, leads_move, leads_peek]
  have hd : Steps v strict s ⟨t.cursor.dropWhile Cursor.isSeparator, t.journal⟩ := h.dropWhile _
  split_ifs
  · simp
  refine (ih.statement hd close).bind_attempt ((traced v strict fuel).statement hd close)
    (fun st u hu hst => ?_) fun d u hu hb => ?_
  · refine (ih.statements hu close).bind ((traced v strict fuel).statements hu close)
      fun ss w hw hss => ?_
    exact List.forall_mem_cons.2 ⟨hst, hss⟩
  · refine (traces_recover .semicolon true hu hb).gives_bind fun stop w hw => ?_
    split_ifs
    · simp [Gives]
    · exact ih.statements hw close

theorem statement_succ (close : TokenKind) :
    Gives (Grammar.statement v strict (fuel + 1) close) t
      fun st _ => st.AllBuilt v := by
  rw [Gives, Grammar.statement, leads_bind, leads_cursor]
  refine (traces_privateMark h).gives_bind fun _ u hu => ?_
  refine (ih.statementBody hu _).bind ((traced v strict fuel).statementBody hu _)
    fun st w hw hst => ?_
  exact (traces_statementEnd hw close).gives_bind fun _ _ _ => hst

theorem statementBody_succ (isPrivate : Bool) :
    Gives (Grammar.statementBody v strict (fuel + 1) isPrivate) t
      fun st _ => st.AllBuilt v := by
  rw [Gives, Grammar.statementBody, leads_bind, leads_cursor]
  split_ifs with ha
  · have hk := kind_of_atAssignment ha
    refine gives_passName.bind (traces_passName h hk) fun target u hu htarget => ?_
    rw [Gives, leads_bind, leads_advance]
    refine (ih.expression hu.pass 0).bind ((traced v strict fuel).expression hu.pass 0)
      fun value w hw hvalue => ?_
    exact Statement.allBuilt_assignment trivial (Expr.allBuilt_leaf rfl (htarget ▸ hk)) hvalue.built
  · refine (ih.expression h 0).bind ((traced v strict fuel).expression h 0) fun e u hu he => ?_
    rw [Gives, leads_bind, leads_peek]
    split_ifs with hk
    · have hname : e.isExpansion = true := (Bool.and_eq_true_iff.1 hk).2
      rw [leads_bind, leads_advance]
      refine (ih.expression hu.pass 0).bind ((traced v strict fuel).expression hu.pass 0)
        fun value w hw hvalue => ?_
      refine Statement.allBuilt_assignment ?_ he.built hvalue.built
      cases e with
      | expansion name span => trivial
      | _ => cases hname
    · exact ⟨trivial, he.built⟩

theorem expression_succ (least : Nat) :
    Gives (Grammar.expression v strict (fuel + 1) least) t (BindsFrom v least) := by
  rw [Grammar.expression]
  exact (ih.operand h).bind ((traced v strict fuel).operand h) fun left u hu hleft =>
    ih.operations hu hleft.extends

theorem operations_succ
    (hs : ∀ tok ∈ s.cursor.tokens, tok.kind = .operator → tok.name = tok.text) {least : Nat}
    {left : Expr} (hl : Extends v least left t) :
    Gives (Grammar.operations v strict (fuel + 1) least left) t (BindsFrom v least) := by
  rw [Gives, Grammar.operations, leads_bind, leads_peek]
  split
  · next hp => exact ⟨hl.built, hl.least_le, by simp [hp]⟩
  next p hp =>
  split_ifs with hlt
  · refine ⟨hl.built, hl.least_le, fun q hq => ?_⟩
    rw [hp] at hq
    exact Option.some.inj hq ▸ hlt
  refine gives_passCommand.bind (traces_passCommand h) fun op u hu hop => ?_
  refine (ih.expression hu _).bind ((traced v strict fuel).expression hu _)
    fun right w hw hright => ih.operations hw (hl.binary hop hp ?_ (Nat.not_lt.1 hlt) hright)
  rw [hop]
  exact precedence_name hp (hs _ (h.isSuffix_tokens.subset List.mem_cons_self))

theorem operand_succ :
    Gives (Grammar.operand v strict (fuel + 1)) t fun e _ => IsOperand v e := by
  rw [Gives, Grammar.operand, leads_bind, leads_peek]
  split_ifs with hsign
  · rw [leads_bind, leads_advance]
    refine (ih.operand h.pass).bind ((traced v strict fuel).operand h.pass)
      fun right u hu hright => ?_
    exact ⟨Expr.allBuilt_unary ⟨hright.between?_eq, .inl hsign⟩ hright.built, rfl⟩
  split
  · next hk => exact ih.named h hk
  · next hk => exact ⟨Expr.allBuilt_leaf rfl hk, rfl⟩
  · next hk => exact ⟨Expr.allBuilt_leaf rfl hk, rfl⟩
  · exact ih.array h
  · exact ih.code h
  · exact ih.paren h
  · trivial

theorem named_succ (hk : t.cursor.current.kind = .identifier) :
    Gives (Grammar.named v strict (fuel + 1)) t fun e _ => IsOperand v e := by
  rw [Gives, Grammar.named, leads_bind, leads_advance, leads_bind, leads_resolve]
  have hn : Steps v strict s ⟨t.cursor.advance,
      (t.journal.resolve v t.cursor.current t.cursor.advance.current).2⟩ := h.tail (.name t hk)
  split
  · next o ho =>
    rw [leads_bind, leads_peek]
    split_ifs with htakes
    · refine (ih.operand hn).bind ((traced v strict fuel).operand hn) fun right u hu hright => ?_
      refine ⟨Expr.allBuilt_unary ⟨hright.between?_eq, .inr ⟨hk, o, ho, ?_⟩⟩ hright.built, rfl⟩
      exact (Bool.and_eq_true_iff.1 htakes).1
    · exact ⟨Expr.allBuilt_leaf rfl ⟨hk, o, ho⟩, rfl⟩
  · next ho => exact gives_expansion ⟨hk, ho⟩
  · exact ⟨Expr.allBuilt_leaf rfl hk, rfl⟩
  · exact ⟨Expr.allBuilt_leaf rfl hk, rfl⟩

theorem array_succ : Gives (Grammar.array v strict (fuel + 1)) t fun e _ => IsOperand v e := by
  rw [Gives, Grammar.array, leads_bind, leads_advance]
  refine (ih.elements h.pass).bind ((traced v strict fuel).elements h.pass)
    fun r u hu hes => ⟨Expr.allBuilt_array hes, rfl⟩

theorem elements_succ :
    Gives (Grammar.elements v strict (fuel + 1)) t
      fun r _ => ∀ e ∈ r.1, e.AllBuilt v := by
  rw [Gives, Grammar.elements, leads_bind, leads_peek]
  split
  · rw [leads_bind, leads_advance]
    simp
  · trivial
  refine (ih.expression h 0).bind_attempt ((traced v strict fuel).expression h 0)
    (fun e u hu he => ?_) fun d u hu hb => ?_
  · rw [Gives, leads_bind, leads_peek]
    dsimp only
    split
    · rw [leads_bind, leads_advance]
      exact (ih.elements hu.pass).bind ((traced v strict fuel).elements hu.pass)
        fun r w hw hes => List.forall_mem_cons.2 ⟨he.built, hes⟩
    · exact List.forall_mem_cons.2 ⟨he.built, by simp⟩
    · exact (ih.moreElements hu (.inr ⟨_, rfl⟩)).bind
        ((traced v strict fuel).moreElements hu (.inr ⟨_, rfl⟩))
        fun r w hw hes => List.forall_mem_cons.2 ⟨he.built, hes⟩
  · exact ih.moreElements hu hb

theorem moreElements_succ {failure : Diagnostic} (hb : Blames failure t) :
    Gives (Grammar.moreElements v strict (fuel + 1) failure) t
      fun r _ => ∀ e ∈ r.1, e.AllBuilt v := by
  rw [Grammar.moreElements]
  refine (traces_recover .rightBracket false h hb).gives_bind fun stop u hu => ?_
  split_ifs
  · rw [Gives, leads_bind, leads_peek]
    simp
  · exact ih.elements hu

theorem code_succ : Gives (Grammar.code v strict (fuel + 1)) t fun e _ => IsOperand v e := by
  rw [Gives, Grammar.code, leads_bind, leads_advance]
  refine (ih.statements h.pass .rightBrace).bind ((traced v strict fuel).statements h.pass _)
    fun body u hu hbody => ?_
  exact (traces_expect hu .rightBrace).gives_bind fun _ _ _ => ⟨Expr.allBuilt_code hbody, rfl⟩

theorem paren_succ : Gives (Grammar.paren v strict (fuel + 1)) t fun e _ => IsOperand v e := by
  rw [Gives, Grammar.paren, leads_bind, leads_advance]
  have hclose : ∀ {outcome : Except Diagnostic Expr} {u : ParseState}, Steps v strict s u →
      (∀ d, outcome = .error d → Blames d u) → (∀ e, outcome = .ok e → e.AllBuilt v) →
      Gives (do
        let inner ← parenInner strict outcome
        let close ← closingParen
        return Expr.paren inner (t.cursor.current.span.through close)) u
        fun e _ => IsOperand v e := by
    intro outcome u hu hb hok
    refine (gives_parenInner hu hb hok).bind (traces_parenInner hu hb) fun inner w hw hinner => ?_
    exact (traces_closingParen hw).gives_bind fun _ _ _ => ⟨Expr.allBuilt_paren hinner, rfl⟩
  refine (ih.expression h.pass 0).bind_attempt ((traced v strict fuel).expression h.pass 0)
    (fun e u hu he => ?_) fun d u hu hb => ?_
  · exact hclose hu (by simp) fun e' he' => by cases he'; exact he.built
  · exact hclose hu (fun d' hd => by cases hd; exact hb) (by simp)

end Builds

/-- What every rule gives is well built, whatever its budget, if operators are their own folded
names. -/
theorem builds (hs : ∀ tok ∈ s.cursor.tokens, tok.kind = .operator → tok.name = tok.text) :
    ∀ fuel, Builds v strict s fuel
  | 0 =>
    { statements _ _ := trivial
      statement _ _ := trivial
      statementBody _ _ := trivial
      expression _ _ := trivial
      operations _ _ _ _ := trivial
      operand _ := trivial
      named _ _ := trivial
      array _ := trivial
      elements _ := trivial
      moreElements _ _ _ := trivial
      code _ := trivial
      paren _ := trivial }
  | fuel + 1 =>
    have ih := builds hs fuel
    { statements h := ih.statements_succ h
      statement h := ih.statement_succ h
      statementBody h := ih.statementBody_succ h
      expression h := ih.expression_succ h
      operations h := ih.operations_succ h hs
      operand h := ih.operand_succ h
      named h := ih.named_succ h
      array h := ih.array_succ h
      elements h := ih.elements_succ h
      moreElements h _ := ih.moreElements_succ h
      code h := ih.code_succ h
      paren h := ih.paren_succ h }

end Grammar

/-- Every statement of every script is built as the grammar builds statements. -/
theorem allBuilt_of_read {v : Vocabulary} {strict : Bool} {source : String} {j : Journal}
    {script : Script} (h : (Script.read v strict (Token.scan source) j).1 = .ok script) :
    ∀ st ∈ script.statements, st.AllBuilt v := by
  have hs : ∀ tok ∈ (Cursor.ofTokens (Token.scan source)).tokens, tok.kind = .operator →
      tok.name = tok.text := by
    rw [Cursor.tokens_ofTokens_scan]
    exact fun tok htok hk => Token.name_of_mem_scan htok hk
  have hgives := (Grammar.builds hs (Script.budget (Token.scan source))).statements
    (@Relation.ReflTransGen.refl _ (Parse.Step v strict) ⟨_, j⟩) .endOfInput
  rw [Script.read_eq] at h
  split at h
  · next ss t hss =>
    obtain rfl := Except.ok.inj h
    exact hgives.of_ok hss
  · cases h

/-- In every script the operands of commands are grouped as precedence says and to the left. The
left operand of a command between two operands is, unless parentheses are around it, no command
that binds more weakly, the right operand none that binds as weakly, and the operand of a sign
or of a command in front of it is no command between two operands at all. -/
theorem groupsWell_of_read {v : Vocabulary} {strict : Bool} {source : String} {j : Journal}
    {script : Script} (h : (Script.read v strict (Token.scan source) j).1 = .ok script) :
    ∀ e ∈ script.nodes, e.GroupsWell := by
  intro e he
  obtain ⟨st, hst, he⟩ := mem_nodesOfStatements.1 he
  exact ((allBuilt_of_read h st hst).built e he).groupsWell

/-- A product in a sum, and that sum as what is subtracted from, for a sum of three groups to the
left. -/
theorem groupsWell_sum :
    let token (kind : TokenKind) (text : String) (column : Nat) : Token :=
      ⟨kind, text, .point ⟨1, column⟩, none⟩
    let number (text : String) (column : Nat) : Expr := .number (token .number text column)
    let product : Expr := .binary (number "2" 5) (token .operator "*" 7) (number "3" 9)
    let sum : Expr := .binary (number "1" 1) (token .operator "+" 3) product
    let difference : Expr := .binary sum (token .operator "-" 11) (number "4" 13)
    ∃ script : Script, (Script.read {} false (Token.scan "1 + 2 * 3 - 4;") {}).1 = .ok script ∧
      script.statements = [.expression difference] ∧
      (∀ e ∈ [difference, sum, product], e ∈ script.nodes) ∧ ∀ e ∈ script.nodes, e.GroupsWell := by
  intro token number product sum difference
  have hread : (Script.read {} false (Token.scan "1 + 2 * 3 - 4;") {}).1 =
      .ok ⟨[.expression difference], ⟨⟨1, 1⟩, ⟨1, 15⟩⟩⟩ := by
    with_unfolding_all rfl
  refine ⟨_, hread, rfl, ?_, groupsWell_of_read hread⟩
  simp [Script.nodes, nodesOfStatements, Statement.nodes, Expr.nodes, difference, sum, product]

end SqfCheck
