import SqfCheck.Proofs.Nodes
import SqfCheck.Proofs.Outcome

/-!
# Where a tree comes from

All that reading takes from a script, it takes from the tokens of the script. Each token that a node
of the tree keeps is one of them (`DrawnFrom`), and each failure blames one of them and asks for one
of a few things in its place (`Diagnostic.AsksIn`). This holds of scripts with failures too, whose
trees leave tokens out.

`Parse.Yields` says this of a rule : from states in which it holds of what is ahead and of what was
found, the rule gives a value drawn from the tokens, or fails as said, and it holds in the state it
ends in. Rules that follow each other go on like that (`Yields.bind`), also where a rule looks at
how another one ended (`Yields.attempt`). So all rules do (`Grammar.sourced`), and with them the
reading of a script (`drawnFrom_of_read`, `asksIn_of_read`).
-/

namespace SqfCheck

/-! ## Trees drawn from tokens -/

/-- The token that the node itself keeps. -/
def Expr.token? : Expr → Option Token
  | .number t | .string t | .reference t | .nullary t => some t
  | .expansion name _ => some name
  | .unary op _ | .binary _ op _ | .dangling _ op => some op
  | .array _ _ | .code _ _ | .paren _ _ | .invalid _ => none

/-- All tokens that the nodes keep are among the given ones. -/
def DrawnFrom (tokens : List Token) (nodes : List Expr) : Prop :=
  ∀ n ∈ nodes, ∀ t ∈ n.token?, t ∈ tokens

namespace DrawnFrom

variable {tokens : List Token} {nodes others : List Expr} {e : Expr} {t : Token}

theorem nil : DrawnFrom tokens [] := by
  simp [DrawnFrom]

theorem append (h : DrawnFrom tokens nodes) (h' : DrawnFrom tokens others) :
    DrawnFrom tokens (nodes ++ others) :=
  List.forall_mem_append.2 ⟨h, h'⟩

theorem cons (h : ∀ t ∈ e.token?, t ∈ tokens) (h' : DrawnFrom tokens nodes) :
    DrawnFrom tokens (e :: nodes) :=
  List.forall_mem_cons.2 ⟨h, h'⟩

/-- A node that keeps one of the tokens, with nodes drawn from them. -/
theorem cons_some (he : e.token? = some t) (ht : t ∈ tokens) (h : DrawnFrom tokens nodes) :
    DrawnFrom tokens (e :: nodes) :=
  cons (fun _ hu => Option.some.inj (he.symm.trans hu) ▸ ht) h

/-- A node that keeps no token, with nodes drawn from the tokens. -/
theorem cons_none (he : e.token? = none) (h : DrawnFrom tokens nodes) :
    DrawnFrom tokens (e :: nodes) :=
  cons (fun _ hu => nomatch he.symm.trans hu) h

theorem binary {left right : Expr} {op : Token} (hl : DrawnFrom tokens left.nodes)
    (hop : op ∈ tokens) (hr : DrawnFrom tokens right.nodes) :
    DrawnFrom tokens (Expr.binary left op right).nodes :=
  cons_some rfl hop (hl.append hr)

end DrawnFrom

/-! ## Failures -/

/-- What the grammar asks for where a token stands that does not fit. -/
def Grammar.askedFor : List String :=
  ["';'", "')'", "']'", "',' or ']'", TokenKind.rightBrace.describe, "an expression"]

/-- The failure blames one of the tokens, where the grammar asks for something else. -/
def Diagnostic.AsksIn (tokens : List Token) (d : Diagnostic) : Prop :=
  ∃ t ∈ tokens, ∃ expected ∈ Grammar.askedFor, d = t.unexpected expected

theorem Token.asksIn_unexpected {tokens : List Token} {t : Token} {expected : String}
    (ht : t ∈ tokens) (he : expected ∈ Grammar.askedFor) :
    (t.unexpected expected).AsksIn tokens :=
  ⟨t, ht, expected, he, rfl⟩

/-! ## What rules yield -/

namespace Parse

variable {α β : Type} {tokens : List Token} {v : Vocabulary} {strict : Bool}

/-- The tokens ahead are among the given ones, and what was found are failures at some of them. -/
structure Within (tokens : List Token) (s : ParseState) : Prop where
  ahead : s.cursor.tokens ⊆ tokens
  failures : ∀ d ∈ s.journal.diagnostics, d.AsksIn tokens

theorem Within.current_mem {s : ParseState} (h : Within tokens s) : s.cursor.current ∈ tokens :=
  h.ahead List.mem_cons_self

/-- A cursor that steps lead to is within the tokens too. -/
theorem Within.move {s : ParseState} {c : Cursor} (h : Within tokens s)
    (hc : Steps {} false s { s with cursor := c }) : Within tokens { s with cursor := c } :=
  ⟨List.Subset.trans hc.isSuffix_tokens.subset h.ahead, h.failures⟩

theorem Within.report {s : ParseState} {d : Diagnostic} (h : Within tokens s)
    (hd : d.AsksIn tokens) : Within tokens { s with journal := s.journal.report d } where
  ahead := h.ahead
  failures e he := by
    rw [Journal.diagnostics_report, List.mem_append, List.mem_singleton] at he
    rcases he with he | rfl
    · exact h.failures e he
    · exact hd

theorem Within.repaired {s : ParseState} {r : Repair} (h : Within tokens s)
    (hr : r.failure.AsksIn tokens) : Within tokens { s with journal := s.journal.repaired r } where
  ahead := h.ahead
  failures := (h.report hr).failures

/-- From states within the tokens, the rule gives values of which `V` holds, or fails at one of the
tokens, in states within the tokens. -/
def Yields (tokens : List Token) (V : α → Prop) (p : Parse α) : Prop :=
  ∀ s, Within tokens s → Leads p s (fun a t => V a ∧ Within tokens t)
    fun d t => d.AsksIn tokens ∧ Within tokens t

namespace Yields

variable {V : α → Prop} {W : β → Prop} {p : Parse α}

theorem pure {a : α} (h : V a) : Yields tokens V (pure a) :=
  fun _ hs => ⟨h, hs⟩

theorem bind {f : α → Parse β} (h : Yields tokens V p)
    (hf : ∀ a, V a → Yields tokens W (f a)) : Yields tokens W (p >>= f) :=
  fun s hs => (leads_bind f).2 ((h s hs).mono (fun a t ha => hf a ha.1 t ha.2) fun _ _ hd => hd)

theorem attempt {f : Except Diagnostic α → Parse β} (h : Yields tokens V p)
    (hok : ∀ a, V a → Yields tokens W (f (.ok a)))
    (herror : ∀ d : Diagnostic, d.AsksIn tokens → Yields tokens W (f (.error d))) :
    Yields tokens W (attempt p >>= f) :=
  fun s hs => (leads_bind f).2 (leads_attempt.2 ((h s hs).mono
    (fun a t ha => hok a ha.1 t ha.2) fun d t hd => herror d hd.1 t hd.2))

theorem cursor : Yields tokens (fun _ => True) cursor :=
  fun _ hs => ⟨trivial, hs⟩

theorem peek : Yields tokens (· ∈ tokens) peek :=
  fun _ hs => ⟨hs.current_mem, hs⟩

theorem advance : Yields tokens (· ∈ tokens) advance :=
  fun _ hs => ⟨hs.current_mem, hs.move (Steps.pass .refl)⟩

theorem dropWhile (p : Token → Bool) : Yields tokens (fun _ => True) (move (·.dropWhile p)) :=
  fun _ hs => ⟨trivial, hs.move (Steps.dropWhile p .refl)⟩

theorem fail (V : α → Prop) {expected : String} (h : expected ∈ Grammar.askedFor) :
    Yields tokens V (fail expected) :=
  fun _ hs => ⟨Token.asksIn_unexpected hs.current_mem h, hs⟩

theorem expect {kind : TokenKind} (h : kind.describe ∈ Grammar.askedFor) :
    Yields tokens (· ∈ tokens) (expect kind) := by
  intro s hs
  rw [leads_expect]
  split_ifs
  · exact advance s hs
  · exact ⟨Token.asksIn_unexpected hs.current_mem h, hs⟩

theorem resolve (t : Token) : Yields tokens (fun _ => True) (resolve v t) := by
  intro s hs
  rw [leads_resolve]
  exact ⟨trivial, hs.ahead, (diagnostics_resolve v t _ s.journal).symm ▸ hs.failures⟩

/-- A repair writes down a failure at one of the tokens. -/
theorem recover {failure : Diagnostic} (h : failure.AsksIn tokens) (boundary : TokenKind)
    (skip : Bool) : Yields tokens (fun _ => True) (recover strict failure boundary skip) := by
  intro s hs
  have hreport := hs.report h
  have hrepaired : ∀ dropped, Within tokens
      { s with journal := s.journal.repaired ⟨failure, boundary, skip, dropped⟩ } :=
    fun _ => hs.repaired h
  rw [leads_recover]
  split_ifs
  · exact ⟨h, hs⟩
  · exact ⟨h, hreport.ahead, hreport.failures⟩
  · exact ⟨trivial, (hrepaired _).move (Steps.pass (Steps.dropWhile _ (Steps.pass .refl)))⟩
  · exact ⟨trivial, (hrepaired _).move (Steps.dropWhile _ (Steps.pass .refl))⟩

end Yields

end Parse

namespace Grammar

open Parse

variable {tokens : List Token} {v : Vocabulary} {strict : Bool} {fuel : Nat}

/-! ## Rules without recursion -/

theorem yields_passName (v : Vocabulary) : Yields tokens (· ∈ tokens) (passName v) :=
  .bind .advance fun t ht => .bind (.resolve t) fun _ _ => .pure ht

theorem yields_privateMark (v : Vocabulary) (isPrivate : Bool) :
    Yields tokens (fun _ => True) (privateMark v isPrivate) := by
  unfold privateMark
  split_ifs
  · exact .bind (yields_passName v) fun _ _ => .pure trivial
  · exact .pure trivial

theorem yields_passCommand (v : Vocabulary) (t : Token) :
    Yields tokens (· ∈ tokens) (passCommand v t) := by
  unfold passCommand
  split_ifs
  · exact yields_passName v
  · exact .advance

theorem yields_statementEnd (close : TokenKind) :
    Yields tokens (fun _ => True) (statementEnd close) := by
  refine .bind .peek fun t _ => ?_
  split_ifs
  · exact .bind .advance fun _ _ => .pure trivial
  · exact .pure trivial
  · exact .fail _ (by decide)

theorem yields_arguments : Yields tokens (fun _ => True) arguments := by
  intro s hs
  have hskip : Within tokens
      { s with cursor := (Cursor.skipArguments 0 s.cursor.current s.cursor.rest).1 } :=
    hs.move (Steps.skipArguments .refl)
  rw [leads_arguments]
  split
  · next h =>
    rw [h] at hskip
    exact ⟨trivial, hskip⟩
  · next h =>
    rw [h] at hskip
    exact ⟨Token.asksIn_unexpected hskip.current_mem (by decide), hskip⟩

theorem yields_expansion {name : Token} (h : name ∈ tokens) :
    Yields tokens (fun e => DrawnFrom tokens e.nodes) (expansion strict name) := by
  refine .bind .peek fun t _ => ?_
  split_ifs
  · exact .bind yields_arguments fun _ _ => .pure (DrawnFrom.cons_some rfl h .nil)
  · exact .pure (DrawnFrom.cons_some rfl h .nil)

theorem yields_closingParen : Yields tokens (fun _ => True) closingParen := by
  refine .bind .peek fun t _ => ?_
  split_ifs
  · exact .bind .advance fun _ _ => .pure trivial
  · exact .pure trivial

theorem yields_parenInner_ok {e : Expr} (h : DrawnFrom tokens e.nodes) :
    Yields tokens (fun e => DrawnFrom tokens e.nodes) (parenInner strict (.ok e)) := by
  refine .bind .peek fun t ht => ?_
  split_ifs
  · exact .pure h
  · exact .bind (.recover (Token.asksIn_unexpected ht (by decide)) _ _) fun _ _ => .pure h

theorem yields_parenInner_error {d : Diagnostic} (h : d.AsksIn tokens) :
    Yields tokens (fun e => DrawnFrom tokens e.nodes) (parenInner strict (.error d)) :=
  .bind (.recover h _ _) fun _ _ => .pure (DrawnFrom.cons_none rfl .nil)

/-! ## All rules -/

/-- With the given budget, every rule gives what is drawn from the tokens, and fails at some of
them. -/
structure Sourced (tokens : List Token) (v : Vocabulary) (strict : Bool) (fuel : Nat) : Prop where
  statements (close : TokenKind) :
    Yields tokens (fun ss => DrawnFrom tokens (nodesOfStatements ss))
      (statements v strict fuel close)
  statement (close : TokenKind) :
    Yields tokens (fun st => DrawnFrom tokens st.nodes) (statement v strict fuel close)
  statementBody (isPrivate : Bool) :
    Yields tokens (fun st => DrawnFrom tokens st.nodes) (statementBody v strict fuel isPrivate)
  expression (least : Nat) :
    Yields tokens (fun e => DrawnFrom tokens e.nodes) (expression v strict fuel least)
  operations (least : Nat) {left : Expr} (h : DrawnFrom tokens left.nodes) :
    Yields tokens (fun e => DrawnFrom tokens e.nodes) (operations v strict fuel least left)
  operand : Yields tokens (fun e => DrawnFrom tokens e.nodes) (operand v strict fuel)
  named : Yields tokens (fun e => DrawnFrom tokens e.nodes) (named v strict fuel)
  array : Yields tokens (fun e => DrawnFrom tokens e.nodes) (array v strict fuel)
  elements : Yields tokens (fun r => DrawnFrom tokens (nodesOfExprs r.1)) (elements v strict fuel)
  moreElements {failure : Diagnostic} (h : failure.AsksIn tokens) :
    Yields tokens (fun r => DrawnFrom tokens (nodesOfExprs r.1))
      (moreElements v strict fuel failure)
  code : Yields tokens (fun e => DrawnFrom tokens e.nodes) (code v strict fuel)
  paren : Yields tokens (fun e => DrawnFrom tokens e.nodes) (paren v strict fuel)

namespace Sourced

variable (ih : Sourced tokens v strict fuel)
include ih

theorem statements_succ (close : TokenKind) :
    Yields tokens (fun ss => DrawnFrom tokens (nodesOfStatements ss))
      (Grammar.statements v strict (fuel + 1) close) := by
  rw [Grammar.statements]
  refine .bind (.dropWhile _) fun _ _ => .bind .peek fun t _ => ?_
  split_ifs
  · exact .pure .nil
  refine .attempt (ih.statement close) (fun st hst => ?_) fun d hd => ?_
  · exact .bind (ih.statements close) fun ss hss => .pure (hst.append hss)
  · refine .bind (.recover hd _ _) fun stop _ => ?_
    split_ifs
    · exact .pure .nil
    · exact ih.statements close

theorem statement_succ (close : TokenKind) :
    Yields tokens (fun st => DrawnFrom tokens st.nodes)
      (Grammar.statement v strict (fuel + 1) close) := by
  rw [Grammar.statement]
  refine .bind .cursor fun c _ => .bind (yields_privateMark v _) fun _ _ => ?_
  exact .bind (ih.statementBody _) fun st hst =>
    .bind (yields_statementEnd close) fun _ _ => .pure hst

theorem statementBody_succ (isPrivate : Bool) :
    Yields tokens (fun st => DrawnFrom tokens st.nodes)
      (Grammar.statementBody v strict (fuel + 1) isPrivate) := by
  rw [Grammar.statementBody]
  refine .bind .cursor fun c _ => ?_
  split_ifs
  · refine .bind (yields_passName v) fun target htarget => .bind .advance fun _ _ => ?_
    exact .bind (ih.expression 0) fun value hvalue =>
      .pure (DrawnFrom.append (DrawnFrom.cons_some rfl htarget .nil) hvalue)
  · refine .bind (ih.expression 0) fun e he => .bind .peek fun t _ => ?_
    split_ifs
    · refine .bind .advance fun _ _ => .bind (ih.expression 0) fun value hvalue => ?_
      exact .pure (DrawnFrom.append he hvalue)
    · exact .pure he

theorem expression_succ (least : Nat) :
    Yields tokens (fun e => DrawnFrom tokens e.nodes)
      (Grammar.expression v strict (fuel + 1) least) := by
  rw [Grammar.expression]
  exact .bind ih.operand fun _ hleft => ih.operations least hleft

theorem operations_succ (least : Nat) {left : Expr} (h : DrawnFrom tokens left.nodes) :
    Yields tokens (fun e => DrawnFrom tokens e.nodes)
      (Grammar.operations v strict (fuel + 1) least left) := by
  rw [Grammar.operations]
  refine .bind .peek fun t _ => ?_
  cases v.precedence? t with
  | none => exact .pure h
  | some p =>
    dsimp only
    split_ifs
    · exact .pure h
    refine .bind (yields_passCommand v t) fun op hop => ?_
    exact .bind (ih.expression (p + 1)) fun right hright =>
      ih.operations least (h.binary hop hright)

theorem operand_succ :
    Yields tokens (fun e => DrawnFrom tokens e.nodes) (Grammar.operand v strict (fuel + 1)) := by
  rw [Grammar.operand]
  refine .bind .peek fun t _ => ?_
  split_ifs
  · exact .bind .advance fun op hop => .bind ih.operand fun right hright =>
      .pure (DrawnFrom.cons_some rfl hop hright)
  cases t.kind with
  | identifier => exact ih.named
  | number => exact .bind .advance fun _ ht => .pure (DrawnFrom.cons_some rfl ht .nil)
  | string => exact .bind .advance fun _ ht => .pure (DrawnFrom.cons_some rfl ht .nil)
  | leftBracket => exact ih.array
  | leftBrace => exact ih.code
  | leftParen => exact ih.paren
  | _ => exact .fail _ (by decide)

theorem named_succ :
    Yields tokens (fun e => DrawnFrom tokens e.nodes) (Grammar.named v strict (fuel + 1)) := by
  rw [Grammar.named]
  refine .bind .advance fun t ht => .bind (.resolve t) fun meaning _ => ?_
  cases meaning with
  | command o =>
    refine .bind .peek fun next _ => ?_
    split_ifs
    · exact .bind ih.operand fun right hright => .pure (DrawnFrom.cons_some rfl ht hright)
    · exact .pure (DrawnFrom.cons_some rfl ht .nil)
  | expansion => exact yields_expansion ht
  | magic => exact .pure (DrawnFrom.cons_some rfl ht .nil)
  | plain => exact .pure (DrawnFrom.cons_some rfl ht .nil)

theorem array_succ :
    Yields tokens (fun e => DrawnFrom tokens e.nodes) (Grammar.array v strict (fuel + 1)) := by
  rw [Grammar.array]
  exact .bind .advance fun _ _ => .bind ih.elements fun _ hr => .pure (DrawnFrom.cons_none rfl hr)

theorem elements_succ :
    Yields tokens (fun r => DrawnFrom tokens (nodesOfExprs r.1))
      (Grammar.elements v strict (fuel + 1)) := by
  rw [Grammar.elements]
  refine .bind .peek fun t _ => ?_
  cases t.kind with
  | rightBracket => exact .bind .advance fun _ _ => .pure .nil
  | endOfInput => exact .fail _ (by decide)
  | _ =>
    refine .attempt (ih.expression 0) (fun e he => .bind .peek fun next hnext => ?_)
      fun d hd => .bind .peek fun _ _ => ih.moreElements hd
    dsimp only
    cases next.kind with
    | comma => exact .bind .advance fun _ _ => .bind ih.elements fun _ hr => .pure (he.append hr)
    | rightBracket => exact .bind .advance fun _ _ => .pure (he.append .nil)
    | _ =>
      exact .bind (ih.moreElements (Token.asksIn_unexpected hnext (by decide))) fun _ hr =>
        .pure (he.append hr)

theorem moreElements_succ {failure : Diagnostic} (h : failure.AsksIn tokens) :
    Yields tokens (fun r => DrawnFrom tokens (nodesOfExprs r.1))
      (Grammar.moreElements v strict (fuel + 1) failure) := by
  rw [Grammar.moreElements]
  refine .bind (.recover h _ _) fun stop _ => ?_
  split_ifs
  · exact .bind .peek fun _ _ => .pure .nil
  · exact ih.elements

theorem code_succ :
    Yields tokens (fun e => DrawnFrom tokens e.nodes) (Grammar.code v strict (fuel + 1)) := by
  rw [Grammar.code]
  refine .bind .advance fun _ _ => .bind (ih.statements _) fun body hbody => ?_
  exact .bind (.expect (by decide)) fun _ _ => .pure (DrawnFrom.cons_none rfl hbody)

theorem paren_succ :
    Yields tokens (fun e => DrawnFrom tokens e.nodes) (Grammar.paren v strict (fuel + 1)) := by
  rw [Grammar.paren]
  refine .bind .advance fun _ _ => .attempt (ih.expression 0) (fun e he => ?_) fun d hd => ?_
  · exact .bind (yields_parenInner_ok he) fun _ hinner =>
      .bind yields_closingParen fun _ _ => .pure (DrawnFrom.cons_none rfl hinner)
  · exact .bind (yields_parenInner_error hd) fun _ hinner =>
      .bind yields_closingParen fun _ _ => .pure (DrawnFrom.cons_none rfl hinner)

end Sourced

/-- Every rule gives what is drawn from the tokens, and fails at some of them, whatever its
budget. -/
theorem sourced (tokens : List Token) (v : Vocabulary) (strict : Bool) :
    ∀ fuel, Sourced tokens v strict fuel
  | 0 =>
    { statements := fun _ => .fail _ (by decide)
      statement := fun _ => .fail _ (by decide)
      statementBody := fun _ => .fail _ (by decide)
      expression := fun _ => .fail _ (by decide)
      operations := fun _ _ _ => .fail _ (by decide)
      operand := .fail _ (by decide)
      named := .fail _ (by decide)
      array := .fail _ (by decide)
      elements := .fail _ (by decide)
      moreElements := fun _ => .fail _ (by decide)
      code := .fail _ (by decide)
      paren := .fail _ (by decide) }
  | fuel + 1 =>
    have ih := sourced tokens v strict fuel
    { statements := ih.statements_succ
      statement := ih.statement_succ
      statementBody := ih.statementBody_succ
      expression := ih.expression_succ
      operations := ih.operations_succ
      operand := ih.operand_succ
      named := ih.named_succ
      array := ih.array_succ
      elements := ih.elements_succ
      moreElements := ih.moreElements_succ
      code := ih.code_succ
      paren := ih.paren_succ }

end Grammar

/-! ## Scripts -/

section

variable {v : Vocabulary} {strict : Bool} {tokens : List Token}

/-- What a script has in its tree is drawn from its tokens. -/
theorem drawnFrom_of_read {script : Script} (h : (Script.read v strict tokens {}).1 = .ok script) :
    DrawnFrom (Cursor.ofTokens tokens).tokens script.nodes := by
  have hrun := (Grammar.sourced _ v strict (Script.budget tokens)).statements .endOfInput
    ⟨.ofTokens tokens, {}⟩ ⟨List.Subset.refl _, by simp [Journal.diagnostics]⟩
  rw [Script.read_eq] at h
  split at h
  · next ss t hss =>
    obtain rfl := Except.ok.inj h
    exact (hrun.of_ok hss).1
  · cases h

/-- What reading finds are failures at the tokens. -/
theorem asksIn_of_read : ∀ d ∈ (Script.read v strict tokens {}).2.diagnostics,
    d.AsksIn (Cursor.ofTokens tokens).tokens := by
  have hrun := (Grammar.sourced _ v strict (Script.budget tokens)).statements .endOfInput
    ⟨.ofTokens tokens, {}⟩ ⟨List.Subset.refl _, by simp [Journal.diagnostics]⟩
  rw [Script.read_eq]
  split
  · next ss t hss => exact (hrun.of_ok hss).2.failures
  · next d t hd => exact (hrun.of_error hd).2.failures

/-- Only names are written down as uses of variables. -/
theorem Parse.Steps.kind_of_usage {s t : ParseState} (h : Steps v strict s t) {u : Token}
    {assigned : Bool} (hu : .usage u assigned ∈ t.journal.entries.toList) :
    .usage u assigned ∈ s.journal.entries.toList ∨ u.kind = .identifier := by
  induction h with
  | refl => exact .inl hu
  | @tail w x _ hstep ih =>
    cases hstep with
    | pass => exact ih hu
    | name hk =>
      rw [journal_resolve, Journal.toList_entries_writeAll, List.mem_append, noted] at hu
      refine hu.elim ih fun hu => .inr ?_
      split_ifs at hu
      · obtain ⟨rfl, -⟩ := Entry.usage.inj (List.mem_singleton.1 hu)
        exact hk
      · simp at hu
    | repair => exact ih (by simpa using hu)
    | abort => exact ih (by simpa [Journal.abort] using hu)

theorem kind_of_usage_of_read (v : Vocabulary) (strict : Bool) (tokens : List Token) :
    ∀ u assigned, .usage u assigned ∈ (Script.read v strict tokens {}).2.entries.toList →
      u.kind = .identifier := by
  intro u assigned hu
  obtain ⟨s, hs, hj⟩ := Script.exists_steps_read v strict tokens {}
  rw [hj] at hu
  exact (hs.kind_of_usage hu).resolve_left (by simp)

end

end SqfCheck
