import SqfCheck.Proofs.Outcome

/-!
# Runs in lockstep

Two runs of one rule over tokens that look alike do the same things, and end in things that look
alike. What is compared is a `Likeness` : a view of tokens, of spans and of diagnostics, where two
of them are alike if the views are equal, and a relation between journals. A view may forget much
of a token, but not its kind, nor the name it is looked up by, nor the text of a token that is no
name, for the grammar asks for nothing else (`Likeness.precedence?_eq`,
`Likeness.startsOperand_eq`).

Rules that follow each other stay in lockstep (`Lockstep.bind`), also where a rule looks at how
another one ended (`Lockstep.attempt`). So all rules are in lockstep with themselves
(`Grammar.inStep`), and so is the reading of a script (`Script.alike_read`).
-/

namespace SqfCheck

/-! ## Views of trees and cursors -/

mutual

/-- The expression with its tokens seen through `f` and its spans through `g`. -/
def Expr.map (f : Token → Token) (g : Span → Span) : Expr → Expr
  | .number t => .number (f t)
  | .string t => .string (f t)
  | .reference t => .reference (f t)
  | .expansion name span => .expansion (f name) (g span)
  | .array elements span => .array (mapExprs f g elements) (g span)
  | .code body span => .code (mapStatements f g body) (g span)
  | .paren inner span => .paren (inner.map f g) (g span)
  | .nullary op => .nullary (f op)
  | .unary op right => .unary (f op) (right.map f g)
  | .binary left op right => .binary (left.map f g) (f op) (right.map f g)
  | .dangling left op => .dangling (left.map f g) (f op)
  | .invalid span => .invalid (g span)

/-- The expressions with their tokens and spans seen through `f` and `g`. -/
def mapExprs (f : Token → Token) (g : Span → Span) : List Expr → List Expr
  | [] => []
  | e :: es => e.map f g :: mapExprs f g es

/-- The statement with its tokens and spans seen through `f` and `g`. -/
def Statement.map (f : Token → Token) (g : Span → Span) : Statement → Statement
  | .assignment isPrivate target value => .assignment isPrivate (target.map f g) (value.map f g)
  | .expression value => .expression (value.map f g)

/-- The statements with their tokens and spans seen through `f` and `g`. -/
def mapStatements (f : Token → Token) (g : Span → Span) : List Statement → List Statement
  | [] => []
  | s :: ss => s.map f g :: mapStatements f g ss

end

/-- The script with its tokens and spans seen through `f` and `g`. -/
def Script.map (f : Token → Token) (g : Span → Span) (s : Script) : Script :=
  ⟨mapStatements f g s.statements, g s.span⟩

theorem Expr.isExpansion_map (f : Token → Token) (g : Span → Span) (e : Expr) :
    (e.map f g).isExpansion = e.isExpansion := by
  cases e <;> rfl

namespace Cursor

/-- The cursor with its tokens seen through `f`. -/
def map (f : Token → Token) (c : Cursor) : Cursor :=
  ⟨f c.current, c.rest.map f⟩

variable (f : Token → Token)

theorem advance_map (c : Cursor) : (c.map f).advance = c.advance.map f := by
  rcases c with ⟨t, _ | ⟨u, us⟩⟩ <;> rfl

theorem nth_map : ∀ (n : Nat) (c : Cursor), (c.map f).nth n = f (c.nth n)
  | 0, _ => rfl
  | n + 1, c => by
    rw [nth, nth, advance_map]
    exact nth_map n c.advance

theorem seek_map {p : Token → Bool} (hp : ∀ t, p (f t) = p t) :
    ∀ (t : Token) (ts : List Token), seek p (f t) (ts.map f) = (seek p t ts).map f
  | _, [] => rfl
  | t, u :: us => by
    rw [List.map_cons, seek, seek, hp, seek_map hp u us]
    split_ifs <;> rfl

theorem dropWhile_map {p : Token → Bool} (hp : ∀ t, p (f t) = p t) (c : Cursor) :
    (c.map f).dropWhile p = (c.dropWhile p).map f :=
  seek_map f hp c.current c.rest

theorem skipArguments_map {g : Span → Span} (hk : ∀ t, (f t).kind = t.kind)
    (hs : ∀ t, (f t).span = g t.span) : ∀ (depth : Nat) (t : Token) (ts : List Token),
      skipArguments depth (f t) (ts.map f) =
        ((skipArguments depth t ts).1.map f, (skipArguments depth t ts).2.map g)
  | _, _, [] => rfl
  | depth, t, u :: us => by
    have ih := fun d => skipArguments_map hk hs d u us
    rw [List.map_cons]
    unfold skipArguments
    rw [hk, hs]
    cases t.kind with
    | leftParen => exact ih _
    | rightParen =>
      rcases depth with _ | _ | d
      · rfl
      · rfl
      · exact ih _
    | endOfInput => rfl
    | _ => exact ih _

end Cursor

/-! ## What is compared -/

/-- What two runs have in common while they are in lockstep. -/
structure Likeness where
  /-- What is compared of tokens. -/
  token : Token → Token
  /-- What is compared of spans. -/
  span : Span → Span
  /-- What is compared of diagnostics. -/
  diagnostic : Diagnostic → Diagnostic
  /-- Which journals are alike. -/
  Journals : Journal → Journal → Prop
  kind_token : ∀ t, (token t).kind = t.kind
  name_token : ∀ t, (token t).name = t.name
  text_token : ∀ t, t.kind ≠ .identifier → (token t).text = t.text
  span_token : ∀ t, (token t).span = span t.span
  span_through : ∀ a b, span (a.through b) = (span a).through (span b)
  span_diagnostic : ∀ d, (diagnostic d).span = span d.span
  diagnostic_unexpected : ∀ {t u} expected, token t = token u →
    diagnostic (t.unexpected expected) = diagnostic (u.unexpected expected)
  aborted_eq : ∀ {i j}, Journals i j → i.aborted = j.aborted
  usage : ∀ {i j t u} assigned, Journals i j → token t = token u →
    Journals (i.write (.usage t assigned)) (j.write (.usage u assigned))
  report : ∀ {i j d e}, Journals i j → diagnostic d = diagnostic e →
    Journals (i.report d) (j.report e)
  repaired : ∀ {i j r q}, Journals i j → diagnostic r.failure = diagnostic q.failure →
    Journals (i.repaired r) (j.repaired q)
  abort : ∀ {i j}, Journals i j → Journals i.abort j.abort

namespace Likeness

variable (L : Likeness)

/-- What is compared of expressions. -/
def expr (e : Expr) : Expr :=
  e.map L.token L.span

/-- What is compared of statements. -/
def statements (ss : List Statement) : List Statement :=
  mapStatements L.token L.span ss

/-- What is compared of the elements of an array with the span of what closes it. -/
def elements (es : List Expr × Span) : List Expr × Span :=
  (mapExprs L.token L.span es.1, L.span es.2)

/-- The tokens ahead are alike, and so are the journals. -/
structure States (s t : ParseState) : Prop where
  cursor : s.cursor.map L.token = t.cursor.map L.token
  journal : L.Journals s.journal t.journal

variable {L} {t u : Token}

theorem kind_eq (h : L.token t = L.token u) : t.kind = u.kind := by
  rw [← L.kind_token t, h, L.kind_token]

theorem name_eq (h : L.token t = L.token u) : t.name = u.name := by
  rw [← L.name_token t, h, L.name_token]

theorem text_eq (h : L.token t = L.token u) (hk : t.kind ≠ .identifier) : t.text = u.text := by
  rw [← L.text_token t hk, h, L.text_token u (kind_eq h ▸ hk)]

theorem span_eq (h : L.token t = L.token u) : L.span t.span = L.span u.span := by
  rw [← L.span_token t, h, L.span_token]

theorem through_eq {a b c d : Span} (h : L.span a = L.span c) (h' : L.span b = L.span d) :
    L.span (a.through b) = L.span (c.through d) := by
  rw [L.span_through, h, h', L.span_through]

theorem span_eq_of_diagnostic {d e : Diagnostic} (h : L.diagnostic d = L.diagnostic e) :
    L.span d.span = L.span e.span := by
  rw [← L.span_diagnostic d, h, L.span_diagnostic]

/-! ## What the grammar asks of a token -/

theorem isOperator_eq (h : L.token t = L.token u) (symbol : String) :
    t.isOperator symbol = u.isOperator symbol := by
  rw [Token.isOperator, Token.isOperator, kind_eq h]
  by_cases hk : u.kind = .operator
  · rw [text_eq h (by simp [kind_eq h, hk])]
  · simp [hk]

theorem isSign_eq (h : L.token t = L.token u) : t.isSign = u.isSign := by
  simp only [Token.isSign, isOperator_eq h]

theorem precedence?_eq (v : Vocabulary) (h : L.token t = L.token u) :
    v.precedence? t = v.precedence? u := by
  rw [Vocabulary.precedence?, Vocabulary.precedence?, name_eq h, kind_eq h]
  cases hk : u.kind with
  | operator => rw [text_eq h (by simp [kind_eq h, hk])]
  | _ => rfl

theorem startsOperand_eq (v : Vocabulary) (h : L.token t = L.token u) :
    v.startsOperand t = v.startsOperand u := by
  rw [Vocabulary.startsOperand, Vocabulary.startsOperand, name_eq h, isSign_eq h, kind_eq h]

theorem isExpansion_eq {e f : Expr} (h : L.expr e = L.expr f) :
    e.isExpansion = f.isExpansion := by
  have hmap := congrArg Expr.isExpansion h
  rwa [expr, expr, Expr.isExpansion_map, Expr.isExpansion_map] at hmap

section Cursors

variable {c d : Cursor} (h : c.map L.token = d.map L.token)
include h

theorem current_eq : L.token c.current = L.token d.current :=
  congrArg Cursor.current h

theorem nth_eq (n : Nat) : L.token (c.nth n) = L.token (d.nth n) := by
  rw [← Cursor.nth_map L.token, h, Cursor.nth_map]

theorem advance_eq : c.advance.map L.token = d.advance.map L.token := by
  rw [← Cursor.advance_map, h, Cursor.advance_map]

theorem dropWhile_eq {p : Token → Bool} (hp : ∀ t, p (L.token t) = p t) :
    (c.dropWhile p).map L.token = (d.dropWhile p).map L.token := by
  rw [← Cursor.dropWhile_map _ hp, h, Cursor.dropWhile_map _ hp]

theorem atPrivate_eq : Grammar.atPrivate c = Grammar.atPrivate d := by
  simp only [Grammar.atPrivate, kind_eq (current_eq h), name_eq (current_eq h),
    kind_eq (nth_eq h 1), kind_eq (nth_eq h 2)]

theorem atAssignment_eq : Grammar.atAssignment c = Grammar.atAssignment d := by
  simp only [Grammar.atAssignment, kind_eq (current_eq h), kind_eq (nth_eq h 1)]

end Cursors

theorem isSeparator_token (t : Token) :
    Cursor.isSeparator (L.token t) = Cursor.isSeparator t := by
  simp only [Cursor.isSeparator, L.kind_token]

end Likeness

/-! ## Lockstep -/

namespace Parse

variable {α β γ δ : Type} {L : Likeness} {v : Vocabulary} {strict : Bool}

/-- How two runs in lockstep end : both with values that `f` shows to be the same, or both with
failures that are alike. -/
inductive Alike (L : Likeness) (f : α → γ) :
    EStateM.Result Diagnostic ParseState α → EStateM.Result Diagnostic ParseState α → Prop where
  | ok {a b : α} {s t : ParseState} (hv : f a = f b) (hs : L.States s t) :
    Alike L f (.ok a s) (.ok b t)
  | error {d e : Diagnostic} {s t : ParseState} (hd : L.diagnostic d = L.diagnostic e)
    (hs : L.States s t) : Alike L f (.error d s) (.error e t)

/-- From states that are alike, the rules give values that `f` shows to be the same, or fail
alike. -/
def Lockstep (L : Likeness) (f : α → γ) (p q : Parse α) : Prop :=
  ∀ s t, L.States s t → Alike L f (p s) (q t)

namespace Lockstep

variable {f : α → γ} {g : β → δ} {p q : Parse α}

theorem pure {a b : α} (h : f a = f b) : Lockstep L f (pure a) (pure b) :=
  fun _ _ hs => .ok h hs

theorem bind {k l : α → Parse β} (h : Lockstep L f p q)
    (hk : ∀ a b, f a = f b → Lockstep L g (k a) (l b)) : Lockstep L g (p >>= k) (q >>= l) := by
  intro s t hs
  rw [show (p >>= k) s = EStateM.bind p k s from rfl,
    show (q >>= l) t = EStateM.bind q l t from rfl, EStateM.bind, EStateM.bind]
  have hpq := h s t hs
  revert hpq
  generalize p s = r, q t = r'
  intro hpq
  cases hpq with
  | ok hv hs => exact hk _ _ hv _ _ hs
  | error hd hs => exact .error hd hs

/-- Rules that look at how others ended are in lockstep, if they are both after values and after
failures. -/
theorem attempt {k l : Except Diagnostic α → Parse β} (h : Lockstep L f p q)
    (hok : ∀ a b, f a = f b → Lockstep L g (k (.ok a)) (l (.ok b)))
    (herror : ∀ d e, L.diagnostic d = L.diagnostic e →
      Lockstep L g (k (.error d)) (l (.error e))) :
    Lockstep L g (attempt p >>= k) (attempt q >>= l) := by
  intro s t hs
  rw [show (Parse.attempt p >>= k) s = EStateM.bind (Parse.attempt p) k s from rfl,
    show (Parse.attempt q >>= l) t = EStateM.bind (Parse.attempt q) l t from rfl,
    EStateM.bind, EStateM.bind, Parse.attempt, Parse.attempt]
  have hpq := h s t hs
  revert hpq
  generalize p s = r, q t = r'
  intro hpq
  cases hpq with
  | ok hv hs => exact hok _ _ hv _ _ hs
  | error hd hs => exact herror _ _ hd _ _ hs

theorem cursor : Lockstep L (Cursor.map L.token) cursor cursor :=
  fun _ _ hs => .ok hs.cursor hs

theorem peek : Lockstep L L.token peek peek :=
  fun _ _ hs => .ok (Likeness.current_eq hs.cursor) hs

theorem advance : Lockstep L L.token advance advance :=
  fun _ _ hs => .ok (Likeness.current_eq hs.cursor) ⟨Likeness.advance_eq hs.cursor, hs.journal⟩

theorem dropWhile {p : Token → Bool} (hp : ∀ t, p (L.token t) = p t) :
    Lockstep L id (move (·.dropWhile p)) (move (·.dropWhile p)) :=
  fun _ _ hs => .ok rfl ⟨Likeness.dropWhile_eq hs.cursor hp, hs.journal⟩

theorem fail (f : α → γ) (expected : String) :
    Lockstep L f (fail expected) (fail expected) :=
  fun _ _ hs => .error (L.diagnostic_unexpected _ (Likeness.current_eq hs.cursor)) hs

theorem expect (kind : TokenKind) : Lockstep L L.token (expect kind) (expect kind) := by
  intro s t hs
  rw [Parse.expect, Parse.expect, Likeness.kind_eq (Likeness.current_eq hs.cursor)]
  split_ifs
  · exact advance s t hs
  · exact fail _ _ s t hs

/-- Looking up names that are alike gives one meaning. -/
theorem resolve {t u : Token} (h : L.token t = L.token u) :
    Lockstep L id (resolve v t) (resolve v u) := by
  intro s s' hs
  have hnext := Likeness.kind_eq (Likeness.current_eq hs.cursor)
  unfold Parse.resolve Journal.resolve
  rw [Likeness.name_eq h, hnext]
  cases v.classify u.name with
  | plain => exact .ok rfl ⟨hs.cursor, L.usage _ hs.journal h⟩
  | _ => exact .ok rfl hs

/-- Failures that are alike are repaired alike. -/
theorem recover {d e : Diagnostic} (h : L.diagnostic d = L.diagnostic e) (boundary : TokenKind)
    (skip : Bool) :
    Lockstep L id (recover strict d boundary skip) (recover strict e boundary skip) := by
  intro s t hs
  have hp : ∀ t : Token, (!stopsAt boundary (L.token t)) = !stopsAt boundary t := by
    intro t
    rw [stopsAt, stopsAt, L.kind_token]
  have hstop := Likeness.dropWhile_eq (p := fun t => !stopsAt boundary t)
    (Likeness.advance_eq hs.cursor) hp
  have hrepaired : ∀ {r q : Repair}, r.failure = d → q.failure = e →
      L.Journals (s.journal.repaired r) (t.journal.repaired q) := by
    rintro r q rfl rfl
    exact L.repaired hs.journal h
  unfold Parse.recover
  rw [L.aborted_eq hs.journal]
  split_ifs
  · exact .error h hs
  · exact .error h ⟨hs.cursor, L.abort (L.report hs.journal h)⟩
  · exact .ok (Likeness.kind_eq (Likeness.current_eq hstop))
      ⟨Likeness.advance_eq hstop, hrepaired rfl rfl⟩
  · exact .ok (Likeness.kind_eq (Likeness.current_eq hstop)) ⟨hstop, hrepaired rfl rfl⟩

end Lockstep

end Parse

namespace Grammar

open Parse

variable {L : Likeness} {v : Vocabulary} {strict : Bool} {fuel : Nat}

/-! ## Rules without recursion -/

theorem lockstep_passName (v : Vocabulary) : Lockstep L L.token (passName v) (passName v) :=
  .bind .advance fun _ _ h => .bind (.resolve h) fun _ _ _ => .pure h

theorem lockstep_privateMark (v : Vocabulary) (isPrivate : Bool) :
    Lockstep L id (privateMark v isPrivate) (privateMark v isPrivate) := by
  unfold privateMark
  split_ifs
  · exact .bind (lockstep_passName v) fun _ _ _ => .pure rfl
  · exact .pure rfl

theorem lockstep_passCommand (v : Vocabulary) {t u : Token} (h : L.token t = L.token u) :
    Lockstep L L.token (passCommand v t) (passCommand v u) := by
  unfold passCommand
  rw [Likeness.kind_eq h]
  split_ifs
  · exact lockstep_passName v
  · exact .advance

theorem lockstep_statementEnd (close : TokenKind) :
    Lockstep L id (statementEnd close) (statementEnd close) := by
  refine .bind .peek fun t u h => ?_
  rw [← Likeness.isSeparator_token (L := L) t, h, Likeness.isSeparator_token, Likeness.kind_eq h]
  split_ifs
  · exact .bind .advance fun _ _ _ => .pure rfl
  · exact .pure rfl
  · exact .fail _ _

theorem lockstep_arguments : Lockstep L L.span arguments arguments := by
  intro s t hs
  have hcurrent := Likeness.current_eq hs.cursor
  have hrest : s.cursor.rest.map L.token = t.cursor.rest.map L.token :=
    congrArg Cursor.rest hs.cursor
  have hskip := Cursor.skipArguments_map L.token L.kind_token L.span_token 0 s.cursor.current
    s.cursor.rest
  rw [hcurrent, hrest, Cursor.skipArguments_map L.token L.kind_token L.span_token,
    Prod.mk.injEq] at hskip
  unfold arguments
  revert hskip
  generalize Cursor.skipArguments 0 s.cursor.current s.cursor.rest = a,
    Cursor.skipArguments 0 t.cursor.current t.cursor.rest = b
  intro hskip
  rcases a with ⟨c, _ | span⟩ <;> rcases b with ⟨d, _ | span'⟩
  · exact Lockstep.fail L.span "')'" ⟨c, _⟩ ⟨d, _⟩ ⟨hskip.1.symm, hs.journal⟩
  · simp at hskip
  · simp at hskip
  · exact .ok (Option.some.inj hskip.2).symm ⟨hskip.1.symm, hs.journal⟩

theorem lockstep_expansion {name name' : Token} (h : L.token name = L.token name') :
    Lockstep L L.expr (expansion strict name) (expansion strict name') := by
  have hexpr : ∀ a b, L.span a = L.span b →
      L.expr (.expansion name a) = L.expr (.expansion name' b) := by
    intro a b hab
    simp only [Likeness.expr, Expr.map, h, hab]
  refine .bind .peek fun t u htu => ?_
  rw [Likeness.kind_eq htu]
  split_ifs
  · exact .bind lockstep_arguments fun a b hab =>
      .pure (hexpr _ _ (Likeness.through_eq (Likeness.span_eq h) hab))
  · exact .pure (hexpr _ _ (Likeness.span_eq h))

theorem lockstep_closingParen : Lockstep L L.span closingParen closingParen := by
  refine .bind .peek fun t u h => ?_
  rw [Likeness.kind_eq h]
  split_ifs
  · exact .bind .advance fun _ _ hclose => .pure (Likeness.span_eq hclose)
  · exact .pure (Likeness.span_eq h)

theorem lockstep_parenInner_ok {e f : Expr} (h : L.expr e = L.expr f) :
    Lockstep L L.expr (parenInner strict (.ok e)) (parenInner strict (.ok f)) := by
  refine .bind .peek fun t u htu => ?_
  rw [Likeness.kind_eq htu]
  split_ifs
  · exact .pure h
  · exact .bind (.recover (L.diagnostic_unexpected _ htu) _ _) fun _ _ _ => .pure h

theorem lockstep_parenInner_error {d e : Diagnostic} (h : L.diagnostic d = L.diagnostic e) :
    Lockstep L L.expr (parenInner strict (.error d)) (parenInner strict (.error e)) := by
  refine .bind (.recover h _ _) fun _ _ _ => .pure ?_
  simp only [Likeness.expr, Expr.map, Likeness.span_eq_of_diagnostic h]

/-! ## All rules -/

/-- With the given budget, every rule is in lockstep with itself. -/
structure InStep (L : Likeness) (v : Vocabulary) (strict : Bool) (fuel : Nat) : Prop where
  statements (close : TokenKind) : Lockstep L L.statements
    (statements v strict fuel close) (statements v strict fuel close)
  statement (close : TokenKind) : Lockstep L (Statement.map L.token L.span)
    (statement v strict fuel close) (statement v strict fuel close)
  statementBody (isPrivate : Bool) : Lockstep L (Statement.map L.token L.span)
    (statementBody v strict fuel isPrivate) (statementBody v strict fuel isPrivate)
  expression (least : Nat) : Lockstep L L.expr
    (expression v strict fuel least) (expression v strict fuel least)
  operations (least : Nat) {left left' : Expr} (h : L.expr left = L.expr left') :
    Lockstep L L.expr
      (operations v strict fuel least left) (operations v strict fuel least left')
  operand : Lockstep L L.expr (operand v strict fuel) (operand v strict fuel)
  named : Lockstep L L.expr (named v strict fuel) (named v strict fuel)
  array : Lockstep L L.expr (array v strict fuel) (array v strict fuel)
  elements : Lockstep L L.elements (elements v strict fuel) (elements v strict fuel)
  moreElements {d e : Diagnostic} (h : L.diagnostic d = L.diagnostic e) :
    Lockstep L L.elements (moreElements v strict fuel d) (moreElements v strict fuel e)
  code : Lockstep L L.expr (code v strict fuel) (code v strict fuel)
  paren : Lockstep L L.expr (paren v strict fuel) (paren v strict fuel)

namespace InStep

variable (ih : InStep L v strict fuel)
include ih

theorem statements_succ (close : TokenKind) : Lockstep L L.statements
    (Grammar.statements v strict (fuel + 1) close)
    (Grammar.statements v strict (fuel + 1) close) := by
  rw [Grammar.statements]
  refine .bind (.dropWhile Likeness.isSeparator_token) fun _ _ _ => .bind .peek fun t u htu => ?_
  rw [Likeness.kind_eq htu]
  split_ifs
  · exact .pure rfl
  refine .attempt (ih.statement close) (fun st st' hst => ?_) fun d e hd => ?_
  · refine .bind (ih.statements close) fun ss ss' hss => .pure ?_
    exact congrArg₂ List.cons hst hss
  · refine .bind (.recover hd _ _) fun stop stop' hstop => ?_
    obtain rfl : stop = stop' := hstop
    split_ifs
    · exact .pure rfl
    · exact ih.statements close

theorem statement_succ (close : TokenKind) : Lockstep L (Statement.map L.token L.span)
    (Grammar.statement v strict (fuel + 1) close)
    (Grammar.statement v strict (fuel + 1) close) := by
  rw [Grammar.statement]
  refine .bind .cursor fun c d hcd => ?_
  rw [Likeness.atPrivate_eq hcd]
  refine .bind (lockstep_privateMark v _) fun _ _ _ => .bind (ih.statementBody _) fun a b h => ?_
  exact .bind (lockstep_statementEnd close) fun _ _ _ => .pure h

theorem statementBody_succ (isPrivate : Bool) : Lockstep L (Statement.map L.token L.span)
    (Grammar.statementBody v strict (fuel + 1) isPrivate)
    (Grammar.statementBody v strict (fuel + 1) isPrivate) := by
  rw [Grammar.statementBody]
  refine .bind .cursor fun c d hcd => ?_
  rw [Likeness.atAssignment_eq hcd]
  split_ifs
  · refine .bind (lockstep_passName v) fun t u htu => .bind .advance fun _ _ _ => ?_
    refine .bind (ih.expression 0) fun a b hab => .pure ?_
    exact congrArg₂ (Statement.assignment isPrivate) (congrArg Expr.reference htu) hab
  · refine .bind (ih.expression 0) fun e f hef => .bind .peek fun t u htu => ?_
    rw [Likeness.kind_eq htu, Likeness.isExpansion_eq hef]
    split_ifs
    · refine .bind .advance fun _ _ _ => .bind (ih.expression 0) fun a b hab => .pure ?_
      exact congrArg₂ (Statement.assignment isPrivate) hef hab
    · exact .pure (congrArg Statement.expression hef)

theorem expression_succ (least : Nat) : Lockstep L L.expr
    (Grammar.expression v strict (fuel + 1) least)
    (Grammar.expression v strict (fuel + 1) least) := by
  rw [Grammar.expression]
  exact .bind ih.operand fun _ _ h => ih.operations least h

theorem operations_succ (least : Nat) {left left' : Expr} (h : L.expr left = L.expr left') :
    Lockstep L L.expr (Grammar.operations v strict (fuel + 1) least left)
      (Grammar.operations v strict (fuel + 1) least left') := by
  rw [Grammar.operations, Grammar.operations]
  refine .bind .peek fun t u htu => ?_
  rw [Likeness.precedence?_eq v htu]
  cases v.precedence? u with
  | none => exact .pure h
  | some p =>
    dsimp only
    split_ifs
    · exact .pure h
    refine .bind (lockstep_passCommand v htu) fun op op' hop => ?_
    refine .bind (ih.expression (p + 1)) fun right right' hright => ih.operations least ?_
    simp only [Likeness.expr] at h hright
    simp only [Likeness.expr, Expr.map, h, hop, hright]

theorem operand_succ : Lockstep L L.expr (Grammar.operand v strict (fuel + 1))
    (Grammar.operand v strict (fuel + 1)) := by
  rw [Grammar.operand]
  refine .bind .peek fun t u htu => ?_
  rw [Likeness.isSign_eq htu, Likeness.kind_eq htu]
  split_ifs
  · refine .bind .advance fun op op' hop => .bind ih.operand fun a b hab => .pure ?_
    exact congrArg₂ Expr.unary hop hab
  cases u.kind with
  | identifier => exact ih.named
  | number => exact .bind .advance fun _ _ h => .pure (congrArg Expr.number h)
  | string => exact .bind .advance fun _ _ h => .pure (congrArg Expr.string h)
  | leftBracket => exact ih.array
  | leftBrace => exact ih.code
  | leftParen => exact ih.paren
  | _ => exact .fail _ _

theorem named_succ : Lockstep L L.expr (Grammar.named v strict (fuel + 1))
    (Grammar.named v strict (fuel + 1)) := by
  rw [Grammar.named]
  refine .bind .advance fun t u htu => .bind (.resolve htu) fun meaning meaning' hmeaning => ?_
  obtain rfl : meaning = meaning' := hmeaning
  cases meaning with
  | command o =>
    refine .bind .peek fun next next' hnext => ?_
    rw [Likeness.startsOperand_eq v hnext]
    split_ifs
    · exact .bind ih.operand fun a b hab => .pure (congrArg₂ Expr.unary htu hab)
    · exact .pure (congrArg Expr.nullary htu)
  | expansion => exact lockstep_expansion htu
  | magic => exact .pure (congrArg Expr.reference htu)
  | plain => exact .pure (congrArg Expr.reference htu)

theorem array_succ : Lockstep L L.expr (Grammar.array v strict (fuel + 1))
    (Grammar.array v strict (fuel + 1)) := by
  rw [Grammar.array]
  refine .bind .advance fun t u htu => .bind ih.elements ?_
  rintro ⟨es, close⟩ ⟨es', close'⟩ h
  obtain ⟨hes, hclose⟩ := Prod.mk.inj h
  exact .pure (congrArg₂ Expr.array hes (Likeness.through_eq (Likeness.span_eq htu) hclose))

theorem elements_succ : Lockstep L L.elements (Grammar.elements v strict (fuel + 1))
    (Grammar.elements v strict (fuel + 1)) := by
  -- An element in front of elements that are alike.
  have hcons : ∀ {e f : Expr} {es fs : List Expr × Span}, L.expr e = L.expr f →
      L.elements es = L.elements fs → L.elements (e :: es.1, es.2) = L.elements (f :: fs.1, fs.2) :=
    fun he hes => congrArg₂ Prod.mk (congrArg₂ List.cons he (Prod.mk.inj hes).1)
      (Prod.mk.inj hes).2
  have hend : ∀ {t u : Token}, L.token t = L.token u →
      L.elements ([], t.span) = L.elements ([], u.span) :=
    fun h => congrArg (Prod.mk []) (Likeness.span_eq h)
  rw [Grammar.elements]
  refine .bind .peek fun t u htu => ?_
  rw [Likeness.kind_eq htu]
  cases u.kind with
  | rightBracket => exact .bind .advance fun _ _ h => .pure (hend h)
  | endOfInput => exact .fail _ _
  | _ =>
    refine .attempt (ih.expression 0) (fun e f hef => .bind .peek fun next next' hnext => ?_)
      fun d d' hd => .bind .peek fun _ _ _ => ih.moreElements hd
    dsimp only
    rw [Likeness.kind_eq hnext]
    cases next'.kind with
    | comma => exact .bind .advance fun _ _ _ => .bind ih.elements fun _ _ h => .pure (hcons hef h)
    | rightBracket => exact .bind .advance fun _ _ h => .pure (hcons hef (hend h))
    | _ =>
      exact .bind (ih.moreElements (L.diagnostic_unexpected _ hnext)) fun _ _ h =>
        .pure (hcons hef h)

theorem moreElements_succ {d e : Diagnostic} (h : L.diagnostic d = L.diagnostic e) :
    Lockstep L L.elements (Grammar.moreElements v strict (fuel + 1) d)
      (Grammar.moreElements v strict (fuel + 1) e) := by
  rw [Grammar.moreElements, Grammar.moreElements]
  refine .bind (.recover h _ _) fun stop stop' hstop => ?_
  obtain rfl : stop = stop' := hstop
  split_ifs
  · exact .bind .peek fun _ _ h => .pure (congrArg (Prod.mk []) (Likeness.span_eq h))
  · exact ih.elements

theorem code_succ : Lockstep L L.expr (Grammar.code v strict (fuel + 1))
    (Grammar.code v strict (fuel + 1)) := by
  rw [Grammar.code]
  refine .bind .advance fun t u htu => .bind (ih.statements _) fun ss ss' hss => ?_
  refine .bind (.expect _) fun w x hwx => .pure ?_
  exact congrArg₂ Expr.code hss (Likeness.through_eq (Likeness.span_eq htu)
    (Likeness.span_eq hwx))

theorem paren_succ : Lockstep L L.expr (Grammar.paren v strict (fuel + 1))
    (Grammar.paren v strict (fuel + 1)) := by
  -- What follows the expression between the parentheses.
  have hclose : ∀ {t u : Token} {e f : Expr}, L.token t = L.token u → L.expr e = L.expr f →
      Lockstep L L.expr
        (closingParen >>= fun close => Pure.pure (Expr.paren e (t.span.through close)))
        (closingParen >>= fun close => Pure.pure (Expr.paren f (u.span.through close))) :=
    fun htu hef => .bind lockstep_closingParen fun _ _ hab =>
      .pure (congrArg₂ Expr.paren hef (Likeness.through_eq (Likeness.span_eq htu) hab))
  rw [Grammar.paren]
  refine .bind .advance fun t u htu => .attempt (ih.expression 0) (fun e f hef => ?_)
    fun d d' hd => ?_
  · exact .bind (lockstep_parenInner_ok hef) fun _ _ h => hclose htu h
  · exact .bind (lockstep_parenInner_error hd) fun _ _ h => hclose htu h

end InStep

/-- Every rule is in lockstep with itself. -/
theorem inStep (L : Likeness) (v : Vocabulary) (strict : Bool) :
    ∀ fuel, InStep L v strict fuel
  | 0 =>
    { statements := fun _ => .fail _ _
      statement := fun _ => .fail _ _
      statementBody := fun _ => .fail _ _
      expression := fun _ => .fail _ _
      operations := fun _ _ _ _ => .fail _ _
      operand := .fail _ _
      named := .fail _ _
      array := .fail _ _
      elements := .fail _ _
      moreElements := fun _ => .fail _ _
      code := .fail _ _
      paren := .fail _ _ }
  | fuel + 1 =>
    have ih := inStep L v strict fuel
    { statements := ih.statements_succ
      statement := ih.statement_succ
      statementBody := ih.statementBody_succ
      expression := ih.expression_succ
      operations := ih.operations_succ
      operand := ih.operand_succ
      named := ih.named_succ
      array := ih.array_succ
      elements := ih.elements_succ
      moreElements := ih.moreElements_succ
      code := ih.code_succ
      paren := ih.paren_succ }

end Grammar

namespace Script

open Parse

/-- Tokens that are alike are read as scripts that are alike, or fail alike. -/
theorem alike_read (L : Likeness) (v : Vocabulary) (strict : Bool) {ts us : List Token}
    {i j : Journal} (h : (Cursor.ofTokens ts).map L.token = (Cursor.ofTokens us).map L.token)
    (hj : L.Journals i j) :
    ((read v strict ts i).1.map (Script.map L.token L.span)).mapError L.diagnostic =
      ((read v strict us j).1.map (Script.map L.token L.span)).mapError L.diagnostic ∧
    L.Journals (read v strict ts i).2 (read v strict us j).2 := by
  have hlength : (Cursor.ofTokens ts).rest.length = (Cursor.ofTokens us).rest.length := by
    have hrest := congrArg (List.length ∘ Cursor.rest) h
    simpa [Cursor.map] using hrest
  have hrun := (Grammar.inStep L v strict (budget us)).statements .endOfInput
    ⟨Cursor.ofTokens ts, i⟩ ⟨Cursor.ofTokens us, j⟩ ⟨h, hj⟩
  rw [read_eq, read_eq, show budget ts = budget us by rw [budget, budget, hlength]]
  revert hrun
  generalize Grammar.statements v strict _ _ ⟨Cursor.ofTokens ts, i⟩ = r,
    Grammar.statements v strict _ _ ⟨Cursor.ofTokens us, j⟩ = r'
  intro hrun
  cases hrun with
  | ok hv hs =>
    have hspan := Likeness.through_eq (Likeness.span_eq (Likeness.current_eq h))
      (Likeness.span_eq (Likeness.current_eq hs.cursor))
    exact ⟨congrArg Except.ok (congrArg₂ Script.mk hv hspan), hs.journal⟩
  | error hd hs => exact ⟨congrArg Except.error hd, hs.journal⟩

end Script

end SqfCheck
