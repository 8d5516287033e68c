import Mathlib.Data.List.Forall2
import SqfCheck.Proofs.Outcome
import SqfCheck.Proofs.Pieces

/-!
# Trees that lose nothing

A script that is read without a fault says, from left to right, just the tokens that it was read
from (`pieces_of_read`), and what reading it writes down are the uses of variables outside the
argument lists of macros (`entries_of_read`).

Both are said of a stretch of reading at once (`Passes`) : the tokens passed on the way from one
state to another, as a list, are what the piece of tree says, and what was written down is what
these tokens call for. Stretches that follow each other make up one stretch (`Passes.append`). A
rule covers what it gives (`Covers`) if the stretch from its first state to its last one is such
a stretch, or has a fault in it ; after a repair there is a fault, so nothing is left to show.
-/

namespace SqfCheck

/-- What is written down for a token outside the argument lists of macros, given with the token
after it. -/
def Vocabulary.noting (v : Vocabulary) (p : Token × Option Token) : Option Entry :=
  if p.1.kind = .identifier then Parse.noted v p.1 (p.2.any (·.kind = .assign)) else none

namespace Parse

variable {α β : Type} {v : Vocabulary} {strict : Bool} {s t u : ParseState} {ps qs : List Piece}

/-! ## Stretches -/

/-- On the way from `s` to `t` the tokens `seg` outside of argument lists were passed, which are
what `ps` says. -/
structure Passes (v : Vocabulary) (s t : ParseState) (seg : List (Token × Option Token))
    (ps : List Piece) : Prop where
  outside_eq : v.outside none s.cursor.tokens = seg ++ v.outside none t.cursor.tokens
  entries_eq : t.journal.entries.toList = s.journal.entries.toList ++ seg.filterMap v.noting
  valid : ∀ p ∈ seg, p.1.kind ≠ .invalid
  pieces : List.Forall₂ Piece.Matches ps ((seg.map Prod.fst).filter Token.isKept)

theorem Passes.refl (s : ParseState) : Passes v s s [] [] where
  outside_eq := rfl
  entries_eq := by simp
  valid := by simp
  pieces := .nil

theorem Passes.append {seg seg' : List (Token × Option Token)} (h : Passes v s t seg ps)
    (h' : Passes v t u seg' qs) : Passes v s u (seg ++ seg') (ps ++ qs) where
  outside_eq := by rw [h.outside_eq, h'.outside_eq, List.append_assoc]
  entries_eq := by rw [h'.entries_eq, h.entries_eq, List.filterMap_append, List.append_assoc]
  valid p hp := (List.mem_append.1 hp).elim (h.valid p) (h'.valid p)
  pieces := by
    rw [List.map_append, List.filter_append]
    exact List.rel_append h.pieces h'.pieces

/-- A stretch that makes up some piece of a tree has tokens in it. -/
theorem Passes.length_rest_lt {seg : List (Token × Option Token)} (h : Passes v s t seg ps)
    (hs : t.cursor.tokens <:+ s.cursor.tokens) (hps : ps ≠ []) :
    t.cursor.rest.length < s.cursor.rest.length := by
  by_contra hle
  have heq : t.cursor.tokens = s.cursor.tokens :=
    hs.eq_of_length_le (by simp only [Cursor.tokens, List.length_cons]; omega)
  have hseg : seg = [] := by
    have hout := h.outside_eq
    rw [heq] at hout
    exact List.self_eq_append_left.1 hout
  have hpieces := h.pieces
  rw [hseg] at hpieces
  exact hps (List.forall₂_nil_right_iff.1 hpieces)

/-- On the way from `s` to `t` a fault was written down. -/
structure Faulty (v : Vocabulary) (strict : Bool) (s t : ParseState) : Prop where
  steps : Steps v strict s t
  lt : s.journal.diagnostics.length < t.journal.diagnostics.length

theorem Faulty.after (h : Faulty v strict t u) (hs : Steps v strict s t) :
    Faulty v strict s u where
  steps := hs.trans h.steps
  lt := Nat.lt_of_le_of_lt hs.isPrefix_diagnostics.length_le h.lt

theorem Faulty.before (h : Faulty v strict s t) (hs : Steps v strict t u) :
    Faulty v strict s u where
  steps := h.steps.trans hs
  lt := Nat.lt_of_lt_of_le h.lt hs.isPrefix_diagnostics.length_le

/-- On the way from `s` to `t` there was a fault, or the tokens were passed that `ps` says. -/
structure Covers (v : Vocabulary) (strict : Bool) (s t : ParseState) (ps : List Piece) :
    Prop where
  steps : Steps v strict s t
  passes : s.journal.diagnostics.length < t.journal.diagnostics.length ∨
    ∃ seg, Passes v s t seg ps

namespace Covers

theorem refl (s : ParseState) : Covers v strict s s [] :=
  ⟨.refl, .inr ⟨[], .refl s⟩⟩

theorem of_faulty (h : Faulty v strict s t) (ps : List Piece) : Covers v strict s t ps :=
  ⟨h.steps, .inl h.lt⟩

theorem append (h : Covers v strict s t ps) (h' : Covers v strict t u qs) :
    Covers v strict s u (ps ++ qs) := by
  refine ⟨h.steps.trans h'.steps, ?_⟩
  rcases h.passes with hlt | ⟨seg, hseg⟩
  · exact .inl (Faulty.before ⟨h.steps, hlt⟩ h'.steps).lt
  rcases h'.passes with hlt | ⟨seg', hseg'⟩
  · exact .inl (Faulty.after ⟨h'.steps, hlt⟩ h.steps).lt
  · exact .inr ⟨seg ++ seg', hseg.append hseg'⟩

theorem cons {p : Piece} (h : Covers v strict s t [p]) (h' : Covers v strict t u qs) :
    Covers v strict s u (p :: qs) :=
  h.append h'

theorem wellFormed (h : Covers v strict s t ps) (hs : WellFormed s.cursor.tokens) :
    WellFormed t.cursor.tokens :=
  hs.of_isSuffix h.steps.isSuffix_tokens

end Covers

/-! ## Single tokens -/

/-- Before the end there is a next token. -/
theorem exists_rest_eq {c : Cursor} (hc : WellFormed c.tokens)
    (hk : c.current.kind ≠ .endOfInput) : ∃ next rest, c.rest = next :: rest := by
  have hne : c.rest ≠ [] := mt (hc.ends (List.suffix_refl _)).2 hk
  exact List.exists_cons_of_ne_nil hne

/-- A token that is no name is passed. -/
theorem covers_pass (hs : WellFormed s.cursor.tokens) {kind : TokenKind}
    (hk : s.cursor.current.kind = kind)
    (hkind : kind ∉ [TokenKind.endOfInput, .invalid, .identifier])
    (hp : List.Forall₂ Piece.Matches ps ([s.cursor.current].filter Token.isKept)) :
    Covers v strict s { s with cursor := s.cursor.advance } ps := by
  simp only [List.mem_cons, List.not_mem_nil, or_false, not_or, ← hk] at hkind
  obtain ⟨hend, hinvalid, hname⟩ := hkind
  obtain ⟨next, rest, hrest⟩ := exists_rest_eq hs hend
  have hexpands : v.expands s.cursor.current = false := by
    simp [Vocabulary.expands, hname]
  refine ⟨.single (.pass s), .inr ⟨[(s.cursor.current, some next)], ?_, ?_, ?_, hp⟩⟩
  · rw [Cursor.tokens, hrest, v.outside_cons rest (.inl hexpands), Cursor.advance, hrest]
    rfl
  · simp [Vocabulary.noting, hname]
  · simpa using hinvalid

/-- A token of a kind that has one spelling is passed. -/
theorem covers_symbol (hs : WellFormed s.cursor.tokens) {kind : TokenKind} {w : String}
    (hk : s.cursor.current.kind = kind) (hw : kind.spelling? = some w)
    (hkind : kind ∉ [TokenKind.endOfInput, .semicolon, .comma]) :
    Covers v strict s { s with cursor := s.cursor.advance } [.spelled kind w] := by
  have htext : s.cursor.current.text = w :=
    hs.text_eq _ List.mem_cons_self w (by rw [hk, hw])
  refine covers_pass hs hk ?_ ?_
  · cases kind <;> simp_all [TokenKind.spelling?]
  · have hkept : s.cursor.current.isKept = true := by
      simp_all [Token.isKept, Cursor.isSeparator]
    rw [List.filter_cons_of_pos hkept]
    exact .cons ⟨hk, htext⟩ .nil

/-- A literal or an operator is passed. -/
theorem covers_literal (hs : WellFormed s.cursor.tokens) {kind : TokenKind}
    (hk : s.cursor.current.kind = kind) (hkind : kind ∈ [TokenKind.number, .string, .operator]) :
    Covers v strict s { s with cursor := s.cursor.advance }
      [.spelled kind s.cursor.current.text] := by
  refine covers_pass hs hk ?_ ?_
  · cases kind <;> simp_all
  · have hkept : s.cursor.current.isKept = true := by
      cases kind <;> simp_all [Token.isKept, Cursor.isSeparator]
    rw [List.filter_cons_of_pos hkept]
    exact .cons ⟨hk, rfl⟩ .nil

/-- Passing a separator covers nothing. -/
theorem covers_separator (hs : WellFormed s.cursor.tokens)
    (hk : Cursor.isSeparator s.cursor.current = true) :
    Covers v strict s { s with cursor := s.cursor.advance } [] := by
  refine covers_pass hs rfl ?_ ?_
  · simp only [Cursor.isSeparator, Bool.or_eq_true, decide_eq_true_eq] at hk
    rcases hk with hk | hk <;> simp [hk]
  · have hkept : ¬s.cursor.current.isKept = true := by simp [Token.isKept, hk]
    rw [List.filter_cons_of_neg hkept]
    exact .nil

theorem covers_seek {j : Journal} :
    ∀ {c : Token} {rest : List Token}, WellFormed (c :: rest) →
      Covers v strict ⟨⟨c, rest⟩, j⟩ ⟨Cursor.seek Cursor.isSeparator c rest, j⟩ []
  | _, [], _ => .refl _
  | c, d :: rest, h => by
    rw [Cursor.seek]
    split_ifs with hc
    · have hpass : Covers v strict ⟨⟨c, d :: rest⟩, j⟩ ⟨⟨d, rest⟩, j⟩ [] :=
        covers_separator h hc
      exact hpass.append (covers_seek (hpass.wellFormed h))
    · exact .refl _

/-- A name is passed and looked up, with the argument list after it if there is one. -/
theorem covers_name {c : Cursor} {p : Piece} (hk : s.cursor.current.kind = .identifier)
    (hp : p.Matches s.cursor.current)
    (hout : v.outside none s.cursor.tokens =
      (s.cursor.current, some s.cursor.advance.current) :: v.outside none c.tokens)
    (hsteps : Steps v strict s
      ⟨c, (s.journal.resolve v s.cursor.current s.cursor.advance.current).2⟩) :
    Covers v strict s
      ⟨c, (s.journal.resolve v s.cursor.current s.cursor.advance.current).2⟩ [p] := by
  refine ⟨hsteps, .inr ⟨[(s.cursor.current, some s.cursor.advance.current)], hout, ?_, ?_, ?_⟩⟩
  · rw [journal_resolve, Journal.toList_entries_writeAll]
    congr 1
    simp only [Vocabulary.noting, hk, if_true, List.filterMap_cons, List.filterMap_nil,
      Option.any_some]
    cases noted v s.cursor.current _ <;> rfl
  · simp [hk]
  · have hkept : s.cursor.current.isKept = true := by
      simp [Token.isKept, Cursor.isSeparator, hk]
    rw [List.map_singleton, List.filter_cons_of_pos hkept]
    exact .cons hp .nil

/-- A name without an argument list. -/
theorem covers_bareName {p : Piece} (hs : WellFormed s.cursor.tokens)
    (hk : s.cursor.current.kind = .identifier) (hp : p.Matches s.cursor.current)
    (hbare : v.expands s.cursor.current = false ∨ s.cursor.advance.current.kind ≠ .leftParen) :
    Covers v strict s ⟨s.cursor.advance,
      (s.journal.resolve v s.cursor.current s.cursor.advance.current).2⟩ [p] := by
  refine covers_name hk hp ?_ (.single (.name s hk))
  obtain ⟨next, rest, hrest⟩ := exists_rest_eq hs (by rw [hk]; simp)
  have hadvance : s.cursor.advance = ⟨next, rest⟩ := by rw [Cursor.advance, hrest]
  rw [hadvance] at hbare ⊢
  rw [Cursor.tokens, hrest, v.outside_cons rest hbare]
  rfl

/-- After a repair there is a fault. -/
theorem faulty_recover (v : Vocabulary) {failure : Diagnostic} (boundary : TokenKind) (skip : Bool)
    (hb : Blames failure s) :
    Gives (recover strict failure boundary skip) s fun _ t => Faulty v strict s t := by
  have hsteps : Traces v strict s (recover strict failure boundary skip) s :=
    traces_recover boundary skip .refl hb
  rw [Traces, leads_recover] at hsteps
  rw [Gives, leads_recover]
  split
  · trivial
  split
  · trivial
  · next ha hs =>
    rw [if_neg ha, if_neg hs] at hsteps
    refine ⟨hsteps, ?_⟩
    rw [Journal.diagnostics_repaired, List.length_append]
    exact Nat.lt_succ_self _

end Parse

namespace Grammar

open Parse

variable {v : Vocabulary} {strict : Bool} {fuel : Nat} {t u : ParseState}

/-! ## Rules without recursion -/

theorem covers_passName (strict : Bool) {p : Piece} (ht : WellFormed t.cursor.tokens)
    (hk : t.cursor.current.kind = .identifier) (hp : p.Matches t.cursor.current)
    (hbare : v.expands t.cursor.current = false ∨ t.cursor.advance.current.kind ≠ .leftParen) :
    Gives (passName v) t fun a u =>
      a = t.cursor.current ∧ u.cursor = t.cursor.advance ∧ Covers v strict t u [p] := by
  rw [Gives, passName]
  simp only [leads_bind, leads_advance, leads_resolve, leads_pure, true_and]
  exact covers_bareName ht hk hp hbare

/-- A private assignment is an assignment after the word that makes it private. -/
theorem covers_privateMark (strict : Bool) (ht : WellFormed t.cursor.tokens) :
    Gives (privateMark v (atPrivate t.cursor)) t fun _ u =>
      (atPrivate t.cursor = true → atAssignment u.cursor = true) ∧
        Covers v strict t u (if atPrivate t.cursor then [.word "private"] else []) := by
  rw [privateMark]
  split_ifs with hprivate
  · have hk := kind_of_atPrivate hprivate
    simp only [atPrivate, Bool.and_eq_true, decide_eq_true_eq, beq_iff_eq] at hprivate
    obtain ⟨⟨⟨-, hname⟩, hnext⟩, hassign⟩ := hprivate
    have hbare : t.cursor.advance.current.kind ≠ .leftParen := by
      rw [show t.cursor.advance.current.kind = .identifier from hnext]
      simp
    have hpiece : (Piece.word "private").Matches t.cursor.current := ⟨hk, hname⟩
    refine (covers_passName strict ht hk hpiece (.inr hbare)).andThen ?_
    rintro _ u ⟨-, hu, hcovers⟩
    refine ⟨fun _ => ?_, hcovers⟩
    rw [hu]
    simp only [atAssignment, Bool.and_eq_true, decide_eq_true_eq]
    exact ⟨hnext, hassign⟩
  · exact ⟨by simp [hprivate], .refl t⟩

/-- A command between two operands. -/
theorem covers_passCommand (strict : Bool) (ht : WellFormed t.cursor.tokens) {p : Nat}
    (hp : v.precedence? t.cursor.current = some p) :
    Gives (passCommand v t.cursor.current) t fun op u => Covers v strict t u [.ofToken op] := by
  rw [passCommand]
  unfold Vocabulary.precedence? at hp
  split at hp
  · next hk =>
    rw [if_neg (by simp [hk])]
    show Covers v strict t _ [.spelled t.cursor.current.kind _]
    rw [hk]
    exact covers_literal ht hk (by simp)
  · next hk =>
    rw [if_pos hk]
    have hbare : v.expands t.cursor.current = false := by
      split_ifs at hp with hsupports
      obtain ⟨o, ho, -⟩ := (Option.any_eq_true _ _).1 hsupports
      simp [Vocabulary.expands, Catalogue.isCommand, ho]
    refine (covers_passName strict ht hk (Piece.matches_ofToken _) (.inl hbare)).mono ?_
    rintro op u ⟨rfl, -, hcovers⟩
    exact hcovers
  · cases hp

theorem covers_statementEnd (v : Vocabulary) (strict : Bool) (ht : WellFormed t.cursor.tokens)
    (close : TokenKind) :
    Gives (statementEnd close) t fun _ u => Covers v strict t u [] := by
  rw [Gives, statementEnd]
  simp only [leads_bind, leads_peek]
  split_ifs with hsep
  · exact covers_separator ht hsep
  · exact .refl t
  · trivial

/-- A macro, with its argument list left out. -/
theorem covers_expansion (ht : WellFormed t.cursor.tokens)
    (hk : t.cursor.current.kind = .identifier)
    (hx : v.classify t.cursor.current.name = .expansion) :
    Gives (expansion strict t.cursor.current) ⟨t.cursor.advance,
        (t.journal.resolve v t.cursor.current t.cursor.advance.current).2⟩
      fun e u => Covers v strict t u e.pieces := by
  have hpiece : (Piece.spelled .identifier t.cursor.current.text).Matches t.cursor.current :=
    ⟨hk, rfl⟩
  rw [Gives, expansion]
  simp only [leads_bind, leads_peek]
  split_ifs with hparen
  · rw [leads_bind, leads_arguments]
    have hskip : Steps v strict t ⟨(Cursor.skipArguments 0 t.cursor.advance.current
        t.cursor.advance.rest).1,
        (t.journal.resolve v t.cursor.current t.cursor.advance.current).2⟩ :=
      Steps.skipArguments (.single (.name t hk))
    split
    · next c span harguments =>
      dsimp only at hparen harguments
      rw [harguments] at hskip
      refine covers_name hk hpiece ?_ hskip
      obtain ⟨next, rest, hrest⟩ := exists_rest_eq ht (by rw [hk]; simp)
      have hadvance : t.cursor.advance = ⟨next, rest⟩ := by rw [Cursor.advance, hrest]
      rw [hadvance] at hparen harguments ⊢
      rw [Cursor.tokens, hrest,
        v.outside_cons_arguments rest (v.expands_eq_true.2 ⟨hk, hx⟩) hparen,
        v.outside_of_skipArguments harguments]
    · trivial
  · exact covers_bareName ht hk hpiece (.inr hparen)

/-- What stands between parentheses is read up to the one that closes, or there is a fault. -/
theorem gives_inner (v : Vocabulary) {outcome : Except Diagnostic Expr}
    (hb : ∀ d, outcome = .error d → Blames d t) :
    Gives (parenInner strict outcome) t fun inner u => Faulty v strict t u ∨
      outcome = .ok inner ∧ u = t ∧ t.cursor.current.kind = .rightParen := by
  cases outcome with
  | ok inner =>
    rw [Gives, parenInner]
    simp only [leads_bind, leads_peek]
    split_ifs with hk
    · exact .inr ⟨rfl, rfl, hk⟩
    · exact (faulty_recover v .rightParen false (.inr ⟨_, rfl⟩)).andThen fun _ _ hu => .inl hu
  | error failure =>
    exact (faulty_recover v .rightParen false (hb failure rfl)).andThen fun _ _ hu => .inl hu

/-! ## All rules -/

/-- With the given budget, every rule covers what it gives. -/
structure Covered (v : Vocabulary) (strict : Bool) (fuel : Nat) : Prop where
  statements {t : ParseState} (ht : WellFormed t.cursor.tokens) (close : TokenKind) :
    Gives (statements v strict fuel close) t fun ss u =>
      Covers v strict t u (piecesOfStatements ss) ∧
        (Faulty v strict t u ∨ closes close u.cursor.current.kind = true)
  statement {t : ParseState} (ht : WellFormed t.cursor.tokens) (close : TokenKind) :
    Gives (statement v strict fuel close) t fun st u => Covers v strict t u st.pieces
  statementBody {t : ParseState} (ht : WellFormed t.cursor.tokens) {isPrivate : Bool}
    (hp : isPrivate = true → atAssignment t.cursor = true) :
    Gives (statementBody v strict fuel isPrivate) t fun st u =>
      ∃ ps, st.pieces = (if isPrivate then [.word "private"] else []) ++ ps ∧
        Covers v strict t u ps
  expression {t : ParseState} (ht : WellFormed t.cursor.tokens) (least : Nat) :
    Gives (expression v strict fuel least) t fun e u => Covers v strict t u e.pieces
  operations {t : ParseState} (ht : WellFormed t.cursor.tokens) (least : Nat) (left : Expr) :
    Gives (operations v strict fuel least left) t fun e u =>
      ∃ ps, e.pieces = left.pieces ++ ps ∧ Covers v strict t u ps
  operand {t : ParseState} (ht : WellFormed t.cursor.tokens) :
    Gives (operand v strict fuel) t fun e u => Covers v strict t u e.pieces
  named {t : ParseState} (ht : WellFormed t.cursor.tokens)
    (hk : t.cursor.current.kind = .identifier) :
    Gives (named v strict fuel) t fun e u => Covers v strict t u e.pieces
  array {t : ParseState} (ht : WellFormed t.cursor.tokens)
    (hk : t.cursor.current.kind = .leftBracket) :
    Gives (array v strict fuel) t fun e u => Covers v strict t u e.pieces
  elements {t : ParseState} (ht : WellFormed t.cursor.tokens) :
    Gives (elements v strict fuel) t fun r u =>
      Covers v strict t u (piecesOfExprs r.1 ++ [.spelled .rightBracket "]"])
  moreElements {t : ParseState} (ht : WellFormed t.cursor.tokens) {failure : Diagnostic}
    (hb : Blames failure t) :
    Gives (moreElements v strict fuel failure) t fun _ u => Faulty v strict t u
  code {t : ParseState} (ht : WellFormed t.cursor.tokens)
    (hk : t.cursor.current.kind = .leftBrace) :
    Gives (code v strict fuel) t fun e u => Covers v strict t u e.pieces
  paren {t : ParseState} (ht : WellFormed t.cursor.tokens)
    (hk : t.cursor.current.kind = .leftParen) :
    Gives (paren v strict fuel) t fun e u => Covers v strict t u e.pieces

namespace Covered

variable (ih : Covered v strict fuel) (ht : WellFormed t.cursor.tokens)
include ih ht

theorem statements_succ (close : TokenKind) :
    Gives (Grammar.statements v strict (fuel + 1) close) t fun ss u =>
      Covers v strict t u (piecesOfStatements ss) ∧
        (Faulty v strict t u ∨ closes close u.cursor.current.kind = true) := by
  have hdrop : Covers v strict t ⟨t.cursor.dropWhile Cursor.isSeparator, t.journal⟩ [] :=
    covers_seek ht
  rw [Gives, Grammar.statements]
  simp only [leads_bind, leads_move, leads_peek]
  split_ifs with hclose
  · exact ⟨hdrop, .inr hclose⟩
  have hd := hdrop.wellFormed ht
  refine (ih.statement hd close).bind_attempt ((traced v strict fuel).statement .refl close)
    (fun st u hu hst => ?_) fun d u hu hb => ?_
  · have hst' := hdrop.append hst
    refine (ih.statements (hst'.wellFormed ht) close).andThen ?_
    rintro ss w ⟨hss, hend⟩
    refine ⟨hst'.append hss, hend.imp_left fun hw => hw.after hst'.steps⟩
  · refine (faulty_recover v .semicolon true hb).andThen fun stop w hw => ?_
    have hfault : Faulty v strict t w := hw.after (hdrop.steps.trans hu)
    split_ifs
    · exact ⟨.of_faulty hfault _, .inl hfault⟩
    · refine (ih.statements (ht.of_isSuffix hfault.steps.isSuffix_tokens) close).mono ?_
      rintro ss x ⟨hss, -⟩
      exact ⟨.of_faulty (hfault.before hss.steps) _, .inl (hfault.before hss.steps)⟩

theorem statement_succ (close : TokenKind) :
    Gives (Grammar.statement v strict (fuel + 1) close) t
      fun st u => Covers v strict t u st.pieces := by
  rw [Gives, Grammar.statement, leads_bind, leads_cursor]
  refine (covers_privateMark strict ht).andThen ?_
  rintro _ u ⟨hp, hmark⟩
  refine (ih.statementBody (hmark.wellFormed ht) hp).andThen ?_
  rintro st w ⟨ps, hst, hbody⟩
  have hboth := hmark.append hbody
  rw [← hst] at hboth
  refine (covers_statementEnd v strict (hboth.wellFormed ht) close).andThen fun _ x hend => ?_
  simpa [Gives] using hboth.append hend

/-- An assignment to `target`, which was read before. -/
theorem assignment {target : Expr} (isPrivate : Bool) (hu : Covers v strict t u target.pieces)
    (hk : u.cursor.current.kind = .assign) :
    Gives (do
      let _ ← advance
      let value ← Grammar.expression v strict fuel 0
      return Statement.assignment isPrivate target value) u fun st w =>
      ∃ ps, st.pieces = (if isPrivate then [.word "private"] else []) ++ ps ∧
        Covers v strict t w ps := by
  have hsign := hu.append (covers_symbol (hu.wellFormed ht) hk rfl (by simp))
  rw [Gives, leads_bind, leads_advance]
  refine (ih.expression (hsign.wellFormed ht) 0).andThen fun value w hvalue => ?_
  refine ⟨target.pieces ++ .spelled .assign "=" :: value.pieces, ?_, ?_⟩
  · rw [Statement.pieces, List.append_assoc]
  · simpa using hsign.append hvalue

theorem statementBody_succ {isPrivate : Bool}
    (hp : isPrivate = true → atAssignment t.cursor = true) :
    Gives (Grammar.statementBody v strict (fuel + 1) isPrivate) t fun st u =>
      ∃ ps, st.pieces = (if isPrivate then [.word "private"] else []) ++ ps ∧
        Covers v strict t u ps := by
  rw [Gives, Grammar.statementBody, leads_bind, leads_cursor]
  split
  · next ha =>
    have hk := kind_of_atAssignment ha
    have hnext : t.cursor.advance.current.kind = .assign := by
      simp only [atAssignment, Bool.and_eq_true, decide_eq_true_eq] at ha
      exact ha.2
    have hpiece : (Piece.spelled .identifier t.cursor.current.text).Matches t.cursor.current :=
      ⟨hk, rfl⟩
    refine (covers_passName strict ht hk hpiece (.inr (by rw [hnext]; simp))).andThen ?_
    rintro target u ⟨rfl, hcursor, hu⟩
    have htarget : Covers v strict t u (Expr.reference t.cursor.current).pieces := hu
    exact ih.assignment ht isPrivate htarget (by rw [hcursor, hnext])
  · next ha =>
    refine (ih.expression ht 0).andThen fun e u hu => ?_
    rw [Gives, leads_bind, leads_peek]
    split
    · next hk =>
      exact ih.assignment ht isPrivate hu (by simpa using (Bool.and_eq_true_iff.1 hk).1)
    · have hno : isPrivate = false := by
        cases isPrivate with
        | false => rfl
        | true => exact absurd (hp rfl) ha
      exact ⟨e.pieces, by simp [hno, Statement.pieces], hu⟩

theorem expression_succ (least : Nat) :
    Gives (Grammar.expression v strict (fuel + 1) least) t
      fun e u => Covers v strict t u e.pieces := by
  rw [Grammar.expression]
  refine (ih.operand ht).andThen fun left u hleft => ?_
  refine (ih.operations (hleft.wellFormed ht) least left).mono ?_
  rintro e w ⟨ps, he, hw⟩
  rw [he]
  exact hleft.append hw

theorem operations_succ (least : Nat) (left : Expr) :
    Gives (Grammar.operations v strict (fuel + 1) least left) t fun e u =>
      ∃ ps, e.pieces = left.pieces ++ ps ∧ Covers v strict t u ps := by
  have hnone : ∃ ps, left.pieces = left.pieces ++ ps ∧ Covers v strict t t ps :=
    ⟨[], by simp, .refl t⟩
  rw [Gives, Grammar.operations, leads_bind, leads_peek]
  split
  · exact hnone
  next p hp =>
  split_ifs
  · exact hnone
  refine (covers_passCommand strict ht hp).andThen fun op u hop => ?_
  refine (ih.expression (hop.wellFormed ht) _).andThen fun right w hright => ?_
  have hboth := hop.append hright
  refine (ih.operations (hboth.wellFormed ht) least _).mono ?_
  rintro e x ⟨ps, he, hps⟩
  refine ⟨_, ?_, hboth.append hps⟩
  rw [he, Expr.pieces]
  simp

theorem operand_succ :
    Gives (Grammar.operand v strict (fuel + 1)) t fun e u => Covers v strict t u e.pieces := by
  rw [Gives, Grammar.operand, leads_bind, leads_peek]
  split_ifs with hsign
  · have hk : t.cursor.current.kind = .operator := by
      simp only [Token.isSign, Token.isOperator, Bool.or_eq_true, Bool.and_eq_true,
        decide_eq_true_eq] at hsign
      tauto
    have hop : Covers v strict t { t with cursor := t.cursor.advance }
        [.ofToken t.cursor.current] := by
      rw [Piece.ofToken, hk]
      exact covers_literal ht hk (by simp)
    rw [leads_bind, leads_advance]
    exact (ih.operand (hop.wellFormed ht)).andThen fun right u hright => hop.cons hright
  split
  · next hk => exact ih.named ht hk
  · next hk => exact covers_literal ht hk (by simp)
  · next hk => exact covers_literal ht hk (by simp)
  · next hk => exact ih.array ht hk
  · next hk => exact ih.code ht hk
  · next hk => exact ih.paren ht hk
  · trivial

theorem named_succ (hk : t.cursor.current.kind = .identifier) :
    Gives (Grammar.named v strict (fuel + 1)) t fun e u => Covers v strict t u e.pieces := by
  rw [Gives, Grammar.named, leads_bind, leads_advance, leads_bind, leads_resolve]
  have hpiece : (Piece.spelled .identifier t.cursor.current.text).Matches t.cursor.current :=
    ⟨hk, rfl⟩
  have hbare : ∀ {p : Piece}, p.Matches t.cursor.current →
      v.classify t.cursor.current.name ≠ .expansion → Covers v strict t ⟨t.cursor.advance,
        (t.journal.resolve v t.cursor.current t.cursor.advance.current).2⟩ [p] := by
    intro p hp hne
    refine covers_bareName ht hk hp (.inl ?_)
    rw [← Bool.not_eq_true, v.expands_eq_true]
    exact fun h => hne h.2
  split
  · next o ho =>
    have hop := hbare (Piece.matches_ofToken _) (by rw [ho]; simp)
    rw [leads_bind, leads_peek]
    split_ifs
    · exact (ih.operand (hop.wellFormed ht)).andThen fun right u hright => hop.cons hright
    · exact hop
  · next hx => exact covers_expansion ht hk hx
  · next hm => exact hbare hpiece (by rw [hm]; simp)
  · next hm => exact hbare hpiece (by rw [hm]; simp)

theorem array_succ (hk : t.cursor.current.kind = .leftBracket) :
    Gives (Grammar.array v strict (fuel + 1)) t fun e u => Covers v strict t u e.pieces := by
  have hopen : Covers v strict t { t with cursor := t.cursor.advance }
      [.spelled .leftBracket "["] := covers_symbol ht hk rfl (by simp)
  rw [Gives, Grammar.array, leads_bind, leads_advance]
  exact (ih.elements (hopen.wellFormed ht)).andThen fun r u hr => hopen.cons hr

theorem elements_succ :
    Gives (Grammar.elements v strict (fuel + 1)) t fun r u =>
      Covers v strict t u (piecesOfExprs r.1 ++ [.spelled .rightBracket "]"]) := by
  have hclose : ∀ {u : ParseState}, WellFormed u.cursor.tokens →
      u.cursor.current.kind = .rightBracket → Covers v strict u
        { u with cursor := u.cursor.advance } [.spelled .rightBracket "]"] :=
    fun hu hk => covers_symbol hu hk rfl (by simp)
  rw [Gives, Grammar.elements, leads_bind, leads_peek]
  split
  · next hk => exact hclose ht hk
  · trivial
  refine (ih.expression ht 0).bind_attempt ((traced v strict fuel).expression .refl 0)
    (fun e u hu he => ?_) fun d u hu hb => ?_
  · have hwf := he.wellFormed ht
    rw [Gives, leads_bind, leads_peek]
    dsimp only
    split
    · next hk =>
      have hcomma := he.append (covers_separator hwf (by simp [Cursor.isSeparator, hk]))
      rw [leads_bind, leads_advance]
      refine (ih.elements (hcomma.wellFormed ht)).andThen fun r w hr => ?_
      simpa [Gives, piecesOfExprs] using hcomma.append hr
    · next hk =>
      rw [leads_bind, leads_advance]
      simpa [piecesOfExprs] using he.append (hclose hwf hk)
    · refine (ih.moreElements hwf (.inr ⟨_, rfl⟩)).andThen fun r w hw => ?_
      exact .of_faulty (hw.after he.steps) _
  · refine (ih.moreElements (ht.of_isSuffix hu.isSuffix_tokens) hb).mono fun r w hw => ?_
    exact .of_faulty (hw.after hu) _

theorem moreElements_succ {failure : Diagnostic} (hb : Blames failure t) :
    Gives (Grammar.moreElements v strict (fuel + 1) failure) t
      fun _ u => Faulty v strict t u := by
  rw [Grammar.moreElements]
  refine (faulty_recover v .rightBracket false hb).andThen fun stop u hu => ?_
  split_ifs
  · exact hu
  · exact (ih.elements (ht.of_isSuffix hu.steps.isSuffix_tokens)).mono fun _ _ hw =>
      hu.before hw.steps

theorem code_succ (hk : t.cursor.current.kind = .leftBrace) :
    Gives (Grammar.code v strict (fuel + 1)) t fun e u => Covers v strict t u e.pieces := by
  have hopen : Covers v strict t { t with cursor := t.cursor.advance }
      [.spelled .leftBrace "\x7b"] := covers_symbol ht hk rfl (by simp)
  rw [Gives, Grammar.code, leads_bind, leads_advance]
  refine (ih.statements (hopen.wellFormed ht) .rightBrace).andThen ?_
  rintro body u ⟨hbody, -⟩
  have hboth := hopen.append hbody
  rw [Gives, leads_bind, leads_expect]
  split_ifs with hclose
  exact hboth.append (covers_symbol (hboth.wellFormed ht) hclose rfl (by simp))

theorem paren_succ (hk : t.cursor.current.kind = .leftParen) :
    Gives (Grammar.paren v strict (fuel + 1)) t fun e u => Covers v strict t u e.pieces := by
  have hopen : Covers v strict t { t with cursor := t.cursor.advance }
      [.spelled .leftParen "("] := covers_symbol ht hk rfl (by simp)
  have hend : ∀ {outcome : Except Diagnostic Expr} {u : ParseState}, Steps v strict t u →
      (∀ d, outcome = .error d → Blames d u) →
      (∀ e, outcome = .ok e → Covers v strict t u (.spelled .leftParen "(" :: e.pieces)) →
      Gives (do
        let inner ← parenInner strict outcome
        let close ← closingParen
        return Expr.paren inner (t.cursor.current.span.through close)) u
        fun e w => Covers v strict t w e.pieces := by
    intro outcome u hu hb hok
    refine (gives_inner v hb).andThen ?_
    rintro inner w (hw | ⟨rfl, rfl, hclose⟩)
    · have hclosed : Traces v strict w closingParen w := traces_closingParen .refl
      refine hclosed.gives_bind fun close x hx => ?_
      exact .of_faulty ((hw.before hx).after hu) _
    · have hinner := hok inner rfl
      have hboth := hinner.append (covers_symbol (hinner.wellFormed ht) hclose rfl (by simp))
      rw [Gives, closingParen]
      simp only [leads_bind, leads_peek, hclose, if_true, leads_advance, leads_pure]
      exact hboth
  rw [Gives, Grammar.paren, leads_bind, leads_advance]
  refine (ih.expression (hopen.wellFormed ht) 0).bind_attempt
    ((traced v strict fuel).expression .refl 0) (fun e u hu he => ?_) fun d u hu hb => ?_
  · refine hend (hopen.steps.trans hu) (by simp) fun e' he' => ?_
    cases he'
    exact hopen.cons he
  · refine hend (hopen.steps.trans hu) (fun d' hd => ?_) (by simp)
    cases hd
    exact hb

end Covered

/-- Every rule covers what it gives, whatever its budget. -/
theorem covered (v : Vocabulary) (strict : Bool) : ∀ fuel, Covered v strict fuel
  | 0 =>
    { statements _ _ := trivial
      statement _ _ := trivial
      statementBody _ _ _ := trivial
      expression _ _ := trivial
      operations _ _ _ := trivial
      operand _ := trivial
      named _ _ := trivial
      array _ _ := trivial
      elements _ := trivial
      moreElements _ _ _ := trivial
      code _ _ := trivial
      paren _ _ := trivial }
  | fuel + 1 =>
    have ih := covered v strict fuel
    { statements ht := ih.statements_succ ht
      statement ht := ih.statement_succ ht
      statementBody ht _ := ih.statementBody_succ ht
      expression ht := ih.expression_succ ht
      operations ht := ih.operations_succ ht
      operand ht := ih.operand_succ ht
      named ht := ih.named_succ ht
      array ht := ih.array_succ ht
      elements ht := ih.elements_succ ht
      moreElements ht _ := ih.moreElements_succ ht
      code ht := ih.code_succ ht
      paren ht := ih.paren_succ ht }

/-! ## Enough budget -/

/-- A run that was going on is only left with a fault, and a repair is one. -/
theorem leads_recover_faulty {s : ParseState} {failure : Diagnostic} (boundary : TokenKind)
    (skip : Bool) (hs : Steps v strict s t) (ha : s.journal.aborted = false)
    (hb : Blames failure t) : Leads (recover strict failure boundary skip) t
      (fun _ u => Faulty v strict s u) (fun _ u => Faulty v strict s u) := by
  have hsteps : Traces v strict s (recover strict failure boundary skip) t :=
    traces_recover boundary skip hs hb
  have haborted : Leads (recover strict failure boundary skip) t (fun _ _ => True)
      (fun _ u => u.journal.aborted = true) := by
    rw [leads_recover]
    split
    · assumption
    split
    · rfl
    · trivial
  refine ((hsteps.and haborted).and (faulty_recover v boundary skip hb)).mono ?_ ?_
  · rintro _ u ⟨-, hu⟩
    exact hu.after hs
  · rintro _ u ⟨⟨⟨hu, -⟩, hend⟩, -⟩
    exact ⟨hu, hu.length_diagnostics_lt ha hend⟩

/-- Statements that are read without a fault pass a token each, so a budget of more than the
tokens ahead is enough for them. -/
theorem leads_statements (v : Vocabulary) (strict : Bool) (close : TokenKind) :
    ∀ (fuel : Nat) {t : ParseState}, WellFormed t.cursor.tokens → t.journal.aborted = false →
      t.cursor.rest.length < fuel → Leads (statements v strict fuel close) t
        (fun _ _ => True) (fun _ u => Faulty v strict t u)
  | 0, _, _, _, hlt => absurd hlt (Nat.not_lt_zero _)
  | fuel + 1, t, ht, ha, hlt => by
    have hdrop : Covers v strict t ⟨t.cursor.dropWhile Cursor.isSeparator, t.journal⟩ [] :=
      covers_seek ht
    have hlater : ∀ {u : ParseState}, Faulty v strict t u →
        Leads (statements v strict fuel close) u (fun _ _ => True)
          (fun _ w => Faulty v strict t w) := fun hu =>
      ((traced v strict fuel).statements .refl close).mono (fun _ _ _ => trivial)
        fun _ _ hw => hu.before hw.1
    rw [statements]
    simp only [leads_bind, leads_move, leads_peek]
    split
    · trivial
    have hst := (covered v strict fuel).statement (hdrop.wellFormed ht) close
    have htrace := (traced v strict fuel).statement hdrop.steps close
    rw [leads_bind, leads_attempt]
    refine (htrace.and hst).mono ?_ ?_
    · rintro st u ⟨hu, hst⟩
      rw [leads_bind]
      by_cases hfault : Faulty v strict t u
      · exact (hlater hfault).mono (fun _ _ _ => trivial) fun _ _ h => h
      have hcovers := hdrop.append hst
      obtain ⟨seg, hseg⟩ := hcovers.passes.resolve_left fun hlt => hfault ⟨hu, hlt⟩
      have hrest := hseg.length_rest_lt hu.isSuffix_tokens st.pieces_ne_nil
      have hrun : u.journal.aborted = false := by
        by_contra hend
        exact hfault ⟨hu, hu.length_diagnostics_lt ha (by simpa using hend)⟩
      refine (leads_statements v strict close fuel (hcovers.wellFormed ht) hrun (by omega)).mono
        (fun _ _ _ => trivial) fun _ _ hw => hw.after hu
    · rintro d u ⟨⟨hu, hb⟩, -⟩
      rw [leads_bind]
      refine (leads_recover_faulty .semicolon true hu ha hb).mono (fun stop w hw => ?_)
        fun _ _ h => h
      split
      · trivial
      · exact hlater hw

end Grammar

/-! ## Scripts -/

section

variable {v : Vocabulary} {strict : Bool} {source : String}

/-- Tokens in which nothing is wrong make a script, which says all tokens up to the end. -/
theorem exists_passes_of_read
    (h : (Script.read v strict (Token.scan source) {}).2.diagnostics = []) :
    ∃ script u seg, Script.read v strict (Token.scan source) {} = (.ok script, u.journal) ∧
      Parse.Passes v ⟨.ofTokens (Token.scan source), {}⟩ u seg script.pieces ∧
      v.outside none (Token.scan source) = seg ++ [(u.cursor.current, none)] ∧
      u.cursor.current.kind = .endOfInput := by
  have hwf : WellFormed (Cursor.ofTokens (Token.scan source)).tokens := by
    rw [Cursor.tokens_ofTokens_scan]
    exact wellFormed_scan source
  have hfault : ∀ {u : ParseState}, u.journal.diagnostics = [] →
      ¬Parse.Faulty v strict ⟨.ofTokens (Token.scan source), {}⟩ u := by
    intro u hu hlt
    have := hlt.lt
    simp [hu] at this
  rw [Script.read_eq] at h ⊢
  split at h
  · next ss u hss =>
    obtain ⟨hcovers, hend⟩ :=
      ((Grammar.covered v strict (Script.budget _)).statements hwf .endOfInput).of_ok hss
    obtain ⟨seg, hseg⟩ := hcovers.passes.resolve_left fun hlt => hfault h ⟨hcovers.steps, hlt⟩
    have hkind : u.cursor.current.kind = .endOfInput := by
      simpa [Grammar.closes] using hend.resolve_left (hfault h)
    refine ⟨⟨ss, _⟩, u, seg, rfl, hseg, ?_, hkind⟩
    have hlast : u.cursor.tokens = [u.cursor.current] := by
      rw [Cursor.tokens, ((hcovers.wellFormed hwf).ends (List.suffix_refl _)).1 hkind]
    have hout := hseg.outside_eq
    rw [Cursor.tokens_ofTokens_scan, hlast] at hout
    exact hout
  · next d u hd =>
    have hlt : (Cursor.ofTokens (Token.scan source)).rest.length <
        Script.budget (Token.scan source) := by
      unfold Script.budget
      omega
    have hlead : Parse.Leads _ ⟨.ofTokens (Token.scan source), {}⟩ _ _ :=
      Grammar.leads_statements v strict .endOfInput (Script.budget (Token.scan source)) hwf rfl hlt
    exact absurd (hlead.of_error hd) (hfault h)

/-- Reading tokens in which nothing is wrong writes down the uses of variables outside the
argument lists of macros, in order. -/
theorem entries_of_read (h : (Script.read v strict (Token.scan source) {}).2.diagnostics = []) :
    (Script.read v strict (Token.scan source) {}).2.entries.toList =
      (v.outside none (Token.scan source)).filterMap v.noting := by
  obtain ⟨script, u, seg, hread, hseg, hout, hkind⟩ := exists_passes_of_read h
  rw [hread, hseg.entries_eq, hout]
  simp [Vocabulary.noting, hkind]

end

/-- Reading loses no token, doubles none and keeps their order. When nothing is wrong in the order
of the tokens of a text, there is a script, which read from left to right says, by kind and text,
just the tokens outside the argument lists of macros, without separators and the end. No invalid
token is among them. -/
theorem pieces_of_read (v : Vocabulary) (strict : Bool) (source : String)
    (h : ∀ d ∈ (Script.read v strict (Token.scan source) {}).2.diagnostics,
      d.kind ≠ .syntaxError) :
    ∃ script, (Script.read v strict (Token.scan source) {}).1 = .ok script ∧
      List.Forall₂ Piece.Matches script.pieces (v.kept (Token.scan source)) ∧
      ∀ p ∈ v.outside none (Token.scan source), p.1.kind ≠ .invalid := by
  have hnone : (Script.read v strict (Token.scan source) {}).2.diagnostics = [] :=
    List.eq_nil_iff_forall_not_mem.2 fun d hd => h d hd (Script.mem_diagnostics_read hd).1
  obtain ⟨script, u, seg, hread, hseg, hout, hkind⟩ := exists_passes_of_read hnone
  refine ⟨script, by rw [hread], ?_, ?_⟩
  · have hkept : v.kept (Token.scan source) = (seg.map Prod.fst).filter Token.isKept := by
      simp [Vocabulary.kept, hout, Token.isKept, hkind]
    rw [hkept]
    exact hseg.pieces
  · intro p hp
    rw [hout, List.mem_append, List.mem_singleton] at hp
    rcases hp with hp | rfl
    · exact hseg.valid p hp
    · simp [hkind]

/-- A private assignment with capitals, an array with a comma at its end, and a macro with
arguments that is assigned to. -/
theorem pieces_of_read_assignments :
    let v : Vocabulary := ⟨{}, { macros := [⟨"FOO", none, []⟩] }⟩
    let source := "Private _a = [1, -2,]; foo(_b; (c)) = (_a);"
    (∀ d ∈ (Script.read v false (Token.scan source) {}).2.diagnostics, d.kind ≠ .syntaxError) ∧
      ∃ script, (Script.read v false (Token.scan source) {}).1 = .ok script ∧
        List.Forall₂ Piece.Matches script.pieces (v.kept (Token.scan source)) ∧
        ∀ p ∈ v.outside none (Token.scan source), p.1.kind ≠ .invalid := by
  intro v source
  have h : ∀ d ∈ (Script.read v false (Token.scan source) {}).2.diagnostics,
      d.kind ≠ .syntaxError := by
    decide +kernel
  exact ⟨h, pieces_of_read v false source h⟩

end SqfCheck
