import SqfCheck.Expr
import SqfCheck.Proofs.Scanned
import SqfCheck.Vocabulary

/-!
# Trees and tokens side by side

A tree that is read from left to right says which tokens it was made of (`Script.pieces`) : what
stands in its nodes, the brackets, braces and parentheses around it, and the signs of assignment.
Of the word that makes an assignment private a tree only knows that it was there.

On the other side are the tokens of the script that a tree can know of (`Vocabulary.kept`). The
argument list of a macro is passed over (`Vocabulary.outside`), and separators and the end only
say where something ends. `outside_of_skipArguments` ties the cursor that skips an argument list
to the list that leaves it out.
-/

namespace SqfCheck

/-! ## What trees say -/

/-- What a tree says of one token. -/
inductive Piece where
  /-- It has this kind and this text. -/
  | spelled (kind : TokenKind) (text : String)
  /-- It is this word, case folded. -/
  | word (name : String)
  /-- The tree has a fault here. -/
  | fault
deriving DecidableEq, Repr

namespace Piece

/-- Whether the token is what the tree says. At a fault no token is. -/
def Matches : Piece → Token → Prop
  | spelled kind text, t => t.kind = kind ∧ t.text = text
  | word name, t => t.kind = .identifier ∧ t.name = name
  | fault, _ => False

instance : ∀ p t, Decidable (Matches p t)
  | spelled kind text, t => inferInstanceAs (Decidable (t.kind = kind ∧ t.text = text))
  | word name, t => inferInstanceAs (Decidable (t.kind = .identifier ∧ t.name = name))
  | fault, _ => inferInstanceAs (Decidable False)

/-- The piece that says all of a token. -/
def ofToken (t : Token) : Piece :=
  spelled t.kind t.text

theorem matches_ofToken (t : Token) : (ofToken t).Matches t :=
  ⟨rfl, rfl⟩

end Piece

mutual

/-- The tokens of an expression, from left to right. -/
def Expr.pieces : Expr → List Piece
  | .number t => [.spelled .number t.text]
  | .string t => [.spelled .string t.text]
  | .reference t => [.spelled .identifier t.text]
  | .expansion name _ => [.spelled .identifier name.text]
  | .array elements _ =>
    .spelled .leftBracket "[" :: (piecesOfExprs elements ++ [.spelled .rightBracket "]"])
  | .code body _ =>
    .spelled .leftBrace "\x7b" :: (piecesOfStatements body ++ [.spelled .rightBrace "\x7d"])
  | .paren inner _ => .spelled .leftParen "(" :: (inner.pieces ++ [.spelled .rightParen ")"])
  | .nullary op => [.ofToken op]
  | .unary op right => .ofToken op :: right.pieces
  | .binary left op right => left.pieces ++ .ofToken op :: right.pieces
  | .dangling left op => left.pieces ++ [.ofToken op]
  | .invalid _ => [.fault]

/-- The tokens of expressions, one after the other. -/
def piecesOfExprs : List Expr → List Piece
  | [] => []
  | e :: es => e.pieces ++ piecesOfExprs es

/-- The tokens of a statement. -/
def Statement.pieces : Statement → List Piece
  | .assignment isPrivate target value =>
    (if isPrivate then [.word "private"] else []) ++ target.pieces ++
      .spelled .assign "=" :: value.pieces
  | .expression value => value.pieces

/-- The tokens of statements, one after the other. -/
def piecesOfStatements : List Statement → List Piece
  | [] => []
  | s :: ss => s.pieces ++ piecesOfStatements ss

end

/-- The tokens of a script. -/
def Script.pieces (script : Script) : List Piece :=
  piecesOfStatements script.statements

theorem Expr.pieces_ne_nil (e : Expr) : e.pieces ≠ [] := by
  cases e <;> simp [pieces]

theorem Statement.pieces_ne_nil (s : Statement) : s.pieces ≠ [] := by
  cases s with
  | assignment isPrivate target value => simp [pieces]
  | expression value => simpa [pieces] using value.pieces_ne_nil

/-! ## What tokens there are -/

namespace Token

/-- The parentheses of an argument list that are open after the token, where `depth` are open
before it. There are none when the list is closed. -/
def depthAfter (t : Token) (depth : Nat) : Option Nat :=
  match t.kind with
  | .leftParen => some (depth + 1)
  | .rightParen =>
    match depth with
    | d + 2 => some (d + 1)
    | _ => none
  | _ => some depth

/-- Whether a tree can know of the token : it is no separator and not the end. -/
def isKept (t : Token) : Bool :=
  !Cursor.isSeparator t && t.kind ≠ .endOfInput

end Token

namespace Vocabulary

variable (v : Vocabulary)

/-- Whether the token is the name of a macro, and not of a command. -/
def expands (t : Token) : Bool :=
  t.kind = .identifier && !v.catalogue.isCommand t.name && v.ledger.contains t.name

/-- The tokens outside the argument lists of macros, each with the token directly after it. An
argument list starts at a parenthesis directly after the name of a macro. If `depth` is given,
the tokens start in one with that many parentheses open. -/
def outside : Option Nat → List Token → List (Token × Option Token)
  | _, [] => []
  | none, t :: ts =>
    (t, ts.head?) ::
      outside (if v.expands t && ts.head?.any (·.kind = .leftParen) then some 0 else none) ts
  | some depth, t :: ts => outside (t.depthAfter depth) ts

/-- The tokens that a tree can know of. -/
def kept (tokens : List Token) : List Token :=
  ((v.outside none tokens).map Prod.fst).filter Token.isKept

theorem classify_eq_expansion {name : String} : v.classify name = .expansion ↔
    v.catalogue.command? name = none ∧ v.ledger.contains name = true := by
  unfold classify
  cases v.catalogue.command? name with
  | some o => simp
  | none =>
    by_cases hl : v.ledger.contains name = true
    · simp [hl]
    · by_cases hm : name ∈ magicNames <;> simp [hl, hm]

theorem classify_eq_plain {name : String} : v.classify name = .plain ↔
    v.catalogue.command? name = none ∧ v.ledger.contains name = false ∧ name ∉ magicNames := by
  unfold classify
  cases v.catalogue.command? name with
  | some o => simp
  | none =>
    by_cases hl : v.ledger.contains name = true
    · simp [hl]
    · by_cases hm : name ∈ magicNames <;> simp [hl, hm]

theorem expands_eq_true {t : Token} :
    v.expands t = true ↔ t.kind = .identifier ∧ v.classify t.name = .expansion := by
  simp [expands, Catalogue.isCommand, classify_eq_expansion, and_assoc]

/-- A token that starts no argument list is followed by what is outside the lists after it. -/
theorem outside_cons {t u : Token} (ts : List Token)
    (h : v.expands t = false ∨ u.kind ≠ .leftParen) :
    v.outside none (t :: u :: ts) = (t, some u) :: v.outside none (u :: ts) := by
  rw [outside]
  rcases h with h | h <;> simp [h]

/-- The name of a macro is followed by its argument list, if there is one. -/
theorem outside_cons_arguments {t u : Token} (ts : List Token) (ht : v.expands t = true)
    (hu : u.kind = .leftParen) :
    v.outside none (t :: u :: ts) = (t, some u) :: v.outside (some 0) (u :: ts) := by
  rw [outside]
  simp [ht, hu]

/-- What is outside the argument lists is some of the tokens, in their order. -/
theorem sublist_outside : ∀ (depth : Option Nat) (ts : List Token),
    ((v.outside depth ts).map Prod.fst).Sublist ts
  | _, [] => by simp [outside]
  | none, t :: ts => by
    rw [outside, List.map_cons]
    exact (sublist_outside _ ts).cons_cons t
  | some depth, t :: ts => by
    rw [outside]
    exact (sublist_outside _ ts).cons t

/-- Skipping an argument list leads to what is outside of it. -/
theorem outside_of_skipArguments {c : Cursor} {span : Span} :
    ∀ {depth : Nat} {t : Token} {ts : List Token},
      Cursor.skipArguments depth t ts = (c, some span) →
        v.outside (some depth) (t :: ts) = v.outside none c.tokens
  | _, _, [], h => by simp [Cursor.skipArguments] at h
  | depth, t, u :: us, h => by
    have hnext : ∀ {next : Option Nat}, t.depthAfter depth = next →
        v.outside next (u :: us) = v.outside none c.tokens →
        v.outside (some depth) (t :: u :: us) = v.outside none c.tokens := by
      rintro _ rfl hrest
      rw [outside, hrest]
    unfold Cursor.skipArguments at h
    split at h
    · next hk =>
      exact hnext (by unfold Token.depthAfter; rw [hk]) (outside_of_skipArguments h)
    · next hk =>
      split at h
      · exact hnext (by unfold Token.depthAfter; rw [hk]) (outside_of_skipArguments h)
      · next hdepth =>
        obtain ⟨rfl, -⟩ := Prod.mk.inj h
        refine hnext ?_ rfl
        simp only [Token.depthAfter, hk]
    · simp at h
    · next hl hr _ =>
      refine hnext ?_ (outside_of_skipArguments h)
      unfold Token.depthAfter
      split <;> simp_all

end Vocabulary

/-! ## Tokens of a text -/

/-- What holds of the tokens of a text and of those from some place in it on : a token of a kind
that has one spelling is spelled so, and the end is the last. -/
structure WellFormed (tokens : List Token) : Prop where
  text_eq : ∀ t ∈ tokens, ∀ w, t.kind.spelling? = some w → t.text = w
  ends : ∀ {t : Token} {ts : List Token}, t :: ts <:+ tokens → (t.kind = .endOfInput ↔ ts = [])

theorem WellFormed.of_isSuffix {tokens later : List Token} (h : WellFormed tokens)
    (hs : later <:+ tokens) : WellFormed later where
  text_eq t ht := h.text_eq t (hs.subset ht)
  ends ht := h.ends (ht.trans hs)

theorem wellFormed_scan (source : String) : WellFormed (Token.scan source) where
  text_eq _ ht _ hw := Token.text_of_mem_scan ht hw
  ends := by
    intro t ts hsuffix
    obtain ⟨body, e, hscan, he, hbody⟩ := Token.scan_eq_append_ending source
    rw [hscan] at hsuffix
    obtain ⟨front, hfront⟩ := hsuffix
    rcases List.eq_nil_or_concat ts with rfl | ⟨middle, last, rfl⟩
    · obtain ⟨-, hlast⟩ := List.append_inj' hfront rfl
      obtain rfl : t = e := by simpa using hlast
      simp [he]
    · have hfront' : (front ++ t :: middle) ++ [last] = body ++ [e] := by
        simpa using hfront
      obtain ⟨hinit, -⟩ := List.append_inj' hfront' rfl
      have ht : t.kind ≠ .endOfInput := hbody t (by rw [← hinit]; simp)
      simp [ht]

end SqfCheck
