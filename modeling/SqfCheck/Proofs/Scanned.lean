import Mathlib.Tactic.SplitIfs
import SqfCheck.Cursor
import SqfCheck.Token.Scan

/-!
# Tokens of a text

What holds of the tokens of every text. A token of a kind that has one spelling is spelled so
(`text_of_mem_scan`), operators have no capitals (`name_of_mem_scan`), the end is the last
token and the only one of its kind (`scan_eq_append_ending`), and every token begins after the
one before it, so that no two have the same span (`nodup_span_scan`).
-/

namespace SqfCheck

/-- The spelling of the kinds of token that have only one. -/
def TokenKind.spelling? : TokenKind → Option String
  | assign => some "="
  | semicolon => some ";"
  | comma => some ","
  | leftBracket => some "["
  | rightBracket => some "]"
  | leftBrace => some "\x7b"
  | rightBrace => some "\x7d"
  | leftParen => some "("
  | rightParen => some ")"
  | endOfInput => some ""
  | _ => none

/-! ## Spelling -/

namespace Lexeme

/-- A lexeme that is a token of some kind is spelled as the kind wants it, and is no end. -/
structure WellSpelled (l : Lexeme) : Prop where
  spelling : ∀ kind w, l.cls = .token kind → kind.spelling? = some w → String.ofList l.text = w
  operator : l.cls = .token .operator → l.text.map Char.toLower = l.text
  isToken : l.cls ≠ .token .endOfInput

theorem WellSpelled.of_class {l : Lexeme} {cls : LexemeClass} (hcls : l.cls = cls)
    (h : cls = .blank ∨ cls = .comment ∨ cls = .token .invalid ∨ cls = .token .string ∨
      cls = .token .number ∨ cls = .token .identifier) : l.WellSpelled := by
  subst hcls
  constructor
  · intro kind w hk hw
    rcases h with h | h | h | h | h | h <;> rw [h] at hk <;> cases hk <;> cases hw
  · intro hk
    rcases h with h | h | h | h | h | h <;> rw [h] at hk <;> cases hk
  · intro hk
    rcases h with h | h | h | h | h | h <;> rw [h] at hk <;> cases hk

/-- The characters that are tokens of a kind of their own. -/
def punctuation : List Char :=
  ['=', ';', ',', '[', ']', '\x7b', '\x7d', '(', ')']

theorem symbolKind_of_not_mem {c : Char} (h : c ∉ punctuation) :
    symbolKind c = if c ∈ operators then .operator else .invalid := by
  simp only [punctuation, List.mem_cons, List.not_mem_nil, or_false, not_or] at h
  obtain ⟨h₁, h₂, h₃, h₄, h₅, h₆, h₇, h₈, h₉⟩ := h
  rw [symbolKind, if_neg h₁, if_neg h₂, if_neg h₃, if_neg h₄, if_neg h₅, if_neg h₆, if_neg h₇,
    if_neg h₈, if_neg h₉]

/-- A single character makes a token that is spelled with it, and no end. -/
theorem spelling?_symbolKind (c : Char) : symbolKind c ≠ .endOfInput ∧
    (symbolKind c = .operator → c ∈ operators) ∧
    ((symbolKind c).spelling? = none ∨ (symbolKind c).spelling? = some (String.ofList [c])) := by
  by_cases h : c ∈ punctuation
  · have hall : punctuation.all (fun c => symbolKind c ≠ .endOfInput ∧ symbolKind c ≠ .operator ∧
        (symbolKind c).spelling? = some (String.ofList [c])) = true := by decide
    obtain ⟨hend, hop, hsp⟩ := of_decide_eq_true (List.all_eq_true.1 hall c h)
    exact ⟨hend, fun hk => absurd hk hop, .inr hsp⟩
  · rw [symbolKind_of_not_mem h]
    by_cases hop : c ∈ operators
    · rw [if_pos hop]
      exact ⟨by decide, fun _ => hop, .inl rfl⟩
    · rw [if_neg hop]
      exact ⟨by decide, nofun, .inl rfl⟩

theorem wellSpelled_symbol (c : Char) : WellSpelled ⟨.token (symbolKind c), [c]⟩ := by
  have hop : operators.all (fun c => c.toLower = c) = true := by decide
  constructor
  · intro kind w hk hw
    obtain rfl := LexemeClass.token.inj hk
    rcases (spelling?_symbolKind c).2.2 with h | h
    · rw [h] at hw
      cases hw
    · rw [h] at hw
      exact Option.some.inj hw
  · intro hk
    have hmem := (spelling?_symbolKind c).2.1 (LexemeClass.token.inj hk)
    exact congrArg (fun d => [d]) (of_decide_eq_true (List.all_eq_true.1 hop c hmem))
  · intro hk
    exact (spelling?_symbolKind c).1 (LexemeClass.token.inj hk)

theorem wellSpelled_pair {c d : Char} (h : (c, d) ∈ pairs) :
    WellSpelled ⟨.token .operator, [c, d]⟩ := by
  have hpair : pairs.all (fun p => p.1.toLower = p.1 ∧ p.2.toLower = p.2) = true := by decide
  constructor
  · intro kind w hk hw
    obtain rfl := LexemeClass.token.inj hk
    cases hw
  · intro _
    simpa using of_decide_eq_true (List.all_eq_true.1 hpair (c, d) h)
  · intro hk
    cases hk

theorem wellSpelled_first (c : Char) (cs : List Char) : (first c cs).WellSpelled := by
  unfold first
  split
  · exact .of_class rfl (by simp)
  split
  · exact .of_class rfl (by simp)
  split
  · split <;> exact .of_class rfl (by simp)
  split
  · split <;> exact .of_class rfl (by simp)
  split
  · exact .of_class rfl (by simp)
  split
  · exact .of_class rfl (by simp)
  split
  · split
    · next h => exact wellSpelled_pair h
    · exact wellSpelled_symbol c
  · exact wellSpelled_symbol c

theorem wellSpelled_of_mem_all (cs : List Char) : ∀ l ∈ all cs, l.WellSpelled := by
  fun_induction all cs with
  | case1 => simp
  | case2 c cs ih =>
    intro l hl
    rcases List.mem_cons.1 hl with rfl | hl
    · exact wellSpelled_first c cs
    · exact ih l hl

theorem text_ne_nil_of_mem_all (cs : List Char) : ∀ l ∈ all cs, l.text ≠ [] := by
  fun_induction all cs with
  | case1 => simp
  | case2 c cs ih =>
    intro l hl
    rcases List.mem_cons.1 hl with rfl | hl
    · exact first_text_ne_nil c cs
    · exact ih l hl

end Lexeme

namespace Token

/-- The token is the text of one of the lexemes, and stands where this text stands if the first
of them stands at `p`. -/
def CutFrom (t : Token) (p : Position) (ls : List Lexeme) : Prop :=
  ∃ before l after, ls = before ++ l :: after ∧ l.cls = .token t.kind ∧
    t.text = String.ofList l.text ∧ t.span = .ofText (p.after (before.flatMap Lexeme.text)) l.text

theorem CutFrom.cons {t : Token} {p : Position} {l : Lexeme} {ls : List Lexeme}
    (h : t.CutFrom (p.after l.text) ls) : t.CutFrom p (l :: ls) := by
  obtain ⟨before, m, after, rfl, hcls, htext, hspan⟩ := h
  refine ⟨l :: before, m, after, rfl, hcls, htext, ?_⟩
  rw [hspan, List.flatMap_cons, Position.after_append]

/-- Every token that lexemes make is the text of one of them, or the end. -/
theorem mem_place {t : Token} : ∀ {ls : List Lexeme} {p : Position} {pending : Option Comment},
    t ∈ place p pending ls →
      t.CutFrom p ls ∨ t.kind = .endOfInput ∧ t.text = "" ∧ ∃ q, t.span = .point q
  | [], p, pending, h => by
    obtain rfl := List.mem_singleton.1 h
    exact .inr ⟨rfl, rfl, p, rfl⟩
  | l :: ls, p, pending, h => by
    unfold place at h
    split at h
    · exact (mem_place h).imp_left CutFrom.cons
    · exact (mem_place h).imp_left CutFrom.cons
    · next kind hk =>
      rcases List.mem_cons.1 h with rfl | h
      · exact .inl ⟨[], l, ls, rfl, hk, rfl, rfl⟩
      · exact (mem_place h).imp_left CutFrom.cons

/-- Every token of a text but the end is the text of one of its lexemes. -/
theorem exists_lexeme_of_mem_scan {source : String} {t : Token} (ht : t ∈ scan source) :
    (∃ l ∈ Lexeme.all source.toList, l.cls = .token t.kind ∧ t.text = String.ofList l.text) ∨
      t.kind = .endOfInput ∧ t.text = "" := by
  rcases mem_place ht with ⟨before, l, after, hall, hcls, htext, -⟩ | ⟨hk, htext, -⟩
  · exact .inl ⟨l, by simp [hall], hcls, htext⟩
  · exact .inr ⟨hk, htext⟩

/-- A token of a kind that has one spelling is spelled so. -/
theorem text_of_mem_scan {source : String} {t : Token} (ht : t ∈ scan source) {w : String}
    (hw : t.kind.spelling? = some w) : t.text = w := by
  rcases exists_lexeme_of_mem_scan ht with ⟨l, hl, hcls, htext⟩ | ⟨hk, htext⟩
  · rw [htext]
    exact (Lexeme.wellSpelled_of_mem_all _ l hl).spelling t.kind w hcls hw
  · rw [hk] at hw
    rw [htext]
    exact Option.some.inj hw

/-- An operator is its own folded name. -/
theorem name_of_mem_scan {source : String} {t : Token} (ht : t ∈ scan source)
    (hk : t.kind = .operator) : t.name = t.text := by
  rcases exists_lexeme_of_mem_scan ht with ⟨l, hl, hcls, htext⟩ | ⟨hend, -⟩
  · rw [hk] at hcls
    rw [name, htext, foldCase, String.toList_ofList,
      (Lexeme.wellSpelled_of_mem_all _ l hl).operator hcls]
  · rw [hk] at hend
    cases hend

/-! ## The end -/

theorem place_eq_append_ending :
    ∀ {ls : List Lexeme} {p : Position} {pending : Option Comment}, (∀ l ∈ ls, l.WellSpelled) →
      ∃ (body : List Token) (e : Token), place p pending ls = body ++ [e] ∧
        e.kind = .endOfInput ∧ ∀ t ∈ body, t.kind ≠ .endOfInput
  | [], p, pending, _ => ⟨[], ending (.point p) pending, rfl, rfl, by simp⟩
  | l :: ls, p, pending, h => by
    have hls := fun m hm => h m (List.mem_cons_of_mem l hm)
    unfold place
    split
    · exact place_eq_append_ending hls
    · exact place_eq_append_ending hls
    · next kind hk =>
      obtain ⟨body, e, hbody, he, hne⟩ := place_eq_append_ending hls
      refine ⟨_ :: body, e, by rw [hbody]; rfl, he, ?_⟩
      intro t ht
      rcases List.mem_cons.1 ht with rfl | ht
      · rintro rfl
        exact (h l List.mem_cons_self).isToken hk
      · exact hne t ht

/-- The tokens of a text end in the one token for its end. -/
theorem scan_eq_append_ending (source : String) : ∃ (body : List Token) (e : Token),
    scan source = body ++ [e] ∧ e.kind = .endOfInput ∧ ∀ t ∈ body, t.kind ≠ .endOfInput :=
  place_eq_append_ending (Lexeme.wellSpelled_of_mem_all _)

end Token

namespace Cursor

/-- Nothing is added to tokens that end in the end. -/
theorem completed_of_ending {e : Token} (he : e.kind = .endOfInput) :
    ∀ (last : Token) (ts : List Token), completed last (ts ++ [e]) = ts ++ [e]
  | last, [] => by simp [completed, he]
  | last, t :: ts => by
    rw [List.cons_append, completed, completed_of_ending he t ts]

theorem tokens_ofTokens {body : List Token} {e : Token} (he : e.kind = .endOfInput) :
    (ofTokens (body ++ [e])).tokens = body ++ [e] := by
  cases body with
  | nil => simp [ofTokens, tokens, completed, he]
  | cons t ts => rw [List.cons_append, ofTokens, tokens, completed_of_ending he]

/-- A script is read from just the tokens of its text. -/
theorem tokens_ofTokens_scan (source : String) :
    (ofTokens (Token.scan source)).tokens = Token.scan source := by
  obtain ⟨body, e, hscan, he, -⟩ := Token.scan_eq_append_ending source
  rw [hscan, tokens_ofTokens he]

end Cursor

/-! ## Positions -/

namespace Position

/-- Whether `p` stands before `q` in a text. -/
def Before (p q : Position) : Prop :=
  p.line < q.line ∨ p.line = q.line ∧ p.column < q.column

theorem Before.trans {p q r : Position} (h : p.Before q) (h' : q.Before r) : p.Before r := by
  unfold Before at *
  omega

theorem Before.irrefl (p : Position) : ¬p.Before p := by
  unfold Before
  omega

theorem before_step (p : Position) (c : Char) : p.Before (p.step c) := by
  unfold step Before
  split_ifs <;> simp

/-- A text that is not empty ends after its beginning. -/
theorem before_after : ∀ {cs : List Char} (p : Position), cs ≠ [] → p.Before (p.after cs)
  | [], _, h => absurd rfl h
  | [c], p, _ => before_step p c
  | c :: d :: cs, p, _ =>
    (before_step p c).trans (before_after (p.step c) (List.cons_ne_nil d cs))

end Position

namespace Token

/-- The tokens from `p` on begin at `p` or later, each before the next. -/
theorem place_pairwise : ∀ {ls : List Lexeme} {p : Position} {pending : Option Comment},
    (∀ l ∈ ls, l.text ≠ []) →
      (∀ t ∈ place p pending ls, t.span.first = p ∨ p.Before t.span.first) ∧
        (place p pending ls).Pairwise fun t u => t.span.first.Before u.span.first
  | [], p, pending, _ => by simp [place, ending, Span.point]
  | l :: ls, p, pending, h => by
    have hls := fun m hm => h m (List.mem_cons_of_mem l hm)
    have hafter : ∀ {c : Option Comment}, ∀ t ∈ place (p.after l.text) c ls,
        p.Before t.span.first := by
      intro c t ht
      have hp := Position.before_after p (h l List.mem_cons_self)
      rcases (place_pairwise hls).1 t ht with heq | hlt
      · rwa [heq]
      · exact hp.trans hlt
    unfold place
    split
    · exact ⟨fun t ht => .inr (hafter t ht), (place_pairwise hls).2⟩
    · exact ⟨fun t ht => .inr (hafter t ht), (place_pairwise hls).2⟩
    · refine ⟨fun t ht => ?_, List.pairwise_cons.2 ⟨fun t ht => hafter t ht,
        (place_pairwise hls).2⟩⟩
      rcases List.mem_cons.1 ht with rfl | ht
      · exact .inl rfl
      · exact .inr (hafter t ht)

/-- Every token of a text begins before the next one. -/
theorem scan_pairwise (source : String) :
    (scan source).Pairwise fun t u => t.span.first.Before u.span.first :=
  (place_pairwise (Lexeme.text_ne_nil_of_mem_all _)).2

/-- No two tokens of a text have the same span. -/
theorem nodup_span_scan (source : String) : ((scan source).map Token.span).Nodup := by
  rw [List.nodup_iff_pairwise_ne, List.pairwise_map]
  refine (scan_pairwise source).imp fun {t u} h heq => ?_
  rw [heq] at h
  exact Position.Before.irrefl _ h

end Token

end SqfCheck
