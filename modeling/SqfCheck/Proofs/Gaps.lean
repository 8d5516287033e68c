import Mathlib.Data.List.TakeWhile
import SqfCheck.Proofs.Scanned

/-!
# What stands between tokens

No character of a text is lost when it is cut into tokens. The text is the texts of its tokens with
a gap before each of them and one before the end, and a gap is blanks and complete comments
(`IsGap`). A token has the first comment of the gap before it (`Token.covers_scan`).

A comment is complete or not by what follows it : one that starts with two slashes has to reach the
end of its line, and one that starts with a slash and a star ends at the first mark that can end it
(`IsComment`). A lexeme is a comment just if a complete comment begins there
(`Lexeme.first_cases`, `Lexeme.cls_first_of_isComment`). The lexemes of a text are then taken
gap by gap (`Token.exists_gap`).
-/

namespace SqfCheck

open Text

/-! ## Comments and gaps -/

/-- The text holds no mark that ends a comment, not even if the mark itself follows it. -/
def LacksEnd (body : List Char) : Prop :=
  ¬['*', '/'] <:+: body ++ ['*']

/-- The text is a complete comment where `rest` follows it : two slashes and all up to the end of
the line, or a slash and a star and all up to the first star with a slash after it. -/
inductive IsComment (rest : List Char) : List Char → Prop where
  | line {body : List Char} (hbody : '\n' ∉ body) (hrest : ∀ c ∈ rest.head?, c = '\n') :
    IsComment rest ('/' :: '/' :: body)
  | block {body : List Char} (hbody : LacksEnd body) :
    IsComment rest ('/' :: '*' :: (body ++ ['*', '/']))

/-- The text is made of blanks and complete comments where `rest` follows it, and these are the
comments in it, in order. -/
inductive IsGap (rest : List Char) : List Char → List (List Char) → Prop where
  | nil : IsGap rest [] []
  | blank {c : Char} {gap : List Char} {comments : List (List Char)} (hc : isBlank c = true)
    (hgap : IsGap rest gap comments) : IsGap rest (c :: gap) comments
  | comment {text gap : List Char} {comments : List (List Char)}
    (htext : IsComment (gap ++ rest) text) (hgap : IsGap rest gap comments) :
    IsGap rest (text ++ gap) (text :: comments)

/-- Whether a gap goes on at the beginning of the text, with a blank or with a complete comment. -/
def GapGoesOn (cs : List Char) : Prop :=
  (∃ c ∈ cs.head?, isBlank c = true) ∨ ∃ text rest, cs = text ++ rest ∧ IsComment rest text

namespace Token

/-- The token has the first of the comments, or none if there is none. -/
def HasFirst (t : Token) (comments : List (List Char)) : Prop :=
  t.comment.map (·.text.toList) = comments.head?

/-- The text is the texts of the tokens with a gap before each of them. The last token is the end
and has no text, all others have some and are no ends, and none of them begins before its gap is
over. Every token has the first comment of its gap. -/
inductive Covers : List Char → List Token → Prop where
  | ending {gap : List Char} {comments : List (List Char)} {e : Token}
    (hgap : IsGap [] gap comments) (hkind : e.kind = .endOfInput) (htext : e.text = "")
    (hcomment : e.HasFirst comments) : Covers gap [e]
  | token {gap rest : List Char} {comments : List (List Char)} {t : Token} {ts : List Token}
    (hgap : IsGap (t.text.toList ++ rest) gap comments) (hkind : t.kind ≠ .endOfInput)
    (htext : t.text ≠ "") (hover : ¬GapGoesOn (t.text.toList ++ rest))
    (hcomment : t.HasFirst comments) (hrest : Covers rest ts) :
    Covers (gap ++ t.text.toList ++ rest) (t :: ts)

end Token

/-! ## Comments at the beginning of a text -/

theorem lacksEnd_nil : LacksEnd [] := by
  intro h
  have hlength := h.length_le
  simp at hlength

theorem lacksEnd_cons {c : Char} {body : List Char} :
    LacksEnd (c :: body) ↔ ¬(c = '*' ∧ body.head? = some '/') ∧ LacksEnd body := by
  have hhead : ['*', '/'] <+: c :: (body ++ ['*']) ↔ c = '*' ∧ body.head? = some '/' := by
    cases body with
    | nil => simp
    | cons d body => simp [eq_comm]
  rw [LacksEnd, List.cons_append, List.infix_cons_iff, hhead, not_or, LacksEnd]

namespace Lexeme

theorem commentBody_append (rest : List Char) : ∀ {body : List Char}, LacksEnd body →
    commentBody (body ++ ['*', '/'] ++ rest) = some (body ++ ['*', '/'])
  | [], _ => by simp [commentBody]
  | [c], h => by
    have ih := commentBody_append rest lacksEnd_nil
    simp [commentBody] at ih ⊢
  | c :: d :: body, h => by
    obtain ⟨hopen, hbody⟩ := lacksEnd_cons.1 h
    have ih := commentBody_append rest hbody
    simp only [List.cons_append] at ih ⊢
    rw [commentBody, if_neg (by simpa using hopen), ih]
    rfl

theorem exists_body_of_commentBody : ∀ {cs text : List Char}, commentBody cs = some text →
    ∃ body, text = body ++ ['*', '/'] ∧ LacksEnd body
  | [], text, h => by simp [commentBody] at h
  | [c], text, h => by simp [commentBody] at h
  | c :: d :: cs, text, h => by
    rw [commentBody] at h
    split at h
    · next hends =>
      obtain rfl := Option.some.inj h
      exact ⟨[], by rw [hends.1, hends.2]; rfl, lacksEnd_nil⟩
    · next hopen =>
      obtain ⟨text, htext, rfl⟩ := Option.map_eq_some_iff.1 h
      obtain ⟨body, rfl, hbody⟩ := exists_body_of_commentBody htext
      refine ⟨c :: body, rfl, lacksEnd_cons.2 ⟨?_, hbody⟩⟩
      rintro ⟨rfl, hhead⟩
      -- what is taken begins with the next character of the text
      obtain ⟨rest, hrest⟩ := isPrefix_commentBody htext
      cases body with
      | nil => simp at hhead
      | cons e body =>
        obtain rfl : e = d := (List.cons.inj hrest).1
        exact hopen ⟨rfl, by simpa using hhead⟩

/-- A comment after two slashes reaches to the end of the line. -/
theorem isComment_line (cs : List Char) :
    IsComment (cs.dropWhile (· ≠ '\n')) ('/' :: '/' :: cs.takeWhile (· ≠ '\n')) := by
  refine .line (fun h => ?_) fun c hc => ?_
  · simpa using List.mem_takeWhile_imp h
  · have hstop := List.head?_dropWhile_not (· ≠ '\n') cs
    rw [Option.mem_def.1 hc] at hstop
    simpa using hstop

/-- The first lexeme is a single blank, a complete comment or the text of a token. -/
theorem first_cases (c : Char) (cs : List Char) :
    (isBlank c = true ∧ first c cs = ⟨.blank, [c]⟩) ∨
      ((first c cs).cls = .comment ∧
        IsComment ((c :: cs).drop (first c cs).text.length) (first c cs).text) ∨
      ∃ kind, (first c cs).cls = .token kind := by
  unfold first
  split
  · next hblank => exact .inl ⟨hblank, rfl⟩
  split
  · next hline =>
    obtain ⟨rfl, hhead⟩ := hline
    obtain ⟨cs, rfl⟩ := List.head?_eq_some_iff.1 hhead
    have hcomment := isComment_line cs
    rw [← drop_length_takeWhile] at hcomment
    exact .inr (.inl ⟨rfl, by simpa using hcomment⟩)
  split
  · next hblock =>
    obtain ⟨rfl, hhead⟩ := hblock
    obtain ⟨cs, rfl⟩ := List.head?_eq_some_iff.1 hhead
    split
    · next text htext =>
      obtain ⟨body, rfl, hbody⟩ := exists_body_of_commentBody htext
      exact .inr (.inl ⟨rfl, .block hbody⟩)
    · exact .inr (.inr ⟨_, rfl⟩)
  split
  · split <;> exact .inr (.inr ⟨_, rfl⟩)
  split
  · exact .inr (.inr ⟨_, rfl⟩)
  split
  · exact .inr (.inr ⟨_, rfl⟩)
  · split
    · split <;> exact .inr (.inr ⟨_, rfl⟩)
    · exact .inr (.inr ⟨_, rfl⟩)

/-- Where a complete comment begins, the first lexeme is a comment. -/
theorem cls_first_of_isComment {c : Char} {cs text rest : List Char} (h : IsComment rest text)
    (hcs : c :: cs = text ++ rest) : (first c cs).cls = .comment := by
  have hslash : isBlank '/' = false := by decide
  cases h with
  | line hbody hrest =>
    obtain ⟨rfl, rfl⟩ := List.cons.inj hcs
    simp [first, hslash]
  | block hbody =>
    obtain ⟨rfl, rfl⟩ := List.cons.inj hcs
    have hends := commentBody_append rest hbody
    simp only [List.append_assoc, List.cons_append, List.nil_append] at hends
    simp [first, hslash, hends]

/-- A token begins where a gap is over. -/
theorem not_gapGoesOn {c : Char} {cs : List Char} {kind : TokenKind}
    (h : (first c cs).cls = .token kind) : ¬GapGoesOn (c :: cs) := by
  rintro (⟨d, hd, hblank⟩ | ⟨text, rest, hcs, hcomment⟩)
  · obtain rfl : c = d := by simpa using hd
    rw [first, if_pos hblank] at h
    cases h
  · rw [cls_first_of_isComment hcomment hcs] at h
    cases h

end Lexeme

/-! ## Gap by gap -/

namespace Token

section

variable {p : Position} {pending : Option Comment} {l : Lexeme} {ls : List Lexeme}

theorem place_blank (h : l.cls = .blank) :
    place p pending (l :: ls) = place (p.after l.text) pending ls := by
  rw [place, h]

theorem place_comment (h : l.cls = .comment) :
    place p pending (l :: ls) = place (p.after l.text)
      (pending.or (some ⟨String.ofList l.text, .ofText p l.text⟩)) ls := by
  rw [place, h]

theorem place_token {kind : TokenKind} (h : l.cls = .token kind) :
    place p pending (l :: ls) = ⟨kind, String.ofList l.text, .ofText p l.text, pending⟩ ::
      place (p.after l.text) none ls := by
  rw [place, h]

end

/-- The lexemes of a text begin with those of a gap, which only move the position and may leave a
comment for what follows : the end of the text, or a token. -/
theorem exists_gap (cs : List Char) : ∃ gap comments rest, cs = gap ++ rest ∧
    IsGap rest gap comments ∧
    (∀ (p : Position) (pending : Option Comment), ∃ left : Option Comment,
      place p pending (Lexeme.all cs) = place (p.after gap) left (Lexeme.all rest) ∧
        left.map (·.text.toList) = (pending.map (·.text.toList)).or comments.head?) ∧
    (rest = [] ∨ ∃ c ds kind, rest = c :: ds ∧ (Lexeme.first c ds).cls = .token kind) := by
  induction cs using Lexeme.all.induct with
  | case1 => exact ⟨[], [], [], rfl, .nil, fun p pending => ⟨pending, rfl, by simp⟩, .inl rfl⟩
  | case2 c cs ih =>
    obtain ⟨gap, comments, rest, hdrop, hgap, hplace, hrest⟩ := ih
    have hcs := Lexeme.first_text_append c cs
    rw [hdrop] at hcs
    rcases Lexeme.first_cases c cs with ⟨hblank, hfirst⟩ | ⟨hcls, hcomment⟩ | ⟨kind, hcls⟩
    · refine ⟨c :: gap, comments, rest, ?_, .blank hblank hgap, fun p pending => ?_, hrest⟩
      · rw [← hcs, hfirst]
        rfl
      · obtain ⟨left, hleft, htext⟩ := hplace (p.after (Lexeme.first c cs).text) pending
        refine ⟨left, ?_, htext⟩
        rw [Lexeme.all, place_blank (by rw [hfirst]), hleft, hfirst]
        rfl
    · rw [hdrop] at hcomment
      refine ⟨(Lexeme.first c cs).text ++ gap, (Lexeme.first c cs).text :: comments, rest, ?_,
        .comment hcomment hgap, fun p pending => ?_, hrest⟩
      · rw [← hcs, List.append_assoc]
      · obtain ⟨left, hleft, htext⟩ := hplace (p.after (Lexeme.first c cs).text) (pending.or
          (some ⟨String.ofList (Lexeme.first c cs).text, .ofText p (Lexeme.first c cs).text⟩))
        refine ⟨left, ?_, ?_⟩
        · rw [Lexeme.all, place_comment hcls, p.after_append, hleft]
        · rw [htext]
          cases pending <;> simp
    · exact ⟨[], [], c :: cs, rfl, .nil, fun p pending => ⟨pending, rfl, by simp⟩,
        .inr ⟨c, cs, kind, rfl, hcls⟩⟩

/-- A gap and the text of a token before what is covered already. -/
theorem Covers.cons_lexeme {gap text rest : List Char} {comments : List (List Char)}
    {kind : TokenKind} {comment : Option Comment} {ts : List Token} (span : Span)
    (hrest : Covers rest ts) (hgap : IsGap (text ++ rest) gap comments)
    (hkind : kind ≠ .endOfInput) (htext : text ≠ []) (hover : ¬GapGoesOn (text ++ rest))
    (hcomment : comment.map (·.text.toList) = comments.head?) :
    Covers (gap ++ (text ++ rest)) (⟨kind, String.ofList text, span, comment⟩ :: ts) := by
  have hcovers := Covers.token (t := ⟨kind, String.ofList text, span, comment⟩)
    (by simpa using hgap) hkind (by simpa using htext) (by simpa using hover) hcomment hrest
  simpa using hcovers

/-- The tokens that the lexemes of a text make cover it. -/
theorem covers_place (p : Position) (cs : List Char) :
    Covers cs (place p none (Lexeme.all cs)) := by
  induction hn : cs.length using Nat.strongRecOn generalizing p cs with
  | ind n ih =>
    obtain ⟨gap, comments, rest, rfl, hgap, hplace, hrest⟩ := exists_gap cs
    obtain ⟨left, hleft, hcomment⟩ := hplace p none
    rw [hleft]
    rcases hrest with rfl | ⟨c, ds, kind, rfl, hcls⟩
    · rw [List.append_nil, Lexeme.all, place]
      exact .ending hgap rfl rfl hcomment
    · have hover := Lexeme.not_gapGoesOn hcls
      have htext := Lexeme.first_text_ne_nil c ds
      have hkind : kind ≠ .endOfInput := by
        rintro rfl
        exact (Lexeme.wellSpelled_first c ds).isToken hcls
      have hshort : ((c :: ds).drop (Lexeme.first c ds).text.length).length < n := by
        have := List.length_pos_iff.2 htext
        simp only [List.length_drop, List.length_append, List.length_cons] at hn ⊢
        omega
      have hcovers := ih _ hshort ((p.after gap).after (Lexeme.first c ds).text) _ rfl
      rw [← Lexeme.first_text_append c ds] at hgap hover
      have hcons := hcovers.cons_lexeme (.ofText (p.after gap) (Lexeme.first c ds).text) hgap hkind
        htext hover hcomment
      rw [Lexeme.first_text_append] at hcons
      rw [Lexeme.all, place_token hcls]
      exact hcons

/-- No character of a text is lost, and comments stand with the tokens they come before. A text is
the texts of its tokens, none of them empty and the one end last, with a gap before each. A gap is
blanks and complete comments and ends where neither of them begins. A token has the text of the
first comment in the gap directly before it, and has no comment just if that gap has none. -/
theorem covers_scan (source : String) : Covers source.toList (scan source) :=
  covers_place .start source.toList

end Token

end SqfCheck
