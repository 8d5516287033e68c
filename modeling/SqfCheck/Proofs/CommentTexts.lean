import Mathlib.Data.List.Forall2
import SqfCheck.Proofs.Gaps
import SqfCheck.Proofs.StringLiterals

/-!
# The text of comments

How a text is cut into lexemes does not depend on what its block comments hold
(`Lexeme.all_of_altered`). A lexeme is cut by its own characters and those that follow it, and where
it looks at what follows, it does not look beyond a slash (`Lexeme.first_congr`). So it is the same
with another text after it that goes on in the same way up to where a comment begins.
-/

namespace SqfCheck

open Text

namespace Lexeme

/-- The lexeme is a comment between a slash with a star and a star with a slash. -/
def IsBlockComment (l : Lexeme) : Prop :=
  l.cls = .comment ∧ ['/', '*'] <+: l.text

/-- The second lexeme is the first, or both are block comments. -/
inductive Altered (l : Lexeme) : Lexeme → Prop where
  | same : Altered l l
  | comment {body : List Char} (hl : l.IsBlockComment) (hbody : LacksEnd body) :
    Altered l ⟨.comment, '/' :: '*' :: (body ++ ['*', '/'])⟩

theorem exists_body_first {c : Char} {cs : List Char} (h : (first c cs).IsBlockComment) :
    ∃ body, (first c cs).text = '/' :: '*' :: (body ++ ['*', '/']) ∧ LacksEnd body := by
  obtain ⟨hcls, rest, hrest⟩ := h
  rcases first_cases c cs with ⟨-, hfirst⟩ | ⟨-, hcomment⟩ | ⟨kind, htoken⟩
  · rw [hfirst] at hcls
    cases hcls
  · rw [← hrest] at hcomment ⊢
    generalize hdrop : (c :: cs).drop _ = after at hcomment
    cases hcomment with
    | block hbody => exact ⟨_, rfl, hbody⟩
  · rw [htoken] at hcls
    cases hcls

theorem exists_body (cs : List Char) : ∀ l ∈ all cs, l.IsBlockComment →
    ∃ body, l.text = '/' :: '*' :: (body ++ ['*', '/']) ∧ LacksEnd body := by
  fun_induction all cs with
  | case1 => simp
  | case2 c cs ih =>
    intro l hl hblock
    rcases List.mem_cons.1 hl with rfl | hl
    · exact exists_body_first hblock
    · exact ih l hl hblock

/-! ## Looking ahead -/

theorem takeWhile_slash {p : Char → Bool} (hp : p '/' = false) (cs ds : List Char) :
    (cs ++ '/' :: ds).takeWhile p = cs.takeWhile p := by
  induction cs with
  | nil => exact List.takeWhile_cons_of_neg (by simp [hp])
  | cons c cs ih => rw [List.cons_append, List.takeWhile_cons, List.takeWhile_cons, ih]

theorem dropWhile_slash {p : Char → Bool} (hp : p '/' = false) (cs ds : List Char) :
    (cs ++ '/' :: ds).dropWhile p = cs.dropWhile p ++ '/' :: ds := by
  induction cs with
  | nil => exact List.dropWhile_cons_of_neg (by simp [hp])
  | cons c cs ih =>
    rw [List.cons_append, List.dropWhile_cons, List.dropWhile_cons, ih]
    split <;> rfl

theorem fraction_slash (cs ds : List Char) : fraction (cs ++ '/' :: ds) = fraction cs := by
  match cs with
  | [] => cases ds <;> simp [fraction]
  | [c] => simp [fraction]
  | c :: d :: cs =>
    simp only [List.cons_append, fraction]
    rw [takeWhile_slash (by decide)]

theorem exponent_slash (cs ds : List Char) : exponent (cs ++ '/' :: ds) = exponent cs := by
  match cs with
  | [] => cases ds <;> simp [exponent]
  | [c] => simp [exponent]
  | [c, d] => simp [exponent]
  | c :: d :: n :: cs =>
    simp only [List.cons_append, exponent]
    rw [← List.cons_append, takeWhile_slash (by decide), takeWhile_slash (by decide)]

/-- A number ends before a slash. -/
theorem numberTail_slash (c : Char) (cs ds : List Char) :
    numberTail c (cs ++ '/' :: ds) = numberTail c cs := by
  have hmark : ((cs ++ '/' :: ds).head? = some 'x' ∨ (cs ++ '/' :: ds).head? = some 'X') ↔
      (cs.head? = some 'x' ∨ cs.head? = some 'X') := by
    cases cs <;> simp
  simp only [numberTail, hmark]
  split_ifs with hdollar hhex hpoint
  · exact takeWhile_slash (by decide) cs ds
  · cases cs with
    | nil => simp at hhex
    | cons d cs => exact congrArg (d :: ·) (takeWhile_slash (by decide) cs ds)
  · rw [takeWhile_slash (by decide), dropWhile_slash (by decide)]
    simp only [List.length_nil, List.drop_zero, exponent_slash]
  · have hle := (fraction_isPrefix (cs.dropWhile Char.isDigit)).length_le
    rw [takeWhile_slash (by decide), dropWhile_slash (by decide), fraction_slash,
      List.drop_append_of_le_length hle, exponent_slash]

theorem takeWhile_congr {p : Char → Bool} {text rest rest' : List Char}
    (h : (text ++ rest).takeWhile p = text) (hhead : rest.head? = rest'.head?) :
    (text ++ rest').takeWhile p = text := by
  have hall : ∀ c ∈ text, p c = true := fun c hc => List.mem_takeWhile_imp (h ▸ hc)
  rw [List.takeWhile_append_of_pos hall] at h ⊢
  have hstop := List.append_right_eq_self.1 h
  cases rest' with
  | nil => simp
  | cons d rest' =>
    obtain ⟨rest, rfl⟩ := List.head?_eq_some_iff.1 hhead
    have hd : ¬p d = true := fun hd => by simp [List.takeWhile_cons_of_pos hd] at hstop
    rw [List.takeWhile_cons_of_neg hd, List.append_nil]

theorem stringBody_congr {quote : Char} {text rest rest' : List Char}
    (h : stringBody quote (text ++ rest) = some text) (hhead : rest.head? = rest'.head?) :
    stringBody quote (text ++ rest') = some text := by
  obtain ⟨s, after, htext, hcs, hafter⟩ := stringBody_eq_some_iff.1 h
  obtain rfl := List.append_cancel_left hcs
  exact stringBody_eq_some_iff.2 ⟨s, rest', htext, rfl, hhead ▸ hafter⟩

/-- The first lexeme of a text is the same with another text after it that agrees with what follows
up to a slash. -/
theorem first_congr {c : Char} {text rest rest' : List Char}
    (h : (first c (text ++ rest)).text = c :: text)
    (hrest : rest = rest' ∨
      ∃ between after after', rest = between ++ '/' :: after ∧ rest' = between ++ '/' :: after') :
    first c (text ++ rest') = first c (text ++ rest) := by
  obtain rfl | ⟨between, after, after', rfl, rfl⟩ := hrest
  · rfl
  have hhead : (between ++ '/' :: after).head? = (between ++ '/' :: after').head? := by
    cases between <;> rfl
  have hheads : (text ++ (between ++ '/' :: after')).head? =
      (text ++ (between ++ '/' :: after)).head? := by
    cases text with
    | nil => exact hhead.symm
    | cons d text => rfl
  have hnumbers : startsNumber c (text ++ (between ++ '/' :: after')) =
      startsNumber c (text ++ (between ++ '/' :: after)) := by
    rw [startsNumber, hheads, startsNumber]
  -- There is more text, so this is no comment or string that was not closed.
  have hmore : text ++ (between ++ '/' :: after) ≠ text := by simp
  unfold first at h ⊢
  rw [hheads, hnumbers]
  split_ifs at h ⊢ with hblank hline hblock hquote hnumber hname
  · rfl
  · rw [takeWhile_congr (List.cons.inj h).2 hhead, (List.cons.inj h).2]
  · split at h
    · next body hbody =>
      obtain rfl := (List.cons.inj h).2
      obtain ⟨front, rfl, hfront⟩ := exists_body_of_commentBody hbody
      have hends := commentBody_append (between ++ '/' :: after') hfront
      rw [List.cons_append, List.drop_one, List.tail_cons, hends]
    · exact absurd (List.cons.inj h).2 hmore
  · split at h
    · next body hbody =>
      obtain rfl := (List.cons.inj h).2
      rw [stringBody_congr hbody hhead]
    · exact absurd (List.cons.inj h).2 hmore
  · rw [← List.append_assoc, numberTail_slash, ← List.append_assoc, numberTail_slash]
  · rw [takeWhile_congr (List.cons.inj h).2 hhead, (List.cons.inj h).2]
  · rfl

/-! ## Other comments in place of comments -/

theorem all_text_append {l : Lexeme} {rest : List Char}
    (h : ∃ c cs, l.text ++ rest = c :: cs ∧ first c cs = l) :
    all (l.text ++ rest) = l :: all rest := by
  obtain ⟨c, cs, heq, hfirst⟩ := h
  rw [heq, all, hfirst, ← heq, List.drop_left]

/-- Texts with some block comments altered agree up to the slash of a comment. -/
theorem agree_of_altered {ls ms : List Lexeme} (h : List.Forall₂ Altered ls ms) :
    ls.flatMap text = ms.flatMap text ∨ ∃ between after after',
      ls.flatMap text = between ++ '/' :: after ∧ ms.flatMap text = between ++ '/' :: after' := by
  induction h with
  | nil => exact .inl rfl
  | @cons l m ls ms hl _ ih =>
    cases hl with
    | same =>
      rcases ih with heq | ⟨between, after, after', hls, hms⟩
      · exact .inl (by rw [List.flatMap_cons, List.flatMap_cons, heq])
      · refine .inr ⟨l.text ++ between, after, after', ?_, ?_⟩
        · rw [List.flatMap_cons, hls, List.append_assoc]
        · rw [List.flatMap_cons, hms, List.append_assoc]
    | @comment body hl hbody =>
      obtain ⟨-, rest, hrest⟩ := hl
      refine .inr ⟨[], '*' :: (rest ++ ls.flatMap text),
        '*' :: (body ++ ['*', '/'] ++ ms.flatMap text), ?_, rfl⟩
      rw [List.flatMap_cons, ← hrest]
      rfl

/-- A text with other block comments in place of its own is cut into the same lexemes, the comments
apart. -/
theorem all_of_altered {cs : List Char} {ms : List Lexeme} (h : List.Forall₂ Altered (all cs) ms) :
    all (ms.flatMap text) = ms := by
  induction cs using all.induct generalizing ms with
  | case1 =>
    rw [all, List.forall₂_nil_left_iff] at h
    rw [h, List.flatMap_nil, all]
  | case2 c cs ih =>
    rw [all] at h
    obtain ⟨m, ms, hm, hms, rfl⟩ := List.forall₂_cons_left_iff.1 h
    rw [List.flatMap_cons, all_text_append, ih hms]
    cases hm with
    | same =>
      -- The lexeme is cut in the same way before what follows now.
      obtain ⟨d, text, htext⟩ := List.exists_cons_of_ne_nil (first_text_ne_nil c cs)
      have hcs := first_text_append c cs
      rw [htext, List.cons_append] at hcs
      obtain ⟨rfl, hcs⟩ := List.cons.inj hcs
      have hagree := agree_of_altered hms
      rw [flatMap_text_all, htext] at hagree
      refine ⟨d, _, by rw [htext, List.cons_append], ?_⟩
      rw [first_congr (hcs.symm ▸ htext) hagree, hcs]
    | @comment body hl hbody =>
      have hends := commentBody_append (ms.flatMap text) hbody
      refine ⟨'/', '*' :: (body ++ ['*', '/'] ++ ms.flatMap text), rfl, ?_⟩
      rw [first, if_neg (by decide), if_neg (by simp), if_pos ⟨rfl, rfl⟩, List.drop_one,
        List.tail_cons, hends]

end Lexeme

end SqfCheck
