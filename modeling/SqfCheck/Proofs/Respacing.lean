import SqfCheck.Proofs.CommentTexts

/-!
# Spaces between tokens

What stands between tokens only separates them. If the texts of the tokens of a script are put
together again with single spaces, the result has the same tokens, and every one of these texts is
that token when it stands alone (`Token.scan_spaced`).

A lexeme is found by looking ahead, and each way of looking ahead has to come to the same end before
a space and before the end of the text. A string was closed where no quote follows, a name or the
digits of a number end where the next character does not belong to them. A fraction or an exponent
is only begun if there is a digit to begin it with, so the text of a number has a form
(`Lexeme.IsNumberTail`) that a space does not change. A comment or a string that is never closed
goes to the end of the text, and nothing follows it (`Lexeme.first_respaced`).
-/

namespace SqfCheck

open Text

namespace Lexeme

/-! ## The form of numbers -/

/-- One decimal digit or more. -/
def IsDigits (cs : List Char) : Prop :=
  cs ≠ [] ∧ ∀ d ∈ cs, d.isDigit = true

/-- No text, or a decimal point and digits. -/
inductive IsFraction : List Char → Prop where
  | none : IsFraction []
  | some {digits : List Char} (h : IsDigits digits) : IsFraction ('.' :: digits)

/-- No text, or a mark, a sign or none, and digits. -/
inductive IsExponent : List Char → Prop where
  | none : IsExponent []
  | some {mark : Char} {sign digits : List Char} (hmark : mark = 'e' ∨ mark = 'E')
    (hsign : sign = [] ∨ sign = ['+'] ∨ sign = ['-']) (h : IsDigits digits) :
    IsExponent (mark :: (sign ++ digits))

/-- The text makes a number with the character `c` before it : hexadecimal digits after a dollar
sign or after a zero and an `x`, or a decimal number that `c` is the first digit or the point of. -/
inductive IsNumberTail (c : Char) : List Char → Prop where
  | dollar {digits : List Char} (hc : c = '$') (h : ∀ d ∈ digits, isHexDigit d = true) :
    IsNumberTail c digits
  | hexadecimal {x : Char} {digits : List Char} (hc : c = '0') (hx : x = 'x' ∨ x = 'X')
    (h : ∀ d ∈ digits, isHexDigit d = true) : IsNumberTail c (x :: digits)
  | decimal {digits part power : List Char} (hc : c ≠ '$')
    (hdigits : ∀ d ∈ digits, d.isDigit = true) (hpart : IsFraction part)
    (hpoint : c = '.' → part = []) (hpower : IsExponent power) :
    IsNumberTail c (digits ++ (part ++ power))

theorem isDigits_takeWhile {d : Char} (hd : d.isDigit = true) (cs : List Char) :
    IsDigits (d :: cs.takeWhile Char.isDigit) := by
  refine ⟨List.cons_ne_nil _ _, fun a ha => ?_⟩
  rcases List.mem_cons.1 ha with rfl | ha
  · exact hd
  · exact List.mem_takeWhile_imp ha

theorem isFraction_fraction (cs : List Char) : IsFraction (fraction cs) := by
  unfold fraction
  split
  · split_ifs with h
    · rw [h.1]
      exact .some (isDigits_takeWhile h.2 _)
    · exact .none
  · exact .none

theorem isExponent_exponent (cs : List Char) : IsExponent (exponent cs) := by
  unfold exponent
  split
  · split_ifs with hmark hd hsign
    · exact .some hmark (.inl rfl) (isDigits_takeWhile hd _)
    · split
      · split_ifs with hn
        · rcases hsign with rfl | rfl
          · exact .some hmark (.inr (.inl rfl)) (isDigits_takeWhile hn _)
          · exact .some hmark (.inr (.inr rfl)) (isDigits_takeWhile hn _)
        · exact .none
      · exact .none
    · exact .none
    · exact .none
  · exact .none

theorem isNumberTail_numberTail (c : Char) (cs : List Char) :
    IsNumberTail c (numberTail c cs) := by
  unfold numberTail
  split_ifs with hdollar hhex hpoint
  · exact .dollar hdollar fun d hd => List.mem_takeWhile_imp hd
  · obtain ⟨hc, hx⟩ := hhex
    cases cs with
    | nil => simp at hx
    | cons x cs =>
      exact .hexadecimal hc (by simpa using hx) fun d hd => List.mem_takeWhile_imp hd
  · rw [List.append_assoc]
    exact .decimal hdollar (fun d hd => List.mem_takeWhile_imp hd) .none (fun _ => rfl)
      (isExponent_exponent _)
  · rw [List.append_assoc]
    exact .decimal hdollar (fun d hd => List.mem_takeWhile_imp hd) (isFraction_fraction _)
      (fun hc => absurd hc hpoint) (isExponent_exponent _)

/-! ## Numbers before a space -/

/-- Nothing follows, or a space does. -/
def Spaced (rest : List Char) : Prop :=
  ∀ d ∈ rest.head?, d = ' '

theorem spaced_nil : Spaced [] :=
  nofun

theorem spaced_cons (cs : List Char) : Spaced (' ' :: cs) :=
  fun _ hd => (Option.some.inj hd).symm

variable {c : Char} {text rest rest' : List Char}

theorem Spaced.takeWhile_eq (hrest : Spaced rest) {p : Char → Bool} (hp : p ' ' = false)
    (htext : ∀ c ∈ text, p c = true) : (text ++ rest).takeWhile p = text :=
  takeWhile_append_eq htext fun d hd => hrest d hd ▸ hp

/-- Before what begins with no digit and no point, a fraction is cut as it is. -/
theorem fraction_append (h : IsFraction text)
    (hrest : ∀ d ∈ rest.head?, d.isDigit = false ∧ d ≠ '.') : fraction (text ++ rest) = text := by
  cases h with
  | none =>
    match rest with
    | [] => rfl
    | [d] => rfl
    | d :: e :: rest => exact if_neg fun h => (hrest d rfl).2 h.1
  | @some digits h =>
    obtain ⟨hne, hall⟩ := h
    cases digits with
    | nil => exact absurd rfl hne
    | cons d digits =>
      have hdigits : (digits ++ rest).takeWhile Char.isDigit = digits :=
        takeWhile_append_eq (fun a ha => hall a (List.mem_cons_of_mem d ha))
          fun a ha => (hrest a ha).1
      have hd := hall d List.mem_cons_self
      rw [List.cons_append, List.cons_append, fraction, if_pos ⟨rfl, hd⟩, hdigits]

theorem exponent_append (h : IsExponent text) (hrest : Spaced rest) :
    exponent (text ++ rest) = text := by
  cases h with
  | none =>
    match rest with
    | [] => rfl
    | [d] => rfl
    | d :: e :: rest =>
      obtain rfl := hrest d rfl
      rfl
  | @some mark sign digits hmark hsign h =>
    obtain ⟨hne, hall⟩ := h
    cases digits with
    | nil => exact absurd rfl hne
    | cons d digits =>
      have hdigits : (digits ++ rest).takeWhile Char.isDigit = digits :=
        hrest.takeWhile_eq (by decide) fun a ha => hall a (List.mem_cons_of_mem d ha)
      have hd := hall d List.mem_cons_self
      rcases hsign with rfl | rfl | rfl
      · simp [exponent, hmark, hd, hdigits]
      · simp [exponent, hmark, hd, hdigits]
      · simp [exponent, hmark, hd, hdigits]

theorem IsExponent.head_append (h : IsExponent text) (hrest : Spaced rest) :
    ∀ d ∈ (text ++ rest).head?, d = 'e' ∨ d = 'E' ∨ d = ' ' := by
  intro d hd
  cases h with
  | none => exact .inr (.inr (hrest d hd))
  | some hmark =>
    obtain rfl := Option.some.inj hd
    exact hmark.imp_right .inl

theorem IsFraction.head_append (h : IsFraction text) :
    ∀ d ∈ (text ++ rest).head?, d = '.' ∨ d ∈ rest.head? := by
  intro d hd
  cases h with
  | none => exact .inr hd
  | some => exact .inl (Option.some.inj hd).symm

section

variable {digits part power : List Char} (hpart : IsFraction part) (hpower : IsExponent power)
  (hrest : Spaced rest)
include hpart hpower hrest

/-- What follows the digits of a decimal number is no digit and no mark of a hexadecimal one. -/
theorem head_after_digits :
    ∀ d ∈ (part ++ (power ++ rest)).head?, d.isDigit = false ∧ d ≠ 'x' ∧ d ≠ 'X' := by
  intro d hd
  rcases hpart.head_append d hd with rfl | hd
  · decide
  · rcases hpower.head_append hrest d hd with rfl | rfl | rfl <;> decide

theorem head_ne_of_decimal (hdigits : ∀ d ∈ digits, d.isDigit = true) :
    ∀ d ∈ (digits ++ (part ++ (power ++ rest))).head?, d ≠ 'x' ∧ d ≠ 'X' := by
  intro d hd
  cases digits with
  | nil => exact (head_after_digits hpart hpower hrest d hd).2
  | cons e digits =>
    obtain rfl := Option.some.inj hd
    have he := hdigits e List.mem_cons_self
    constructor <;> rintro rfl <;> cases he

end

/-- Before a space a number is cut as it is. -/
theorem numberTail_append (h : IsNumberTail c text) (hrest : Spaced rest) :
    numberTail c (text ++ rest) = text := by
  cases h with
  | dollar hc hall => rw [numberTail, if_pos hc, hrest.takeWhile_eq (by decide) hall]
  | @hexadecimal x digits hc hx hall =>
    have hdigits : (digits ++ rest).takeWhile isHexDigit = digits :=
      hrest.takeWhile_eq (by decide) hall
    simp [numberTail, hc, hx, hdigits]
  | @decimal digits part power hc hdigits hpart hpoint hpower =>
    have hstop := fun d hd => (head_after_digits hpart hpower hrest d hd).1
    have hhead := head_ne_of_decimal hpart hpower hrest hdigits
    have hcut : (if c = '.' then [] else fraction (part ++ (power ++ rest))) = part := by
      split_ifs with hc
      · exact (hpoint hc).symm
      · refine fraction_append hpart fun d hd => ?_
        rcases hpower.head_append hrest d hd with rfl | rfl | rfl <;> decide
    simp only [List.append_assoc]
    rw [numberTail, if_neg hc, if_neg fun hx => hx.2.elim (fun hx => (hhead _ hx).1 rfl)
        fun hx => (hhead _ hx).2 rfl,
      takeWhile_append_eq hdigits hstop, dropWhile_append_eq hdigits hstop]
    dsimp only
    rw [hcut, List.drop_left, exponent_append hpower hrest, List.append_assoc]

/-! ## Lexemes before a space -/

/-- A number that is cut as it is begins a number, whatever follows : with a single character it is
a digit. -/
theorem startsNumber_of_numberTail (h : startsNumber c (text ++ rest) = true)
    (htext : numberTail c (text ++ rest) = text) : startsNumber c (text ++ rest') = true := by
  cases text with
  | cons d text => exact h
  | nil =>
    have hdigit : c.isDigit = true := by
      simp only [startsNumber, Bool.or_eq_true, Bool.and_eq_true, beq_iff_eq,
        Option.any_eq_true] at h
      rcases h with (hc | ⟨rfl, d, hd, hhex⟩) | ⟨rfl, d, hd, hpoint⟩
      · exact hc
      · obtain ⟨ds, hds⟩ := List.head?_eq_some_iff.1 hd
        simp [hds, numberTail, hhex] at htext
      · obtain ⟨ds, hds⟩ := List.head?_eq_some_iff.1 hd
        simp [hds, numberTail, hpoint] at htext
    simp [startsNumber, hdigit]

theorem not_startsNumber_of_spaced (h : ¬startsNumber c (text ++ rest) = true)
    (hrest' : Spaced rest') : ¬startsNumber c (text ++ rest') = true := by
  cases text with
  | cons d text => exact h
  | nil =>
    have hdigit : c.isDigit = false := by
      simp only [startsNumber, Bool.not_eq_true, Bool.or_eq_false_iff] at h
      exact h.1.1
    cases rest' with
    | nil => simp [startsNumber, hdigit]
    | cons d rest' =>
      obtain rfl := hrest' d rfl
      have hspace : isHexDigit ' ' = false := by decide
      simp [startsNumber, hdigit, hspace]

/-- A string that was closed is closed by the same quote before a space. -/
theorem first_quote_respaced {l : Lexeme} (hquote : c = '"' ∨ c = '\'')
    (h : first c (text ++ rest) = l) (htext : l.text = c :: text) (hrest : rest ≠ [])
    (hrest' : Spaced rest') : first c (text ++ rest') = l := by
  rw [first_quote hquote] at h ⊢
  cases hbody : stringBody c (text ++ rest) with
  | none =>
    rw [hbody] at h
    subst h
    exact absurd (List.append_right_eq_self.1 (List.cons.inj htext).2) hrest
  | some body =>
    rw [hbody] at h
    subst h
    obtain rfl := (List.cons.inj htext).2
    obtain ⟨s, -, hs, -⟩ := stringBody_eq_some_iff.1 hbody
    have hopen : rest'.head? ≠ some c := by
      intro hc
      rw [hrest' c hc] at hquote
      exact absurd hquote (by decide)
    rw [stringBody_eq_some_iff.2 ⟨s, rest', hs, rfl, hopen⟩]
    rfl

/-- A token that does not take all the text begins with no blank, and no comment begins there. -/
theorem not_blank_of_token {cs : List Char} {l : Lexeme} {kind : TokenKind} (h : first c cs = l)
    (hcls : l.cls = .token kind) (htext : l.text ≠ c :: cs) : ¬isBlank c = true ∧
      ¬(c = '/' ∧ cs.head? = some '/') ∧ ¬(c = '/' ∧ cs.head? = some '*') := by
  unfold first at h
  split at h
  · subst h
    cases hcls
  split at h
  · subst h
    cases hcls
  split at h
  · split at h
    · subst h
      cases hcls
    · subst h
      exact absurd rfl htext
  next hblank hline hblock => exact ⟨hblank, hline, hblock⟩

/-- The text of a token is cut as it is before a space or before the end of the text. A token that
is not closed takes all that is left, so only the end follows it. -/
theorem first_respaced {l : Lexeme} {kind : TokenKind} (h : first c (text ++ rest) = l)
    (htext : l.text = c :: text) (hcls : l.cls = .token kind) (hend : rest = [] → rest' = [])
    (hrest' : Spaced rest') : first c (text ++ rest') = l := by
  by_cases hrest : rest = []
  · rw [hend hrest, ← hrest, h]
  by_cases hquote : c = '"' ∨ c = '\''
  · exact first_quote_respaced hquote h htext hrest hrest'
  obtain ⟨hblank, hline, hblock⟩ :=
    not_blank_of_token h hcls (by rw [htext]; simpa [eq_comm] using hrest)
  have hhead : ∀ d, d ≠ ' ' → (text ++ rest').head? = some d → (text ++ rest).head? = some d := by
    intro d hd hsome
    cases text with
    | nil => exact absurd (hrest' d hsome) hd
    | cons e text => exact hsome
  rw [first, if_neg hblank, if_neg hline, if_neg hblock, if_neg hquote] at h
  rw [first, if_neg hblank, if_neg fun hc => hline ⟨hc.1, hhead _ (by decide) hc.2⟩,
    if_neg fun hc => hblock ⟨hc.1, hhead _ (by decide) hc.2⟩, if_neg hquote]
  by_cases hnumber : startsNumber c (text ++ rest) = true
  · rw [if_pos hnumber] at h
    subst h
    have htail := (List.cons.inj htext).2
    have hform := isNumberTail_numberTail c (text ++ rest)
    rw [htail] at hform
    rw [if_pos (startsNumber_of_numberTail hnumber htail), numberTail_append hform hrest', htail]
  rw [if_neg hnumber] at h
  rw [if_neg (not_startsNumber_of_spaced hnumber hrest')]
  by_cases hname : startsName c = true
  · rw [if_pos hname] at h
    subst h
    have htail := (List.cons.inj htext).2
    have hall : ∀ d ∈ text, continuesName d = true :=
      fun d hd => List.mem_takeWhile_imp (htail ▸ hd)
    rw [if_pos hname, hrest'.takeWhile_eq (by decide) hall, htail]
  rw [if_neg hname] at h ⊢
  cases text with
  | cons d text => exact h
  | nil =>
    -- The next character made no pair with this one, and a space makes none either.
    have hsingle : l = ⟨.token (symbolKind c), [c]⟩ := by
      split at h
      · split_ifs at h
        · subst h
          cases htext
        · exact h.symm
      · exact h.symm
    rw [hsingle]
    cases rest' with
    | nil => rfl
    | cons d rest' =>
      obtain rfl := hrest' d rfl
      exact if_neg (by simp [pairs])

/-! ## Words -/

/-- The kind and the text of a lexeme that is a token. -/
def word? (l : Lexeme) : Option (TokenKind × String) :=
  match l.cls with
  | .token kind => some (kind, String.ofList l.text)
  | _ => none

theorem word?_token {l : Lexeme} {kind : TokenKind} (h : l.cls = .token kind) :
    l.word? = some (kind, String.ofList l.text) := by
  rw [word?, h]

theorem all_space (cs : List Char) : all (' ' :: cs) = ⟨.blank, [' ']⟩ :: all cs := by
  rw [all]
  rfl

/-- A token and what follows it, cut with other text behind it. -/
theorem all_token_append {cs : List Char} {kind : TokenKind} (hcls : (first c cs).cls = .token kind)
    (hend : (c :: cs).drop (first c cs).text.length = [] → rest = []) (hrest : Spaced rest) :
    all ((first c cs).text ++ rest) = first c cs :: all rest := by
  obtain ⟨d, text, htext⟩ := List.exists_cons_of_ne_nil (first_text_ne_nil c cs)
  have hcs := first_text_append c cs
  generalize (c :: cs).drop (first c cs).text.length = after at hcs hend
  rw [htext, List.cons_append] at hcs
  obtain ⟨rfl, rfl⟩ := List.cons.inj hcs
  refine all_text_append ⟨d, text ++ rest, by rw [htext, List.cons_append], ?_⟩
  exact first_respaced rfl htext hcls hend hrest

theorem all_text_first {cs : List Char} {kind : TokenKind}
    (hcls : (first c cs).cls = .token kind) : all (first c cs).text = [first c cs] := by
  have halone := all_token_append hcls (fun _ => rfl) spaced_nil
  rwa [List.append_nil, all] at halone

/-- The text of a token is cut into this token alone. -/
theorem all_text_of_mem (cs : List Char) : ∀ l ∈ all cs, ∀ kind, l.cls = .token kind →
    all l.text = [l] := by
  fun_induction all cs with
  | case1 => simp
  | case2 c cs ih =>
    intro l hl kind hcls
    rcases List.mem_cons.1 hl with rfl | hl
    · exact all_text_first hcls
    · exact ih l hl kind hcls

/-- The texts of the tokens of a text, with single spaces between them, are cut into the same
tokens. -/
theorem words_spaced (cs : List Char) :
    (all ([' '].intercalate (((all cs).filterMap word?).map (·.2.toList)))).filterMap word? =
      (all cs).filterMap word? := by
  induction cs using all.induct with
  | case1 => simp [all]
  | case2 c cs ih =>
    rw [all]
    rcases first_cases c cs with ⟨-, hfirst⟩ | ⟨hcls, -⟩ | ⟨kind, hcls⟩
    · rwa [List.filterMap_cons_none (by rw [hfirst]; rfl)]
    · rwa [List.filterMap_cons_none (by rw [word?, hcls])]
    · rw [List.filterMap_cons_some (word?_token hcls), List.map_cons, String.toList_ofList]
      cases hwords : (all ((c :: cs).drop (first c cs).text.length)).filterMap word? with
      | nil =>
        rw [List.map_nil, List.intercalate_singleton, all_text_first hcls,
          List.filterMap_cons_some (word?_token hcls), List.filterMap_nil]
      | cons w ws =>
        -- There are more words, so there is more text, and the token was closed.
        have hend : (c :: cs).drop (first c cs).text.length ≠ [] := by
          intro hnil
          rw [hnil, all] at hwords
          cases hwords
        rw [hwords, List.map_cons] at ih
        rw [List.map_cons, List.intercalate_cons_cons, List.append_assoc, List.singleton_append,
          all_token_append hcls (fun hnil => absurd hnil hend) (spaced_cons _), all_space,
          List.filterMap_cons_some (word?_token hcls), List.filterMap_cons_none rfl, ih]

end Lexeme

/-! ## Tokens -/

namespace Token

/-- What a token says, wherever it stands : its kind and its text. -/
def word (t : Token) : TokenKind × String :=
  (t.kind, t.text)

/-- The texts of the tokens but the end, with single spaces between them. -/
def spaced (ts : List Token) : String :=
  " ".intercalate ((ts.filter (·.kind ≠ .endOfInput)).map text)

theorem map_word_place : ∀ (p : Position) (pending : Option Comment) (ls : List Lexeme),
    (place p pending ls).map word = ls.filterMap Lexeme.word? ++ [(.endOfInput, "")]
  | _, _, [] => rfl
  | p, pending, l :: ls => by
    cases hcls : l.cls with
    | blank =>
      rw [place_blank hcls, map_word_place, List.filterMap_cons_none (by rw [Lexeme.word?, hcls])]
    | comment =>
      rw [place_comment hcls, map_word_place, List.filterMap_cons_none (by rw [Lexeme.word?, hcls])]
    | token kind =>
      rw [place_token hcls, List.map_cons, map_word_place,
        List.filterMap_cons_some (Lexeme.word?_token hcls)]
      rfl

theorem map_word_scan (source : String) :
    (scan source).map word =
      (Lexeme.all source.toList).filterMap Lexeme.word? ++ [(.endOfInput, "")] :=
  map_word_place _ _ _

/-- The texts of tokens are those of the lexemes that are tokens. -/
theorem toList_spaced_scan (source : String) : (spaced (scan source)).toList =
    [' '].intercalate (((Lexeme.all source.toList).filterMap Lexeme.word?).map (·.2.toList)) := by
  obtain ⟨body, e, hscan, he, hbody⟩ := scan_eq_append_ending source
  have hfilter : (scan source).filter (·.kind ≠ .endOfInput) = body := by
    rw [hscan, List.filter_append, List.filter_eq_self.2 (by simpa using hbody)]
    simp [he]
  have hwords : body.map word = (Lexeme.all source.toList).filterMap Lexeme.word? := by
    have hmap := map_word_scan source
    rw [hscan, List.map_append] at hmap
    exact (List.append_inj' hmap rfl).1
  rw [spaced, hfilter, ← hwords, String.toList_intercalate, List.map_map, List.map_map]
  rfl

/-- What stands between tokens only separates them. The texts of the tokens of a script, put
together with single spaces, have the same tokens by kind and text, those that are invalid included.
Every one of these texts is that token when it stands alone, so what a token is does not depend on
what follows its text. -/
theorem scan_spaced (source : String) :
    (scan (spaced (scan source))).map word = (scan source).map word ∧
      ∀ t ∈ scan source, t.kind ≠ .endOfInput →
        (scan t.text).map word = [t.word, (.endOfInput, "")] := by
  constructor
  · rw [map_word_scan, toList_spaced_scan, Lexeme.words_spaced, map_word_scan]
  · intro t ht hkind
    obtain ⟨l, hl, hcls, htext⟩ :=
      (exists_lexeme_of_mem_scan ht).resolve_right fun hend => hkind hend.1
    rw [map_word_scan, htext, String.toList_ofList, Lexeme.all_text_of_mem _ l hl _ hcls,
      List.filterMap_cons_some (Lexeme.word?_token hcls), ← htext]
    rfl

/-- An exponent without digits, a fraction right after a sign, a comment and a string that is not
closed. -/
theorem scan_spaced_unclosed :
    (scan "1 e + .5 \"x").map word = (scan "1e+.5/**/\"x").map word ∧
      .mk .invalid "\"x" ∈ (scan "1e+.5/**/\"x").map word ∧
      (scan ".5").map word = [(.number, ".5"), (.endOfInput, "")] := by
  have hspaced : spaced (scan "1e+.5/**/\"x") = "1 e + .5 \"x" := by decide +kernel
  have hnumber : ⟨.number, ".5", ⟨⟨1, 4⟩, ⟨1, 5⟩⟩, none⟩ ∈ scan "1e+.5/**/\"x" := by decide +kernel
  have h := scan_spaced "1e+.5/**/\"x"
  rw [hspaced] at h
  exact ⟨h.1, by decide +kernel, h.2 _ hnumber (by decide)⟩

end Token

end SqfCheck
