import SqfCheck.Token

/-!
# Lexemes

Text is cut from the left into lexemes : blanks, comments and the texts of tokens.
`Lexeme.first c cs` is the lexeme at the beginning of `c :: cs`, and `Lexeme.all` cuts a
whole text. The cut is lossless : a first lexeme is never empty (`first_text_ne_nil`) and is
a beginning of the text (`first_text_append`), so the lexemes of a text, one after the other,
are the text (`flatMap_text_all`).
-/

namespace SqfCheck

open Text

/-- What a lexeme is. -/
inductive LexemeClass where
  /-- A blank character. -/
  | blank
  /-- A complete comment. -/
  | comment
  /-- The text of a token of some kind. -/
  | token (kind : TokenKind)
deriving DecidableEq, Repr, Inhabited

/-- A piece of text with what it is. -/
structure Lexeme where
  /-- What it is. -/
  cls : LexemeClass
  /-- The characters it is made of. -/
  text : List Char
deriving DecidableEq, Repr, Inhabited

namespace Lexeme

/-! ## Where a lexeme ends -/

/-- The text up to the first `*/`, that mark included. -/
def commentBody : List Char → Option (List Char)
  | c :: d :: cs =>
    if c = '*' ∧ d = '/' then some [c, d]
    else (commentBody (d :: cs)).map (c :: ·)
  | _ => none

/-- The text up to the first `quote` that is not one of a doubled pair, that quote
included. -/
def stringBody (quote : Char) : List Char → Option (List Char)
  | [] => none
  | [c] => if c = quote then some [c] else none
  | c :: d :: cs =>
    if c = quote then
      if d = quote then (stringBody quote cs).map (c :: d :: ·) else some [c]
    else (stringBody quote (d :: cs)).map (c :: ·)

/-- The decimal point and the digits after it, if the text starts with both. -/
def fraction : List Char → List Char
  | c :: d :: cs =>
    if c = '.' ∧ d.isDigit then c :: d :: cs.takeWhile Char.isDigit else []
  | _ => []

/-- The exponent mark, its sign and its digits, if the text starts with a mark and at least
one digit. -/
def exponent : List Char → List Char
  | c :: d :: cs =>
    if c = 'e' ∨ c = 'E' then
      if d.isDigit then c :: d :: cs.takeWhile Char.isDigit
      else if d = '+' ∨ d = '-' then
        match cs with
        | n :: cs => if n.isDigit then c :: d :: n :: cs.takeWhile Char.isDigit else []
        | [] => []
      else []
    else []
  | _ => []

/-- Whether `c`, with `cs` after it, is the beginning of a number. -/
def startsNumber (c : Char) (cs : List Char) : Bool :=
  c.isDigit || (c == '$' && cs.head?.any isHexDigit) || (c == '.' && cs.head?.any Char.isDigit)

/-- The characters after `c` that belong to the number that starts there. -/
def numberTail (c : Char) (cs : List Char) : List Char :=
  if c = '$' then cs.takeWhile isHexDigit
  else if c = '0' ∧ (cs.head? = some 'x' ∨ cs.head? = some 'X') then
    cs.take 1 ++ (cs.drop 1).takeWhile isHexDigit
  else
    let digits := cs.takeWhile Char.isDigit
    let part := if c = '.' then [] else fraction (cs.dropWhile Char.isDigit)
    digits ++ part ++ exponent ((cs.dropWhile Char.isDigit).drop part.length)

/-! ## Symbols -/

/-- The operators of two characters. -/
def pairs : List (Char × Char) :=
  [('=', '='), ('!', '='), ('>', '='), ('<', '='), ('&', '&'), ('|', '|'), ('>', '>')]

/-- The operators of one character. -/
def operators : List Char :=
  ['>', '<', '!', '+', '-', '*', '/', '%', '^', '#', ':']

/-- The kind of token that the single character `c` makes. -/
def symbolKind (c : Char) : TokenKind :=
  if c = '=' then .assign
  else if c = ';' then .semicolon
  else if c = ',' then .comma
  else if c = '[' then .leftBracket
  else if c = ']' then .rightBracket
  else if c = '\x7b' then .leftBrace
  else if c = '\x7d' then .rightBrace
  else if c = '(' then .leftParen
  else if c = ')' then .rightParen
  else if c ∈ operators then .operator
  else .invalid

/-! ## Cutting -/

/-- The lexeme at the beginning of `c :: cs`. A string or a comment that is never closed
takes the rest of the text as an invalid token. -/
def first (c : Char) (cs : List Char) : Lexeme :=
  if isBlank c then ⟨.blank, [c]⟩
  else if c = '/' ∧ cs.head? = some '/' then ⟨.comment, c :: cs.takeWhile (· ≠ '\n')⟩
  else if c = '/' ∧ cs.head? = some '*' then
    match commentBody (cs.drop 1) with
    | some body => ⟨.comment, c :: '*' :: body⟩
    | none => ⟨.token .invalid, c :: cs⟩
  else if c = '"' ∨ c = '\'' then
    match stringBody c cs with
    | some body => ⟨.token .string, c :: body⟩
    | none => ⟨.token .invalid, c :: cs⟩
  else if startsNumber c cs then ⟨.token .number, c :: numberTail c cs⟩
  else if startsName c then ⟨.token .identifier, c :: cs.takeWhile continuesName⟩
  else
    match cs.head? with
    | some d =>
      if (c, d) ∈ pairs then ⟨.token .operator, [c, d]⟩ else ⟨.token (symbolKind c), [c]⟩
    | none => ⟨.token (symbolKind c), [c]⟩

theorem first_text_ne_nil (c : Char) (cs : List Char) : (first c cs).text ≠ [] := by
  unfold first
  repeat' split
  all_goals simp

/-- All lexemes of a text, from left to right. -/
def all : List Char → List Lexeme
  | [] => []
  | c :: cs => first c cs :: all ((c :: cs).drop (first c cs).text.length)
termination_by cs => cs.length
decreasing_by
  have := List.length_pos_iff.2 (first_text_ne_nil c cs)
  simp only [List.length_drop, List.length_cons]
  omega

/-! ## Nothing is lost -/

theorem isPrefix_commentBody :
    ∀ {cs body : List Char}, commentBody cs = some body → body <+: cs
  | c :: d :: cs, body, h => by
    unfold commentBody at h
    split at h
    · obtain rfl := Option.some.inj h
      simp
    · obtain ⟨t, ht, rfl⟩ := Option.map_eq_some_iff.1 h
      simpa using isPrefix_commentBody ht
  | [], _, h => by simp [commentBody] at h
  | [_], _, h => by simp [commentBody] at h

theorem isPrefix_stringBody (quote : Char) :
    ∀ {cs body : List Char}, stringBody quote cs = some body → body <+: cs
  | [], _, h => by simp [stringBody] at h
  | [c], body, h => by
    unfold stringBody at h
    split at h
    · obtain rfl := Option.some.inj h
      simp
    · simp at h
  | c :: d :: cs, body, h => by
    unfold stringBody at h
    split at h
    · split at h
      · obtain ⟨t, ht, rfl⟩ := Option.map_eq_some_iff.1 h
        simpa using isPrefix_stringBody quote ht
      · obtain rfl := Option.some.inj h
        simp
    · obtain ⟨t, ht, rfl⟩ := Option.map_eq_some_iff.1 h
      simpa using isPrefix_stringBody quote ht

theorem fraction_isPrefix (cs : List Char) : fraction cs <+: cs := by
  unfold fraction
  repeat' split
  all_goals simp [List.takeWhile_prefix]

theorem exponent_isPrefix (cs : List Char) : exponent cs <+: cs := by
  unfold exponent
  repeat' split
  all_goals simp [List.takeWhile_prefix]

/-- A beginning of a text, followed by a beginning of what is left of it, is a beginning. -/
theorem append_isPrefix {a b cs : List Char} (ha : a <+: cs) (hb : b <+: cs.drop a.length) :
    a ++ b <+: cs := by
  obtain ⟨r, rfl⟩ := ha
  simpa using hb

theorem drop_length_takeWhile (p : Char → Bool) :
    ∀ cs : List Char, cs.drop (cs.takeWhile p).length = cs.dropWhile p
  | [] => rfl
  | c :: cs => by
    rw [List.takeWhile_cons, List.dropWhile_cons]
    split
    · simpa using drop_length_takeWhile p cs
    · rfl

theorem numberTail_isPrefix (c : Char) (cs : List Char) : numberTail c cs <+: cs := by
  unfold numberTail
  split
  · exact List.takeWhile_prefix _
  split
  · conv => rhs; rw [← List.take_append_drop 1 cs]
    simpa using List.takeWhile_prefix _
  · refine append_isPrefix (append_isPrefix (List.takeWhile_prefix _) ?_) ?_
    · rw [drop_length_takeWhile]
      split
      · simp
      · exact fraction_isPrefix _
    · rw [List.length_append, ← List.drop_drop, drop_length_takeWhile]
      exact exponent_isPrefix _

theorem first_text_isPrefix (c : Char) (cs : List Char) : (first c cs).text <+: c :: cs := by
  unfold first
  split
  · simp
  split
  · simpa using List.takeWhile_prefix _
  split
  · next h =>
    split
    · next body hb =>
      obtain ⟨d, ds, rfl⟩ : ∃ d ds, cs = d :: ds := by
        cases cs <;> simp_all
      have hd : d = '*' := by simpa using h.2
      simpa [hd] using isPrefix_commentBody hb
    · simp
  split
  · split
    · next body hb => simpa using isPrefix_stringBody c hb
    · simp
  split
  · simpa using numberTail_isPrefix c cs
  split
  · simpa using List.takeWhile_prefix _
  · split
    · next d hd =>
      obtain ⟨ds, rfl⟩ : ∃ ds, cs = d :: ds := by
        cases cs <;> simp_all
      split <;> simp
    · simp

/-- The first lexeme and what is left after it make up the text. -/
theorem first_text_append (c : Char) (cs : List Char) :
    (first c cs).text ++ (c :: cs).drop (first c cs).text.length = c :: cs := by
  obtain ⟨r, hr⟩ := first_text_isPrefix c cs
  rw [← hr]
  simp

/-- The lexemes of a text, one after the other, are the text. -/
theorem flatMap_text_all (cs : List Char) : (all cs).flatMap Lexeme.text = cs := by
  fun_induction all cs with
  | case1 => rfl
  | case2 c cs ih => rw [List.flatMap_cons, ih, first_text_append]

end Lexeme

end SqfCheck
