import Mathlib
import SqfCheck.Proofs.Places
import SqfCheck.Proofs.Respacing

/-!
# Longest matches

A token takes as much of the text as it can. `Spelling` gives the languages of names, of numbers and
of symbols, as expressions over classes of characters, and the text of a token is the longest
beginning of what is left of the script that is in the language of its kind (`IsLongest`). A token
that is invalid is a string or a comment that is never closed and takes all that is left, or a
single character at which nothing else begins (`Token.matches_scan`).

Names and symbols are cut by looking at their next character. The text of a number is known by its
form (`Lexeme.IsNumberTail`), and `Lexeme.numberTail` commits to a fraction or an exponent only if
there is a digit for it. So a longer number would have to go on with a part that
`Lexeme.numberTail` takes as well (`Lexeme.isPrefix_numberTail`).
-/

namespace SqfCheck

open Text
open scoped Computability

/-! ## Languages of tokens -/

namespace Spelling

/-- The single characters from `a` to `b`. -/
def between (a b : Char) : Language Char :=
  {w | ∃ c, w = [c] ∧ a ≤ c ∧ c ≤ b}

/-- A decimal digit. -/
def digit : Language Char :=
  between '0' '9'

/-- A hexadecimal digit. -/
def hexDigit : Language Char :=
  digit + between 'a' 'f' + between 'A' 'F'

/-- A letter or an underscore. -/
def letter : Language Char :=
  between 'A' 'Z' + between 'a' 'z' + {['_']}

/-- Names. -/
def names : Language Char :=
  letter * (letter + digit)∗

/-- A decimal point and digits. -/
def fraction : Language Char :=
  {['.']} * (digit * digit∗)

/-- A mark, a sign or none, and digits. -/
def exponent : Language Char :=
  ({['e']} + {['E']}) * (1 + {['+']} + {['-']}) * (digit * digit∗)

/-- Hexadecimal numbers, after a zero and an `x` or after a dollar sign. -/
def hexadecimals : Language Char :=
  {['0']} * ({['x']} + {['X']}) * hexDigit∗ + {['$']} * (hexDigit * hexDigit∗)

/-- Decimal numbers, with digits before the point or behind it. -/
def decimals : Language Char :=
  (digit * digit∗ * (1 + fraction) + fraction) * (1 + exponent)

/-- Numbers. -/
def numbers : Language Char :=
  hexadecimals + decimals

/-- The operators and the punctuation. -/
def symbolTexts : List String :=
  ["==", "!=", ">=", "<=", "&&", "||", ">>", ">", "<", "!", "+", "-", "*", "/", "%", "^", "#", ":",
    "=", ";", ",", "[", "]", "\x7b", "\x7d", "(", ")"]

/-- Operators and punctuation. -/
def symbols : Language Char :=
  {w | w ∈ symbolTexts.map String.toList}

/-- A single character of a class. -/
def one (p : Char → Bool) : Language Char :=
  {w | ∃ c, w = [c] ∧ p c = true}

/-! ## Classes of characters -/

theorem between_eq (a b : Char) : between a b = one fun c => decide (a ≤ c) && decide (c ≤ b) := by
  ext w
  refine exists_congr fun c => and_congr_right fun _ => ?_
  rw [Bool.and_eq_true, decide_eq_true_eq, decide_eq_true_eq]

theorem singleton_eq (d : Char) : ({[d]} : Language Char) = one (· == d) := by
  ext w
  constructor
  · rintro rfl
    exact ⟨d, rfl, beq_self_eq_true d⟩
  · rintro ⟨c, rfl, hc⟩
    exact congrArg (fun c => [c]) (eq_of_beq hc)

theorem one_add (p q : Char → Bool) : one p + one q = one fun c => p c || q c := by
  ext w
  rw [Language.mem_add]
  constructor
  · rintro (⟨c, rfl, hc⟩ | ⟨c, rfl, hc⟩) <;> exact ⟨c, rfl, by simp [hc]⟩
  · rintro ⟨c, rfl, hc⟩
    exact (Bool.or_eq_true_iff.1 hc).imp (⟨c, rfl, ·⟩) (⟨c, rfl, ·⟩)

theorem digit_eq : digit = one Char.isDigit :=
  between_eq '0' '9'

theorem hexDigit_eq : hexDigit = one isHexDigit := by
  rw [hexDigit, digit_eq, between_eq, between_eq, one_add, one_add]
  rfl

theorem letter_eq : letter = one startsName := by
  rw [letter, between_eq, between_eq, singleton_eq, one_add, one_add]
  congr 1
  funext c
  rw [startsName, Char.isAlpha, Char.isUpper, Bool.decide_and]
  rfl

theorem letter_add_digit_eq : letter + digit = one continuesName := by
  rw [letter_eq, digit_eq, one_add]
  congr 1
  funext c
  rw [startsName, continuesName, Char.isAlphanum, Bool.or_right_comm]

theorem mem_star_one {p : Char → Bool} {w : List Char} :
    w ∈ (one p)∗ ↔ ∀ c ∈ w, p c = true := by
  rw [Language.mem_kstar]
  constructor
  · rintro ⟨parts, rfl, hparts⟩ c hc
    obtain ⟨part, hpart, hc⟩ := List.mem_flatten.1 hc
    obtain ⟨d, rfl, hd⟩ := hparts part hpart
    rwa [List.mem_singleton.1 hc]
  · intro h
    refine ⟨w.map fun c => [c], by simp [← List.flatMap_def], fun part hpart => ?_⟩
    obtain ⟨c, hc, rfl⟩ := List.mem_map.1 hpart
    exact ⟨c, rfl, h c hc⟩

theorem mem_one_mul {p : Char → Bool} {L : Language Char} {w : List Char} :
    w ∈ one p * L ↔ ∃ c v, w = c :: v ∧ p c = true ∧ v ∈ L := by
  rw [Language.mem_mul]
  constructor
  · rintro ⟨_, ⟨c, rfl, hc⟩, v, hv, rfl⟩
    exact ⟨c, v, rfl, hc, hv⟩
  · rintro ⟨c, v, rfl, hc, hv⟩
    exact ⟨[c], ⟨c, rfl, hc⟩, v, hv, rfl⟩

theorem mem_singleton_mul {u : List Char} {L : Language Char} {w : List Char} :
    w ∈ {u} * L ↔ ∃ v ∈ L, w = u ++ v := by
  rw [Language.mem_mul]
  constructor
  · rintro ⟨_, rfl, v, hv, rfl⟩
    exact ⟨v, hv, rfl⟩
  · rintro ⟨v, hv, rfl⟩
    exact ⟨u, rfl, v, hv, rfl⟩

/-- A row of characters of a class, at least one. -/
theorem mem_one_mul_star {p : Char → Bool} {w : List Char} :
    w ∈ one p * (one p)∗ ↔ w ≠ [] ∧ ∀ c ∈ w, p c = true := by
  rw [mem_one_mul]
  constructor
  · rintro ⟨c, v, rfl, hc, hv⟩
    exact ⟨List.cons_ne_nil c v, List.forall_mem_cons.2 ⟨hc, mem_star_one.1 hv⟩⟩
  · rintro ⟨hne, hw⟩
    obtain ⟨c, v, rfl⟩ := List.exists_cons_of_ne_nil hne
    obtain ⟨hc, hv⟩ := List.forall_mem_cons.1 hw
    exact ⟨c, v, rfl, hc, mem_star_one.2 hv⟩

/-! ## The form of words -/

theorem mem_names {w : List Char} : w ∈ names ↔
    ∃ c v, w = c :: v ∧ startsName c = true ∧ ∀ d ∈ v, continuesName d = true := by
  rw [names, letter_add_digit_eq, letter_eq, mem_one_mul]
  simp only [mem_star_one]

theorem mem_digits {w : List Char} : w ∈ digit * digit∗ ↔ Lexeme.IsDigits w := by
  rw [digit_eq]
  exact mem_one_mul_star

theorem mem_fraction {w : List Char} :
    w ∈ fraction ↔ ∃ digits, w = '.' :: digits ∧ Lexeme.IsDigits digits := by
  simp only [fraction, mem_singleton_mul, mem_digits]
  exact exists_congr fun digits => and_comm

theorem mem_optional_fraction {w : List Char} : w ∈ 1 + fraction ↔ Lexeme.IsFraction w := by
  rw [Language.mem_add, Language.mem_one, mem_fraction]
  constructor
  · rintro (rfl | ⟨digits, rfl, h⟩)
    · exact .none
    · exact .some h
  · rintro (_ | h)
    · exact .inl rfl
    · exact .inr ⟨_, rfl, h⟩

theorem mem_optional_exponent {w : List Char} : w ∈ 1 + exponent ↔ Lexeme.IsExponent w := by
  rw [Language.mem_add, Language.mem_one, exponent, mul_assoc, singleton_eq, singleton_eq, one_add,
    mem_one_mul]
  constructor
  · rintro (rfl | ⟨mark, v, rfl, hmark, hv⟩)
    · exact .none
    · obtain ⟨sign, hsign, digits, hdigits, rfl⟩ := Language.mem_mul.1 hv
      rw [Language.mem_add, Language.mem_add, Language.mem_one, or_assoc] at hsign
      exact .some (by simpa using hmark) hsign (mem_digits.1 hdigits)
  · rintro (_ | ⟨hmark, hsign, h⟩)
    · exact .inl rfl
    · refine .inr ⟨_, _, rfl, by simpa using hmark, ?_⟩
      refine Language.append_mem_mul ?_ (mem_digits.2 h)
      rw [Language.mem_add, Language.mem_add, Language.mem_one, or_assoc]
      exact hsign

theorem mem_hexadecimals {w : List Char} : w ∈ hexadecimals ↔
    (∃ x digits, w = '0' :: x :: digits ∧ (x = 'x' ∨ x = 'X') ∧ ∀ d ∈ digits, isHexDigit d = true) ∨
      ∃ digits, w = '$' :: digits ∧ digits ≠ [] ∧ ∀ d ∈ digits, isHexDigit d = true := by
  rw [hexadecimals, hexDigit_eq, mul_assoc, singleton_eq 'x', singleton_eq 'X', one_add,
    Language.mem_add, mem_singleton_mul, mem_singleton_mul]
  refine or_congr ?_ ?_
  · constructor
    · rintro ⟨_, hv, rfl⟩
      obtain ⟨x, digits, rfl, hx, hdigits⟩ := mem_one_mul.1 hv
      exact ⟨x, digits, rfl, by simpa using hx, mem_star_one.1 hdigits⟩
    · rintro ⟨x, digits, rfl, hx, hdigits⟩
      exact ⟨x :: digits, mem_one_mul.2 ⟨x, digits, rfl, by simpa using hx, mem_star_one.2 hdigits⟩,
        rfl⟩
  · refine exists_congr fun digits => ?_
    rw [mem_one_mul_star, and_comm]
    rfl

theorem mem_decimals {w : List Char} : w ∈ decimals ↔
    ∃ c digits part power, w = c :: (digits ++ (part ++ power)) ∧
      (∀ d ∈ digits, d.isDigit = true) ∧ Lexeme.IsFraction part ∧ Lexeme.IsExponent power ∧
      (c.isDigit = true ∨ c = '.' ∧ digits ≠ [] ∧ part = []) := by
  rw [decimals, Language.mem_mul]
  constructor
  · rintro ⟨v, hv, power, hpower, rfl⟩
    have hpower := mem_optional_exponent.1 hpower
    rcases (Language.mem_add _ _ _).1 hv with hv | hv
    · rw [digit_eq, mul_assoc, mem_one_mul] at hv
      obtain ⟨c, _, rfl, hc, hv⟩ := hv
      obtain ⟨digits, hdigits, part, hpart, rfl⟩ := Language.mem_mul.1 hv
      exact ⟨c, digits, part, power, by simp, mem_star_one.1 hdigits, mem_optional_fraction.1 hpart,
        hpower, .inl hc⟩
    · obtain ⟨digits, rfl, hne, hdigits⟩ := mem_fraction.1 hv
      exact ⟨'.', digits, [], power, by simp, hdigits, .none, hpower, .inr ⟨rfl, hne, rfl⟩⟩
  · rintro ⟨c, digits, part, power, rfl, hdigits, hpart, hpower, hc⟩
    refine ⟨c :: (digits ++ part), ?_, power, mem_optional_exponent.2 hpower, by simp⟩
    rw [Language.mem_add]
    rcases hc with hc | ⟨rfl, hne, rfl⟩
    · rw [digit_eq, mul_assoc, mem_one_mul]
      refine .inl ⟨c, digits ++ part, rfl, hc, ?_⟩
      exact Language.append_mem_mul (mem_star_one.2 hdigits) (mem_optional_fraction.2 hpart)
    · exact .inr (mem_fraction.2 ⟨digits, by simp, hne, hdigits⟩)

/-- A number begins a number with its first character and has the form of one after it. -/
theorem mem_numbers {w : List Char} : w ∈ numbers ↔ ∃ c tail, w = c :: tail ∧
    Lexeme.startsNumber c tail = true ∧ Lexeme.IsNumberTail c tail := by
  rw [numbers, Language.mem_add, mem_hexadecimals, mem_decimals]
  constructor
  · rintro ((⟨x, digits, rfl, hx, hdigits⟩ | ⟨digits, rfl, hne, hdigits⟩) |
      ⟨c, digits, part, power, rfl, hdigits, hpart, hpower, hc⟩)
    · exact ⟨'0', _, rfl, rfl, .hexadecimal rfl hx hdigits⟩
    · obtain ⟨d, digits, rfl⟩ := List.exists_cons_of_ne_nil hne
      have hd := hdigits d List.mem_cons_self
      exact ⟨'$', _, rfl, by simp [Lexeme.startsNumber, hd], .dollar rfl hdigits⟩
    · refine ⟨c, _, rfl, ?_, .decimal ?_ hdigits hpart ?_ hpower⟩
      · rcases hc with hc | ⟨rfl, hne, rfl⟩
        · simp [Lexeme.startsNumber, hc]
        · obtain ⟨d, digits, rfl⟩ := List.exists_cons_of_ne_nil hne
          have hd := hdigits d List.mem_cons_self
          simp [Lexeme.startsNumber, hd]
      · rintro rfl
        rcases hc with hc | ⟨hc, -⟩ <;> cases hc
      · rintro rfl
        rcases hc with hc | ⟨-, -, hnone⟩
        · cases hc
        · exact hnone
  · rintro ⟨c, tail, rfl, hstarts, htail⟩
    cases htail with
    | dollar hc hdigits =>
      subst hc
      refine .inl (.inr ⟨tail, rfl, ?_, hdigits⟩)
      rintro rfl
      cases hstarts
    | @hexadecimal x digits hc hx hdigits =>
      subst hc
      exact .inl (.inl ⟨x, digits, rfl, hx, hdigits⟩)
    | @decimal digits part power hc hdigits hpart hpoint hpower =>
      refine .inr ⟨c, digits, part, power, rfl, hdigits, hpart, hpower, ?_⟩
      simp only [Lexeme.startsNumber, Bool.or_eq_true, Bool.and_eq_true, beq_iff_eq,
        Option.any_eq_true] at hstarts
      rcases hstarts with (hdigit | ⟨rfl, -⟩) | ⟨rfl, d, hd, hdigit⟩
      · exact .inl hdigit
      · exact absurd rfl hc
      · -- a digit follows the point, and an exponent does not begin with one
        refine .inr ⟨rfl, ?_, hpoint rfl⟩
        rintro rfl
        rw [hpoint rfl, List.nil_append, List.nil_append] at hd
        cases hpower with
        | none => cases hd
        | some hmark =>
          obtain rfl := Option.some.inj hd
          rcases hmark with rfl | rfl <;> cases hdigit

theorem symbolKind_ne_invalid {c : Char} (h : Lexeme.symbolKind c ≠ .invalid) :
    c ∈ Lexeme.punctuation ++ Lexeme.operators := by
  by_cases hc : c ∈ Lexeme.punctuation
  · exact List.mem_append_left _ hc
  · rw [Lexeme.symbolKind_of_not_mem hc] at h
    exact List.mem_append_right _ (by_contra fun hop => h (if_neg hop))

theorem mem_symbols {w : List Char} : w ∈ symbols ↔
    (∃ c d, w = [c, d] ∧ (c, d) ∈ Lexeme.pairs) ∨
      ∃ c, w = [c] ∧ Lexeme.symbolKind c ≠ .invalid := by
  constructor
  · intro hw
    have hall : (symbolTexts.map String.toList).all (fun w =>
        (w.length = 2 ∧ w.zip w.tail ⊆ Lexeme.pairs) ∨
          (w.length = 1 ∧ w.all (Lexeme.symbolKind · ≠ .invalid))) = true := by decide +kernel
    rcases of_decide_eq_true (List.all_eq_true.1 hall w hw) with ⟨hlength, hpair⟩ | ⟨hlength, hkind⟩
    · obtain ⟨c, d, rfl⟩ := List.length_eq_two.1 hlength
      exact .inl ⟨c, d, rfl, by simpa using hpair⟩
    · obtain ⟨c, rfl⟩ := List.length_eq_one_iff.1 hlength
      exact .inr ⟨c, rfl, by simpa using hkind⟩
  · rintro (⟨c, d, rfl, hpair⟩ | ⟨c, rfl, hkind⟩)
    · have hall : Lexeme.pairs.all
          (fun p => [p.1, p.2] ∈ symbolTexts.map String.toList) = true := by decide +kernel
      show [c, d] ∈ symbolTexts.map String.toList
      exact of_decide_eq_true (List.all_eq_true.1 hall _ hpair)
    · have hall : (Lexeme.punctuation ++ Lexeme.operators).all
          (fun c => [c] ∈ symbolTexts.map String.toList) = true := by decide +kernel
      show [c] ∈ symbolTexts.map String.toList
      exact of_decide_eq_true (List.all_eq_true.1 hall _ (symbolKind_ne_invalid hkind))

end Spelling

/-! ## Longest beginnings -/

/-- The text is the longest beginning of `cs` in the language. -/
structure IsLongest (L : Language Char) (text cs : List Char) : Prop where
  mem : text ∈ L
  isPrefix : text <+: cs
  longest : ∀ w ∈ L, w <+: cs → w.length ≤ text.length

/-- Some word of the language is a beginning of `cs`. -/
def BeginsIn (L : Language Char) (cs : List Char) : Prop :=
  ∃ w ∈ L, w <+: cs

namespace Lexeme

open Spelling

/-- A row of characters of a class at the beginning of a text is taken with the characters of the
class there. -/
theorem isPrefix_takeWhile {p : Char → Bool} {w cs : List Char} (hw : ∀ c ∈ w, p c = true)
    (h : w <+: cs) : w <+: cs.takeWhile p := by
  obtain ⟨rest, rfl⟩ := h
  rw [List.takeWhile_append_of_pos hw]
  exact List.prefix_append _ _

theorem isPrefix_fraction {part rest : List Char} (h : IsFraction part) :
    part <+: fraction (part ++ rest) := by
  cases h with
  | none => exact List.nil_prefix
  | @some digits h =>
    obtain ⟨hne, hall⟩ := h
    obtain ⟨d, digits, rfl⟩ := List.exists_cons_of_ne_nil hne
    obtain ⟨hd, hdigits⟩ := List.forall_mem_cons.1 hall
    rw [List.cons_append, List.cons_append, fraction, if_pos ⟨rfl, hd⟩]
    simpa using isPrefix_takeWhile hdigits (List.prefix_append _ _)

theorem isPrefix_exponent {power rest : List Char} (h : IsExponent power) :
    power <+: exponent (power ++ rest) := by
  cases h with
  | none => exact List.nil_prefix
  | @some mark sign digits hmark hsign h =>
    obtain ⟨hne, hall⟩ := h
    obtain ⟨d, digits, rfl⟩ := List.exists_cons_of_ne_nil hne
    obtain ⟨hd, hdigits⟩ := List.forall_mem_cons.1 hall
    have hrow : digits <+: (digits ++ rest).takeWhile Char.isDigit :=
      isPrefix_takeWhile hdigits (List.prefix_append _ _)
    rcases hsign with rfl | rfl | rfl <;> simpa [exponent, hmark, hd] using hrow

theorem IsExponent.head_of_ne_nil {power : List Char} (h : IsExponent power) (hne : power ≠ [])
    (rest : List Char) : ∀ d ∈ (power ++ rest).head?, d.isDigit = false ∧ d ≠ '.' := by
  intro d hd
  cases h with
  | none => exact absurd rfl hne
  | some hmark =>
    obtain rfl := Option.some.inj hd
    rcases hmark with rfl | rfl <;> decide

/-- What makes a decimal number at the beginning of a text is taken. -/
theorem isPrefix_decimal {c : Char} {digits part power rest : List Char}
    (hdigits : ∀ d ∈ digits, d.isDigit = true) (hpart : IsFraction part)
    (hpoint : c = '.' → part = []) (hpower : IsExponent power) :
    let cs := digits ++ (part ++ (power ++ rest))
    let taken := if c = '.' then [] else fraction (cs.dropWhile Char.isDigit)
    digits ++ (part ++ power) <+: cs.takeWhile Char.isDigit ++ taken ++
      exponent ((cs.dropWhile Char.isDigit).drop taken.length) := by
  intro cs taken
  by_cases hnone : part = [] ∧ power = []
  · have hrow : digits <+: cs.takeWhile Char.isDigit :=
      isPrefix_takeWhile hdigits (List.prefix_append _ _)
    rw [hnone.1, hnone.2, List.append_nil, List.append_nil, List.append_assoc]
    exact hrow.trans (List.prefix_append _ _)
  · -- The digits end where the fraction or the exponent begins.
    have hstop : ∀ d ∈ (part ++ (power ++ rest)).head?, d.isDigit = false := by
      intro d hd
      cases hpart with
      | none => exact (hpower.head_of_ne_nil (fun h => hnone ⟨rfl, h⟩) rest d hd).1
      | some =>
        obtain rfl := Option.some.inj hd
        rfl
    have hdrop : cs.dropWhile Char.isDigit = part ++ (power ++ rest) :=
      dropWhile_append_eq hdigits hstop
    rw [show cs.takeWhile Char.isDigit = digits from takeWhile_append_eq hdigits hstop,
      List.append_assoc, List.prefix_append_right_inj]
    by_cases hpow : power = []
    · have hc : c ≠ '.' := fun hc => hnone ⟨hpoint hc, hpow⟩
      have htaken : part <+: taken := by
        rw [show taken = fraction (cs.dropWhile Char.isDigit) from if_neg hc, hdrop]
        exact isPrefix_fraction hpart
      rw [hpow, List.append_nil]
      exact htaken.trans (List.prefix_append _ _)
    · have htaken : taken = part := by
        by_cases hc : c = '.'
        · rw [hpoint hc]
          exact if_pos hc
        · rw [show taken = fraction (cs.dropWhile Char.isDigit) from if_neg hc, hdrop]
          exact fraction_append hpart (hpower.head_of_ne_nil hpow rest)
      rw [htaken, hdrop, List.drop_left, List.prefix_append_right_inj]
      exact isPrefix_exponent hpower

/-- What makes a number at the beginning of a text is taken. -/
theorem isPrefix_numberTail {c : Char} {tail rest : List Char} (h : IsNumberTail c tail) :
    tail <+: numberTail c (tail ++ rest) := by
  cases h with
  | dollar hc hdigits =>
    rw [numberTail, if_pos hc]
    exact isPrefix_takeWhile hdigits (List.prefix_append _ _)
  | hexadecimal hc hx hdigits =>
    subst hc
    have hrow := isPrefix_takeWhile hdigits (List.prefix_append _ rest)
    simpa [numberTail, hx] using hrow
  | @decimal digits part power hc hdigits hpart hpoint hpower =>
    rw [numberTail, if_neg hc]
    by_cases hhex : c = '0' ∧ ((digits ++ (part ++ power) ++ rest).head? = some 'x' ∨
        (digits ++ (part ++ power) ++ rest).head? = some 'X')
    · -- a decimal number does not go on with an `x`
      have hhead := head_ne_of_decimal hpart hpower spaced_nil hdigits
      rw [List.append_nil] at hhead
      rcases htail : digits ++ (part ++ power) with _ | ⟨d, tail⟩
      · exact List.nil_prefix
      · rw [htail] at hhead hhex
        obtain ⟨hx, hX⟩ := hhead d rfl
        exact absurd hhex.2 (by simp [hx, hX])
    · have hcs : digits ++ (part ++ power) ++ rest = digits ++ (part ++ (power ++ rest)) := by
        rw [List.append_assoc, List.append_assoc]
      rw [if_neg hhex, hcs]
      exact isPrefix_decimal hdigits hpart hpoint hpower

/-! ## Tokens and their languages -/

theorem isLongest_number {c : Char} {cs : List Char} (h : startsNumber c cs = true) :
    IsLongest numbers (c :: numberTail c cs) (c :: cs) where
  mem := by
    obtain ⟨rest, hrest⟩ := numberTail_isPrefix c cs
    have hcut : numberTail c (numberTail c cs ++ rest) = numberTail c cs := by rw [hrest]
    have hstarts : startsNumber c (numberTail c cs ++ []) = true := by
      rw [← hrest] at h
      exact startsNumber_of_numberTail h hcut
    rw [List.append_nil] at hstarts
    exact mem_numbers.2 ⟨c, _, rfl, hstarts, isNumberTail_numberTail c cs⟩
  isPrefix := (List.prefix_cons_inj c).2 (numberTail_isPrefix c cs)
  longest w hw hprefix := by
    obtain ⟨d, tail, rfl, -, htail⟩ := mem_numbers.1 hw
    obtain ⟨rfl, rest, rfl⟩ := List.cons_prefix_cons.1 hprefix
    exact Nat.succ_le_succ (isPrefix_numberTail htail).length_le

theorem not_beginsIn_numbers {c : Char} {cs : List Char} (h : ¬startsNumber c cs = true) :
    ¬BeginsIn numbers (c :: cs) := by
  rintro ⟨w, hw, hprefix⟩
  obtain ⟨d, tail, rfl, hstarts, -⟩ := mem_numbers.1 hw
  obtain ⟨rfl, rest, rfl⟩ := List.cons_prefix_cons.1 hprefix
  refine h ?_
  cases tail with
  | nil =>
    have hdigit : d.isDigit = true := by simpa [startsNumber] using hstarts
    simp [startsNumber, hdigit]
  | cons e tail => exact hstarts

theorem isLongest_name {c : Char} {cs : List Char} (h : startsName c = true) :
    IsLongest names (c :: cs.takeWhile continuesName) (c :: cs) where
  mem := mem_names.2 ⟨c, _, rfl, h, fun _ hd => List.mem_takeWhile_imp hd⟩
  isPrefix := (List.prefix_cons_inj c).2 (List.takeWhile_prefix _)
  longest w hw hprefix := by
    obtain ⟨d, v, rfl, -, hv⟩ := mem_names.1 hw
    obtain ⟨-, hv'⟩ := List.cons_prefix_cons.1 hprefix
    exact Nat.succ_le_succ (isPrefix_takeWhile hv hv').length_le

theorem not_beginsIn_names {c : Char} {cs : List Char} (h : ¬startsName c = true) :
    ¬BeginsIn names (c :: cs) := by
  rintro ⟨w, hw, hprefix⟩
  obtain ⟨d, v, rfl, hd, -⟩ := mem_names.1 hw
  obtain ⟨rfl, -⟩ := List.cons_prefix_cons.1 hprefix
  exact h hd

theorem isLongest_pair {c d : Char} {cs : List Char} (h : (c, d) ∈ pairs) :
    IsLongest symbols [c, d] (c :: d :: cs) where
  mem := mem_symbols.2 (.inl ⟨c, d, rfl, h⟩)
  isPrefix := List.prefix_append [c, d] cs
  longest w hw _ := by
    obtain ⟨a, b, rfl, -⟩ | ⟨a, rfl, -⟩ := mem_symbols.1 hw <;> simp

/-- Where no pair begins, a symbol is a single character. -/
theorem eq_of_mem_symbols {c : Char} {cs w : List Char} (hpair : ∀ d ∈ cs.head?, (c, d) ∉ pairs)
    (hw : w ∈ symbols) (h : w <+: c :: cs) : w = [c] ∧ symbolKind c ≠ .invalid := by
  obtain ⟨a, b, rfl, hab⟩ | ⟨a, rfl, ha⟩ := mem_symbols.1 hw
  · obtain ⟨rfl, rest, rfl⟩ := List.cons_prefix_cons.1 h
    exact absurd hab (hpair b rfl)
  · obtain ⟨rfl, -⟩ := List.cons_prefix_cons.1 h
    exact ⟨rfl, ha⟩

theorem isLongest_symbol {c : Char} {cs : List Char} (hkind : symbolKind c ≠ .invalid)
    (hpair : ∀ d ∈ cs.head?, (c, d) ∉ pairs) : IsLongest symbols [c] (c :: cs) where
  mem := mem_symbols.2 (.inr ⟨c, rfl, hkind⟩)
  isPrefix := List.prefix_append [c] cs
  longest w hw hprefix := by rw [(eq_of_mem_symbols hpair hw hprefix).1]

end Lexeme

/-! ## What a token is -/

/-- The text is a string literal that is closed where `rest` follows it. -/
def IsClosedString (rest text : List Char) : Prop :=
  ∃ quote s, (quote = '"' ∨ quote = '\'') ∧ text = quoteString quote s ∧ rest.head? ≠ some quote

/-- A string or a comment between marks begins with the text and is not closed in it. -/
inductive Unclosed (cs : List Char) : Prop where
  | string (hopen : ∃ quote, (quote = '"' ∨ quote = '\'') ∧ cs.head? = some quote)
    (hclosed : ¬∃ text rest, cs = text ++ rest ∧ IsClosedString rest text)
  | comment (hopen : ['/', '*'] <+: cs)
    (hclosed : ¬∃ text rest, cs = text ++ rest ∧ IsComment rest text)

/-- Nothing begins with the text : no blank, no string, no comment and no token of the languages. -/
structure BeginsNothing (cs : List Char) : Prop where
  blank : ∀ c ∈ cs.head?, isBlank c = false
  string : ∀ c ∈ cs.head?, c ≠ '"' ∧ c ≠ '\''
  comment : ¬['/', '/'] <+: cs ∧ ¬['/', '*'] <+: cs
  names : ¬BeginsIn Spelling.names cs
  numbers : ¬BeginsIn Spelling.numbers cs
  symbols : ¬BeginsIn Spelling.symbols cs

/-- What the text of a token is where `cs` is left of the script. -/
def TokenKind.Matches (kind : TokenKind) (text cs : List Char) : Prop :=
  match kind with
  | .identifier => IsLongest Spelling.names text cs
  | .number => IsLongest Spelling.numbers text cs
  | .string => ∃ rest, cs = text ++ rest ∧ IsClosedString rest text
  | .invalid => text = cs ∧ Unclosed cs ∨ ∃ c, text = [c] ∧ [c] <+: cs ∧ BeginsNothing cs
  | .endOfInput => False
  | _ => IsLongest Spelling.symbols text cs

theorem pair_isPrefix_iff {a b c : Char} {cs : List Char} :
    [a, b] <+: c :: cs ↔ c = a ∧ cs.head? = some b := by
  cases cs with
  | nil => simp
  | cons d cs => simp [eq_comm]

namespace Lexeme

open Spelling

variable {c : Char} {cs : List Char}

/-- A character that is a symbol makes a token of a kind that only symbols have. -/
theorem matches_symbolKind (hkind : symbolKind c ≠ .invalid)
    (hpair : ∀ d ∈ cs.head?, (c, d) ∉ pairs) : (symbolKind c).Matches [c] (c :: cs) := by
  have hall : (punctuation ++ operators).all (fun c => symbolKind c ∉
      [.identifier, .number, .string, .invalid, .endOfInput]) = true := by decide +kernel
  have hsymbol := of_decide_eq_true (List.all_eq_true.1 hall c (symbolKind_ne_invalid hkind))
  have hlongest := isLongest_symbol hkind hpair
  revert hsymbol
  cases symbolKind c with
  | identifier | number | string | invalid | endOfInput => simp
  | _ => exact fun _ => hlongest

/-- A string is closed as its body says. -/
theorem isClosedString_iff {text rest : List Char} (hquote : c = '"' ∨ c = '\'')
    (hcs : c :: cs = text ++ rest) : IsClosedString rest text ↔
      ∃ body, text = c :: body ∧ stringBody c cs = some body := by
  constructor
  · rintro ⟨quote, s, -, rfl, hrest⟩
    obtain ⟨rfl, rfl⟩ := List.cons.inj hcs
    exact ⟨_, rfl, stringBody_eq_some_iff.2 ⟨s, rest, rfl, rfl, hrest⟩⟩
  · rintro ⟨body, rfl, hbody⟩
    obtain ⟨s, after, rfl, rfl, hafter⟩ := stringBody_eq_some_iff.1 hbody
    obtain rfl := List.append_cancel_left (List.cons.inj hcs).2
    exact ⟨c, s, hquote, rfl, hafter⟩

theorem matches_comment {kind : TokenKind} (hopen : c = '/' ∧ cs.head? = some '*')
    (h : (first c cs).cls = .token kind) : kind.Matches (first c cs).text (c :: cs) := by
  have hclosed : ¬∃ text rest, c :: cs = text ++ rest ∧ IsComment rest text := by
    rintro ⟨text, rest, hcs, hcomment⟩
    rw [cls_first_of_isComment hcomment hcs] at h
    cases h
  have hblank : ¬isBlank c = true := by
    rw [hopen.1]
    decide
  have hline : ¬(c = '/' ∧ cs.head? = some '/') := by
    rw [hopen.2]
    simp
  rw [first, if_neg hblank, if_neg hline, if_pos hopen] at h ⊢
  cases hbody : commentBody (cs.drop 1) with
  | some body =>
    rw [hbody] at h
    cases h
  | none =>
    rw [hbody] at h
    cases h
    exact .inl ⟨rfl, .comment (pair_isPrefix_iff.2 hopen) hclosed⟩

theorem matches_quote {kind : TokenKind} (hquote : c = '"' ∨ c = '\'')
    (h : (first c cs).cls = .token kind) : kind.Matches (first c cs).text (c :: cs) := by
  rw [first_quote hquote] at h ⊢
  cases hbody : stringBody c cs with
  | some body =>
    rw [hbody] at h
    cases h
    obtain ⟨rest, hrest⟩ := isPrefix_stringBody c hbody
    have hcs : c :: cs = c :: body ++ rest := by rw [← hrest, List.cons_append]
    exact ⟨rest, hcs, (isClosedString_iff hquote hcs).2 ⟨body, rfl, hbody⟩⟩
  | none =>
    rw [hbody] at h
    cases h
    refine .inl ⟨rfl, .string ⟨c, hquote, rfl⟩ ?_⟩
    rintro ⟨text, rest, hcs, hclosed⟩
    obtain ⟨body, -, hsome⟩ := (isClosedString_iff hquote hcs).1 hclosed
    rw [hbody] at hsome
    cases hsome

/-- The first lexeme of a text, if it is a token, is what a token of its kind is. -/
theorem matches_first {kind : TokenKind} (h : (first c cs).cls = .token kind) :
    kind.Matches (first c cs).text (c :: cs) := by
  by_cases hblock : c = '/' ∧ cs.head? = some '*'
  · exact matches_comment hblock h
  by_cases hquote : c = '"' ∨ c = '\''
  · exact matches_quote hquote h
  have hblank : ¬isBlank c = true := by
    intro hblank
    rw [first, if_pos hblank] at h
    cases h
  have hline : ¬(c = '/' ∧ cs.head? = some '/') := by
    intro hline
    rw [first, if_neg hblank, if_pos hline] at h
    cases h
  by_cases hnumber : startsNumber c cs = true
  · rw [first, if_neg hblank, if_neg hline, if_neg hblock, if_neg hquote, if_pos hnumber] at h ⊢
    cases h
    exact isLongest_number hnumber
  by_cases hname : startsName c = true
  · rw [first, if_neg hblank, if_neg hline, if_neg hblock, if_neg hquote, if_neg hnumber,
      if_pos hname] at h ⊢
    cases h
    exact isLongest_name hname
  have hsymbol : (∃ d ∈ cs.head?, (c, d) ∈ pairs ∧ first c cs = ⟨.token .operator, [c, d]⟩) ∨
      (∀ d ∈ cs.head?, (c, d) ∉ pairs) ∧ first c cs = ⟨.token (symbolKind c), [c]⟩ := by
    rw [first, if_neg hblank, if_neg hline, if_neg hblock, if_neg hquote, if_neg hnumber,
      if_neg hname]
    cases cs.head? with
    | none => exact .inr ⟨by simp, rfl⟩
    | some d =>
      by_cases hpair : (c, d) ∈ pairs
      · exact .inl ⟨d, rfl, hpair, if_pos hpair⟩
      · refine .inr ⟨?_, if_neg hpair⟩
        simpa using hpair
  obtain ⟨d, hd, hpair, hfirst⟩ | ⟨hnone, hfirst⟩ := hsymbol <;> rw [hfirst] at h ⊢ <;> cases h
  · obtain ⟨ds, rfl⟩ := List.head?_eq_some_iff.1 hd
    exact isLongest_pair hpair
  · by_cases hkind : symbolKind c = .invalid
    · rw [hkind]
      exact .inr ⟨c, rfl, List.prefix_append [c] cs,
        { blank := by simpa using hblank
          string := by simpa using hquote
          comment := ⟨mt pair_isPrefix_iff.1 hline, mt pair_isPrefix_iff.1 hblock⟩
          names := not_beginsIn_names hname
          numbers := not_beginsIn_numbers hnumber
          symbols := by
            rintro ⟨w, hw, hprefix⟩
            exact (eq_of_mem_symbols hnone hw hprefix).2 hkind }⟩
    · exact matches_symbolKind hkind hnone

/-- Every lexeme of a text is the first one of what is left where it begins. -/
theorem exists_of_all_eq {l : Lexeme} {after : List Lexeme} : ∀ {before : List Lexeme}
    {cs : List Char}, all cs = before ++ l :: after → ∃ c ds, cs = before.flatMap text ++ c :: ds ∧
      first c ds = l ∧ all ((c :: ds).drop l.text.length) = after
  | before, [], h => by simp [all] at h
  | [], c :: cs, h => by
    rw [all] at h
    obtain ⟨rfl, hafter⟩ := List.cons.inj h
    exact ⟨c, cs, rfl, rfl, hafter⟩
  | m :: before, c :: cs, h => by
    rw [all] at h
    obtain ⟨rfl, hlater⟩ := List.cons.inj h
    obtain ⟨d, ds, hcs, hfirst, hafter⟩ := exists_of_all_eq hlater
    refine ⟨d, ds, ?_, hfirst, hafter⟩
    rw [List.flatMap_cons, List.append_assoc, ← hcs, first_text_append]

end Lexeme

namespace Token

/-- Every token that lexemes make but the end is the text of one of them, and those after it are
made by the lexemes after that one. -/
theorem exists_of_place_eq {t : Token} {us : List Token} (hkind : t.kind ≠ .endOfInput) :
    ∀ {ls : List Lexeme} {p : Position} {pending : Option Comment} {ts : List Token},
      place p pending ls = ts ++ t :: us → ∃ before l after, ls = before ++ l :: after ∧
        l.cls = .token t.kind ∧ t.text = String.ofList l.text ∧
        t.span = .ofText (p.after (before.flatMap Lexeme.text)) l.text ∧
        ∃ q, us = place q none after
  | [], p, pending, ts, h => by
    have hmem : t ∈ place p pending [] := h ▸ List.mem_append_right ts List.mem_cons_self
    obtain rfl := List.mem_singleton.1 hmem
    exact absurd rfl hkind
  | l :: ls, p, pending, ts, h => by
    have hlater : ∀ {pending : Option Comment} {ts : List Token},
        place (p.after l.text) pending ls = ts ++ t :: us →
          ∃ before m after, l :: ls = before ++ m :: after ∧ m.cls = .token t.kind ∧
            t.text = String.ofList m.text ∧
            t.span = .ofText (p.after (before.flatMap Lexeme.text)) m.text ∧
            ∃ q, us = place q none after := by
      intro pending ts h
      obtain ⟨before, m, after, rfl, hcls, htext, hspan, hus⟩ := exists_of_place_eq hkind h
      refine ⟨l :: before, m, after, rfl, hcls, htext, ?_, hus⟩
      rw [hspan, List.flatMap_cons, Position.after_append]
    cases hcls : l.cls with
    | blank => exact hlater (by rwa [place_blank hcls] at h)
    | comment => exact hlater (by rwa [place_comment hcls] at h)
    | token kind =>
      rw [place_token hcls] at h
      cases ts with
      | nil =>
        obtain ⟨rfl, rfl⟩ := List.cons.inj h
        exact ⟨[], l, ls, rfl, hcls, rfl, rfl, _, rfl⟩
      | cons u ts => exact hlater (List.cons.inj h).2

/-- Tokens are longest matches. Every token of a script but the end is, where it begins, what a
token of its kind is : a name, a number or a symbol is the longest beginning of what is left that is
a word of its language, a string is closed, and an invalid token is a string or a comment that is
never closed or a single character at which nothing begins. A token that takes all that is left is
the last one before the end. -/
theorem matches_scan {source : String} {ts us : List Token} {t : Token}
    (h : scan source = ts ++ t :: us) (hkind : t.kind ≠ .endOfInput) :
    ∃ before rest, source.toList = before ++ rest ∧
      t.span.first = .ofIndex source.toList before.length ∧
      t.kind.Matches t.text.toList rest ∧
      (t.text.toList = rest → ∃ e, us = [e] ∧ e.kind = .endOfInput) := by
  obtain ⟨before, l, after, hall, hcls, htext, hspan, q, hus⟩ := exists_of_place_eq hkind h
  obtain ⟨c, ds, hsource, rfl, hafter⟩ := Lexeme.exists_of_all_eq hall
  refine ⟨before.flatMap Lexeme.text, c :: ds, hsource, ?_, ?_, fun hrest => ?_⟩
  · rw [hspan, hsource, Position.ofIndex_eq, List.take_left]
    rfl
  · rw [htext, String.toList_ofList]
    exact Lexeme.matches_first hcls
  · rw [htext, String.toList_ofList] at hrest
    rw [hrest, List.drop_length, Lexeme.all] at hafter
    rw [hus, ← hafter]
    exact ⟨_, rfl, rfl⟩

/-- An exponent needs a digit : the number at the beginning of `1e+` ends before the mark. -/
theorem matches_scan_exponent : ∃ t us, scan "1e+" = [] ++ t :: us ∧ t.kind = .number ∧
    t.text = "1" ∧ ∃ before rest, "1e+".toList = before ++ rest ∧
      t.span.first = .ofIndex "1e+".toList before.length ∧ t.kind.Matches t.text.toList rest ∧
      (t.text.toList = rest → ∃ e, us = [e] ∧ e.kind = .endOfInput) := by
  have hscan : scan "1e+" = [] ++ (⟨.number, "1", ⟨⟨1, 1⟩, ⟨1, 1⟩⟩, none⟩ : Token) ::
      [⟨.identifier, "e", ⟨⟨1, 2⟩, ⟨1, 2⟩⟩, none⟩, ⟨.operator, "+", ⟨⟨1, 3⟩, ⟨1, 3⟩⟩, none⟩,
        ⟨.endOfInput, "", ⟨⟨1, 4⟩, ⟨1, 4⟩⟩, none⟩] := by
    decide +kernel
  exact ⟨_, _, hscan, rfl, rfl, matches_scan hscan (by decide)⟩

end Token

end SqfCheck
