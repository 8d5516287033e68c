import Mathlib.Tactic.SplitIfs
import SqfCheck.Json
import SqfCheck.Text

/-!
# JSON text read back

`Json.decode` reads a text by the grammar of JSON : blanks may stand around values, punctuation and
keys, a character of a string may be written by itself, by a letter or by its code, and characters
beyond the basic plane also by the codes of a surrogate pair. Of the values of JSON it knows those
that `Json` has.

Every value is read back from its text (`decode_write`). A reader takes what was written off the
front of a text and leaves what follows (`readValue_write`) ; only a number needs to know what
follows it, which must be no digit. What is written holds no control character
(`printable_write`), so it stands on one line.
-/

namespace SqfCheck

namespace Json

/-! ## The reader -/

/-- The blanks that may stand between the parts of a text. -/
def isBlank (c : Char) : Bool :=
  c = ' ' || c = '\t' || c = '\n' || c = '\r'

/-- The text after the character `c`, with blanks before it left out, if it starts with it. -/
def pass (c : Char) (cs : List Char) : Option (List Char) :=
  match cs.dropWhile isBlank with
  | [] => none
  | d :: rest => if d = c then some rest else none

/-- The value of a hexadecimal digit. -/
def hexValue? (c : Char) : Option Nat :=
  if c.isDigit then some (c.toNat - 48)
  else if 'a' ≤ c ∧ c ≤ 'f' then some (c.toNat - 87)
  else if 'A' ≤ c ∧ c ≤ 'F' then some (c.toNat - 55)
  else none

/-- The code that four hexadecimal digits make. -/
def code? (a b c d : Char) : Option Nat := do
  let a ← hexValue? a
  let b ← hexValue? b
  let c ← hexValue? c
  let d ← hexValue? d
  return ((a * 16 + b) * 16 + c) * 16 + d

/-- What stands for a character after a backslash. -/
def letters : List (Char × Char) :=
  [('"', '"'), ('\\', '\\'), ('/', '/'), ('b', '\x08'), ('f', '\x0c'), ('n', '\n'), ('r', '\r'),
    ('t', '\t')]

/-- The codes in a string up to the quote that ends it, with the text after the quote. -/
def readCodes : List Char → Option (List Nat × List Char)
  | [] => none
  | c :: cs =>
    if c = '"' then some ([], cs)
    else if c = '\\' then
      match cs with
      | [] => none
      | e :: cs =>
        if e = 'u' then
          match cs with
          | w :: x :: y :: z :: cs => do
            let n ← code? w x y z
            (readCodes cs).map fun p => (n :: p.1, p.2)
          | _ => none
        else do
          let d ← letters.lookup e
          (readCodes cs).map fun p => (d.toNat :: p.1, p.2)
    else if c.toNat < 0x20 then none
    else (readCodes cs).map fun p => (c.toNat :: p.1, p.2)

/-- The text that the codes make. The two codes of a surrogate pair make one character. -/
def ofCodes : List Nat → Option (List Char)
  | [] => some []
  | n :: ns =>
    if n.isValidChar then (ofCodes ns).map (Char.ofNat n :: ·)
    else
      match ns with
      | [] => none
      | m :: ns =>
        if n < 0xDC00 ∧ 0xDC00 ≤ m ∧ m < 0xE000 then
          (ofCodes ns).map (Char.ofNat (0x10000 + (n - 0xD800) * 0x400 + (m - 0xDC00)) :: ·)
        else none

/-- A string whose opening quote was passed. -/
def readString (cs : List Char) : Option (String × List Char) := do
  let (ns, rest) ← readCodes cs
  let s ← ofCodes ns
  return (String.ofList s, rest)

/-- A natural number, which starts with a zero only if it is zero. -/
def readNumber (cs : List Char) : Option (Json × List Char) :=
  match cs.takeWhile Char.isDigit with
  | [] => none
  | d :: ds =>
    if d = '0' ∧ ds ≠ [] then none
    else some (number (Nat.ofDigitChars 10 (d :: ds) 0), cs.dropWhile Char.isDigit)

/-- A value that is written without punctuation : nothing, or a number. -/
def readWord (cs : List Char) : Option (Json × List Char) :=
  if cs.take 4 = "null".toList then some (null, cs.drop 4) else readNumber cs

mutual

/-- A value with the text that follows it. The budget bounds how many readers call each other. -/
def readValue : Nat → List Char → Option (Json × List Char)
  | 0, _ => none
  | n + 1, cs =>
    match cs.dropWhile isBlank with
    | [] => none
    | c :: cs =>
      if c = '"' then (readString cs).map fun p => (string p.1, p.2)
      else if c = '[' then
        match pass ']' cs with
        | some rest => some (array [], rest)
        | none => (readElements n cs).map fun p => (array p.1, p.2)
      else if c = '\x7b' then
        match pass '\x7d' cs with
        | some rest => some (object [], rest)
        | none => (readFields n cs).map fun p => (object p.1, p.2)
      else readWord (c :: cs)

/-- The elements of an array up to the bracket that closes it, of which there is one at least. -/
def readElements : Nat → List Char → Option (List Json × List Char)
  | 0, _ => none
  | n + 1, cs => do
    let (e, cs) ← readValue n cs
    match pass ',' cs with
    | some cs => (readElements n cs).map fun p => (e :: p.1, p.2)
    | none => (pass ']' cs).map fun rest => ([e], rest)

/-- The fields of an object up to the brace that closes it, of which there is one at least. -/
def readFields : Nat → List Char → Option (List (String × Json) × List Char)
  | 0, _ => none
  | n + 1, cs => do
    let cs ← pass '"' cs
    let (key, cs) ← readString cs
    let cs ← pass ':' cs
    let (j, cs) ← readValue n cs
    match pass ',' cs with
    | some cs => (readFields n cs).map fun p => ((key, j) :: p.1, p.2)
    | none => (pass '\x7d' cs).map fun rest => ([(key, j)], rest)

end

/-- The value that the text is, with blanks around it. -/
def decode (cs : List Char) : Option Json := do
  let (j, rest) ← readValue cs.length cs
  if (rest.dropWhile isBlank).isEmpty then return j else none

/-! ## Strings -/

theorem pass_cons {c : Char} (hc : isBlank c = false) (cs : List Char) :
    pass c (c :: cs) = some cs := by
  simp [pass, hc]

theorem pass_cons_ne {c d : Char} (hd : isBlank d = false) (hne : d ≠ c) (cs : List Char) :
    pass c (d :: cs) = none := by
  simp [pass, hd, hne]

theorem hexValue?_hexDigit : ∀ {n : Nat}, n < 16 → hexValue? (hexDigit n) = some n := by
  decide

theorem readCodes_quote (cs : List Char) : readCodes ('"' :: cs) = some ([], cs) := by
  rw [readCodes.eq_def]
  simp

theorem readCodes_letter {e d : Char} (he : e ≠ 'u') (hd : letters.lookup e = some d)
    (cs : List Char) :
    readCodes ('\\' :: e :: cs) = (readCodes cs).map fun p => (d.toNat :: p.1, p.2) := by
  rw [readCodes.eq_def]
  simp [he, hd]

theorem readCodes_code {w x y z : Char} {n : Nat} (h : code? w x y z = some n) (cs : List Char) :
    readCodes ('\\' :: 'u' :: w :: x :: y :: z :: cs) =
      (readCodes cs).map fun p => (n :: p.1, p.2) := by
  rw [readCodes.eq_def]
  simp [h]

theorem readCodes_self {c : Char} (hquote : c ≠ '"') (hslash : c ≠ '\\') (hc : ¬c.toNat < 0x20)
    (cs : List Char) : readCodes (c :: cs) = (readCodes cs).map fun p => (c.toNat :: p.1, p.2) := by
  rw [readCodes.eq_def]
  simp [hquote, hslash, hc]

/-- A character is read back from the way in which it is written. -/
theorem readCodes_escape (c : Char) (cs : List Char) :
    readCodes (escape c ++ cs) = (readCodes cs).map fun p => (c.toNat :: p.1, p.2) := by
  unfold escape
  split_ifs with h₁ h₂ h₃ h₄ h₅ h₆ h₇ h₈
  · rw [h₁]
    exact readCodes_letter (by decide) rfl cs
  · rw [h₂]
    exact readCodes_letter (by decide) rfl cs
  · rw [h₃]
    exact readCodes_letter (by decide) rfl cs
  · rw [h₄]
    exact readCodes_letter (by decide) rfl cs
  · rw [h₅]
    exact readCodes_letter (by decide) rfl cs
  · rw [h₆]
    exact readCodes_letter (by decide) rfl cs
  · rw [h₇]
    exact readCodes_letter (by decide) rfl cs
  · have hhigh := hexValue?_hexDigit (n := c.toNat / 16) (by omega)
    have hlow := hexValue?_hexDigit (n := c.toNat % 16) (by omega)
    have hzero : hexValue? '0' = some 0 := by decide
    have hsum : c.toNat / 16 * 16 + c.toNat % 16 = c.toNat := by omega
    refine readCodes_code ?_ cs
    simp [code?, hzero, hhigh, hlow, hsum]
  · exact readCodes_self h₁ h₂ h₈ cs

theorem readCodes_flatMap (rest : List Char) : ∀ cs : List Char,
    readCodes (cs.flatMap escape ++ '"' :: rest) = some (cs.map Char.toNat, rest)
  | [] => readCodes_quote rest
  | c :: cs => by
    rw [List.flatMap_cons, List.append_assoc, readCodes_escape, readCodes_flatMap rest cs]
    rfl

theorem ofCodes_map : ∀ cs : List Char, ofCodes (cs.map Char.toNat) = some cs
  | [] => rfl
  | c :: cs => by
    have hvalid : c.toNat.isValidChar := c.valid
    rw [List.map_cons, ofCodes.eq_def]
    simp [hvalid, ofCodes_map cs]

/-- A string is read back from what stands between its quotes. -/
theorem readString_quote (s : String) (rest : List Char) :
    readString (s.toList.flatMap escape ++ '"' :: rest) = some (s, rest) := by
  simp [readString, readCodes_flatMap, ofCodes_map]

/-! ## Numbers -/

/-- The text does not start with a digit. -/
def NoDigit (cs : List Char) : Prop :=
  ∀ c, cs.head? = some c → c.isDigit = false

theorem noDigit_nil : NoDigit [] := by
  simp [NoDigit]

theorem noDigit_cons {c : Char} (hc : c.isDigit = false) (cs : List Char) : NoDigit (c :: cs) := by
  intro d hd
  obtain rfl := Option.some.inj hd
  exact hc

/-- Only zero is written with a zero in front. -/
theorem eq_zero_of_head?_toDigits {n : Nat} (h : (Nat.toDigits 10 n).head? = some '0') :
    n = 0 := by
  induction n using Nat.strongRecOn with
  | ind n ih =>
    rw [Nat.toDigits_eq_if (by decide)] at h
    split_ifs at h with hlt
    · simpa using h
    · obtain ⟨d, ds, hcons⟩ :=
        List.exists_cons_of_ne_nil (Nat.toDigits_ne_nil (n := n / 10) (b := 10))
      rw [hcons] at h
      have hzero : n / 10 = 0 := ih (n / 10) (by omega) (by rw [hcons]; exact h)
      omega

theorem isDigit_of_mem_repr {n : Nat} {c : Char} (hc : c ∈ n.repr.toList) : c.isDigit = true := by
  rw [Nat.toList_repr] at hc
  exact Nat.isDigit_of_mem_toDigits (by decide) (by decide) hc

theorem exists_cons_repr (n : Nat) : ∃ c cs, n.repr.toList = c :: cs ∧ c.isDigit = true := by
  have hne : n.repr.toList ≠ [] := by
    rw [Nat.toList_repr]
    exact Nat.toDigits_ne_nil
  obtain ⟨c, cs, hcons⟩ := List.exists_cons_of_ne_nil hne
  exact ⟨c, cs, hcons, isDigit_of_mem_repr (n := n) (by simp [hcons])⟩

theorem ne_of_isDigit {c d : Char} (hc : c.isDigit = true) (hd : d.isDigit = false) : c ≠ d := by
  rintro rfl
  rw [hc] at hd
  cases hd

theorem isBlank_of_isDigit {c : Char} (hc : c.isDigit = true) : isBlank c = false := by
  have hne : c ≠ ' ' ∧ c ≠ '\t' ∧ c ≠ '\n' ∧ c ≠ '\r' :=
    ⟨ne_of_isDigit hc rfl, ne_of_isDigit hc rfl, ne_of_isDigit hc rfl, ne_of_isDigit hc rfl⟩
  simp [isBlank, hne]

/-- A number is read back, if no digit follows it. -/
theorem readNumber_repr (n : Nat) {rest : List Char} (hrest : NoDigit rest) :
    readNumber (n.repr.toList ++ rest) = some (number n, rest) := by
  have hall : ∀ c ∈ n.repr.toList, c.isDigit = true := fun c => isDigit_of_mem_repr
  rw [readNumber, Text.takeWhile_append_eq hall hrest, Text.dropWhile_append_eq hall hrest,
    Nat.toList_repr]
  split
  · next hnil => exact absurd hnil Nat.toDigits_ne_nil
  · next d ds hdigits =>
    have hfirst : ¬(d = '0' ∧ ds ≠ []) := by
      rintro ⟨rfl, hds⟩
      obtain rfl : n = 0 := eq_zero_of_head?_toDigits (by rw [hdigits]; rfl)
      rw [Nat.toDigits_zero] at hdigits
      exact hds (List.cons.inj hdigits).2.symm
    rw [if_neg hfirst, ← hdigits, Nat.ofDigitChars_ten_toDigits]

/-! ## Values -/

/-- What is written starts with a character that is no blank and closes no array. -/
theorem exists_cons_write (j : Json) :
    ∃ c cs, j.write = c :: cs ∧ isBlank c = false ∧ c ≠ ']' := by
  cases j with
  | null => exact ⟨'n', _, rfl, rfl, by decide⟩
  | number n =>
    obtain ⟨c, cs, hcons, hdigit⟩ := exists_cons_repr n
    exact ⟨c, cs, by rw [write, hcons], isBlank_of_isDigit hdigit, ne_of_isDigit hdigit rfl⟩
  | string s => exact ⟨'"', _, rfl, rfl, by decide⟩
  | array es => exact ⟨'[', _, by rw [write], rfl, by decide⟩
  | object fs => exact ⟨'\x7b', _, by rw [write], rfl, by decide⟩

theorem pass_write (j : Json) (rest : List Char) : pass ']' (j.write ++ rest) = none := by
  obtain ⟨c, cs, hwrite, hblank, hne⟩ := exists_cons_write j
  rw [hwrite]
  exact pass_cons_ne hblank hne _

section

variable (n : Nat) (cs : List Char)

theorem readValue_quote :
    readValue (n + 1) ('"' :: cs) = (readString cs).map fun p => (string p.1, p.2) := by
  rw [readValue.eq_def]
  simp [isBlank]

theorem readValue_bracket : readValue (n + 1) ('[' :: cs) =
    match pass ']' cs with
    | some rest => some (array [], rest)
    | none => (readElements n cs).map fun p => (array p.1, p.2) := by
  rw [readValue.eq_def]
  simp [isBlank]

theorem readValue_brace : readValue (n + 1) ('\x7b' :: cs) =
    match pass '\x7d' cs with
    | some rest => some (object [], rest)
    | none => (readFields n cs).map fun p => (object p.1, p.2) := by
  rw [readValue.eq_def]
  simp [isBlank]

theorem readValue_word {c : Char} (hblank : isBlank c = false)
    (hc : c ∉ ['"', '[', '\x7b']) : readValue (n + 1) (c :: cs) = readWord (c :: cs) := by
  simp only [List.mem_cons, List.not_mem_nil, or_false, not_or] at hc
  rw [readValue.eq_def]
  simp [hblank, hc]

end

mutual

/-- A value is read back, if no digit follows it. -/
theorem readValue_write : ∀ (j : Json) {n : Nat} {rest : List Char}, j.write.length ≤ n →
    NoDigit rest → readValue n (j.write ++ rest) = some (j, rest)
  | j, 0, _, hn, _ => by
    obtain ⟨c, cs, hwrite, -⟩ := exists_cons_write j
    simp [hwrite] at hn
  | null, n + 1, rest, _, _ => readValue_word n _ rfl (by decide)
  | number k, n + 1, rest, _, hrest => by
    obtain ⟨c, cs, hcons, hdigit⟩ := exists_cons_repr k
    have hnull : c ≠ 'n' := ne_of_isDigit hdigit rfl
    have hword : c ∉ ['"', '[', '\x7b'] := by
      simp [ne_of_isDigit hdigit (show '"'.isDigit = false from rfl),
        ne_of_isDigit hdigit (show '['.isDigit = false from rfl),
        ne_of_isDigit hdigit (show '\x7b'.isDigit = false from rfl)]
    have hread := readNumber_repr k hrest
    rw [hcons, List.cons_append] at hread
    rw [write, hcons, List.cons_append, readValue_word n _ (isBlank_of_isDigit hdigit) hword,
      readWord, ← hread]
    simp [hnull]
  | string s, n + 1, rest, _, _ => by
    rw [write, quote, List.cons_append, List.append_assoc, readValue_quote]
    simp [readString_quote]
  | array [], n + 1, rest, _, _ => by
    rw [write, writeElements, List.cons_append, readValue_bracket]
    simp [pass_cons, isBlank]
  | array (e :: es), n + 1, rest, hn, _ => by
    rw [write, List.length_cons, List.length_append, List.length_singleton] at hn
    have hopen : pass ']' (writeElements (e :: es) ++ ']' :: rest) = none := by
      cases es <;> rw [writeElements]
      · exact pass_write e _
      · rw [List.append_assoc]
        exact pass_write e _
    rw [write, List.cons_append, List.append_assoc, List.singleton_append, readValue_bracket, hopen,
      readElements_write e es (by omega)]
    rfl
  | object [], n + 1, rest, _, _ => by
    rw [write, writeFields, List.cons_append, readValue_brace]
    simp [pass_cons, isBlank]
  | object (f :: fs), n + 1, rest, hn, _ => by
    rw [write, List.length_cons, List.length_append, List.length_singleton] at hn
    have hopen : pass '\x7d' (writeFields (f :: fs) ++ '\x7d' :: rest) = none := by
      cases fs <;> rw [writeFields, quote] <;> exact pass_cons_ne rfl (by decide) _
    rw [write, List.cons_append, List.append_assoc, List.singleton_append, readValue_brace, hopen,
      readFields_write f fs (by omega)]
    rfl

/-- Elements are read back up to the bracket that closes them. -/
theorem readElements_write : ∀ (e : Json) (es : List Json) {n : Nat} {rest : List Char},
    (writeElements (e :: es)).length < n →
      readElements n (writeElements (e :: es) ++ ']' :: rest) = some (e :: es, rest)
  | e, es, 0, _, hn => absurd hn (Nat.not_lt_zero _)
  | e, [], n + 1, rest, hn => by
    rw [writeElements] at hn ⊢
    rw [readElements, readValue_write e (Nat.le_of_lt_succ hn) (noDigit_cons (by decide) _)]
    simp [pass_cons, pass_cons_ne, isBlank]
  | e, k :: es, n + 1, rest, hn => by
    rw [writeElements, List.length_append, List.length_cons] at hn
    rw [writeElements, List.append_assoc, List.cons_append, readElements,
      readValue_write e (by omega) (noDigit_cons (by decide) _)]
    simp [pass_cons, isBlank, readElements_write k es (n := n) (by omega)]

/-- Fields are read back up to the brace that closes them. -/
theorem readFields_write : ∀ (f : String × Json) (fs : List (String × Json)) {n : Nat}
    {rest : List Char}, (writeFields (f :: fs)).length < n →
      readFields n (writeFields (f :: fs) ++ '\x7d' :: rest) = some (f :: fs, rest)
  | f, fs, 0, _, hn => absurd hn (Nat.not_lt_zero _)
  | (key, j), [], n + 1, rest, hn => by
    simp only [writeFields, List.length_append, List.length_cons] at hn
    have hvalue := readValue_write j (n := n) (by omega)
      (noDigit_cons (show '\x7d'.isDigit = false from rfl) rest)
    rw [writeFields, quote, readFields]
    simp [pass_cons, pass_cons_ne, isBlank, readString_quote, hvalue]
  | (key, j), f :: fs, n + 1, rest, hn => by
    simp only [writeFields, List.length_append, List.length_cons] at hn
    have hvalue := readValue_write j (n := n) (by omega)
      (noDigit_cons (show ','.isDigit = false from rfl)
        (writeFields (f :: fs) ++ '\x7d' :: rest))
    rw [writeFields, quote, readFields]
    simp [pass_cons, isBlank, readString_quote, hvalue, readFields_write f fs (n := n) (by omega)]

end

/-- A value is read back from its text. -/
theorem decode_write (j : Json) : decode j.write = some j := by
  have hread : readValue j.write.length (j.write ++ []) = some (j, []) :=
    readValue_write j (Nat.le_refl _) noDigit_nil
  rw [List.append_nil] at hread
  rw [decode, hread]
  rfl

/-! ## Control characters -/

/-- No character of the text is a control character. -/
def Printable (cs : List Char) : Prop :=
  ∀ c ∈ cs, 0x20 ≤ c.toNat

instance (cs : List Char) : Decidable (Printable cs) :=
  List.decidableBAll (fun c : Char => 0x20 ≤ c.toNat) cs

@[simp]
theorem printable_nil : Printable [] :=
  nofun

@[simp]
theorem printable_cons {c : Char} {cs : List Char} :
    Printable (c :: cs) ↔ 0x20 ≤ c.toNat ∧ Printable cs :=
  List.forall_mem_cons

@[simp]
theorem printable_append {cs ds : List Char} :
    Printable (cs ++ ds) ↔ Printable cs ∧ Printable ds :=
  List.forall_mem_append

theorem printable_hexDigit : ∀ {n : Nat}, n < 16 → 0x20 ≤ (hexDigit n).toNat := by
  decide

theorem printable_escape (c : Char) : Printable (escape c) := by
  unfold escape
  split_ifs with h₁ h₂ h₃ h₄ h₅ h₆ h₇ h₈
  · decide
  · decide
  · decide
  · decide
  · decide
  · decide
  · decide
  · have hhigh := printable_hexDigit (n := c.toNat / 16) (by omega)
    have hlow := printable_hexDigit (n := c.toNat % 16) (by omega)
    simp [hhigh, hlow]
  · simpa using h₈

theorem printable_quote (s : String) : Printable (quote s) := by
  have hbody : Printable (s.toList.flatMap escape) := by
    intro c hc
    obtain ⟨d, -, hc⟩ := List.mem_flatMap.1 hc
    exact printable_escape d c hc
  simp [quote, hbody]

theorem printable_repr (n : Nat) : Printable n.repr.toList := by
  intro c hc
  have hdigit := isDigit_of_mem_repr hc
  simp only [Char.isDigit, Bool.and_eq_true, decide_eq_true_eq] at hdigit
  exact Nat.le_trans (by decide) (show 48 ≤ c.toNat from hdigit.1)

mutual

theorem printable_write : ∀ j : Json, Printable j.write
  | null => by decide
  | number n => printable_repr n
  | string s => printable_quote s
  | array es => by simp [write, printable_writeElements es]
  | object fs => by simp [write, printable_writeFields fs]

theorem printable_writeElements : ∀ es : List Json, Printable (writeElements es)
  | [] => printable_nil
  | [j] => by simp [writeElements, printable_write j]
  | j :: k :: es => by
    simp [writeElements, printable_write j, printable_writeElements (k :: es)]

theorem printable_writeFields : ∀ fs : List (String × Json), Printable (writeFields fs)
  | [] => printable_nil
  | [(key, j)] => by simp [writeFields, printable_quote, printable_write j]
  | (key, j) :: f :: fs => by
    simp [writeFields, printable_quote, printable_write j, printable_writeFields (f :: fs)]

end

end Json

end SqfCheck
