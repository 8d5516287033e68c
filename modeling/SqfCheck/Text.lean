/-!
# Characters and plain text

The text helpers that the rest of the library shares, all over `List Char` so that they
recurse on the data : blank characters (`isBlank`), trimming (`trimStart`, `trimEnd`,
`trim`), cutting at a separator (`splitOn`) and at blanks (`words`), and the ASCII case
folding under which SQF compares names (`foldCase`).

`splitOn` never loses a character : putting the separator back between the pieces gives
the text (`intercalate_splitOn`), and no piece holds the separator
(`not_mem_of_mem_splitOn`).
-/

namespace SqfCheck

/-- A name with its ASCII capitals lowered. Names are compared in this form. -/
def foldCase (s : String) : String :=
  String.ofList (s.toList.map Char.toLower)

@[simp]
theorem toList_foldCase (s : String) : (foldCase s).toList = s.toList.map Char.toLower := by
  simp [foldCase]

theorem foldCase_append (s t : String) : foldCase (s ++ t) = foldCase s ++ foldCase t := by
  apply String.toList_injective
  simp

namespace Text

/-! ## Classes of characters -/

/-- The blank characters : exactly those with the Unicode property `White_Space`. -/
def isBlank (c : Char) : Bool :=
  let n := c.toNat
  (0x09 ≤ n && n ≤ 0x0D) || n == 0x20 || n == 0x85 || n == 0xA0 || n == 0x1680
    || (0x2000 ≤ n && n ≤ 0x200A) || n == 0x2028 || n == 0x2029 || n == 0x202F
    || n == 0x205F || n == 0x3000

/-- A decimal digit or a letter from `a` to `f`, either case. -/
def isHexDigit (c : Char) : Bool :=
  c.isDigit || ('a' ≤ c && c ≤ 'f') || ('A' ≤ c && c ≤ 'F')

/-- The characters a name may start with. -/
def startsName (c : Char) : Bool :=
  c.isAlpha || c == '_'

/-- The characters a name may go on with. -/
def continuesName (c : Char) : Bool :=
  c.isAlphanum || c == '_'

/-! ## Trimming -/

/-- The text without its leading blanks. -/
def trimStart (cs : List Char) : List Char :=
  cs.dropWhile isBlank

/-- The text without the trailing characters that satisfy `p`. -/
def dropEndWhile (p : Char → Bool) (cs : List Char) : List Char :=
  (cs.reverse.dropWhile p).reverse

/-- The text without its trailing blanks. -/
def trimEnd (cs : List Char) : List Char :=
  dropEndWhile isBlank cs

/-- The text without blanks at either end. -/
def trim (cs : List Char) : List Char :=
  trimEnd (trimStart cs)

/-! ## Cutting -/

/-- The pieces of the text between occurrences of `sep`. There is always at least one. -/
def splitOn (sep : Char) : List Char → List (List Char)
  | [] => [[]]
  | c :: cs =>
    if c = sep then [] :: splitOn sep cs
    else match splitOn sep cs with
      | [] => [[c]]
      | piece :: pieces => (c :: piece) :: pieces

theorem splitOn_ne_nil (sep : Char) : ∀ cs, splitOn sep cs ≠ []
  | [] => by simp [splitOn]
  | c :: cs => by
    unfold splitOn
    split
    · simp
    · split <;> simp

/-- The text before the first character that satisfies `p`, and the text from it on. -/
def splitBefore (p : Char → Bool) (cs : List Char) : List Char × List Char :=
  (cs.takeWhile fun c => !p c, cs.dropWhile fun c => !p c)

/-- The text on either side of the first `sep`, when there is one. -/
def splitAtFirst (sep : Char) (cs : List Char) : Option (List Char × List Char) :=
  match splitBefore (· == sep) cs with
  | (_, []) => none
  | (before, _ :: after) => some (before, after)

/-- The longest pieces of the text that hold no blank, none of them empty. -/
def words (cs : List Char) : List (List Char) :=
  go [] cs
where
  /-- The words of `word.reverse ++ cs`, where `word` was read without meeting a blank. -/
  go (word : List Char) : List Char → List (List Char)
    | [] => if word.isEmpty then [] else [word.reverse]
    | c :: cs =>
      if isBlank c then
        if word.isEmpty then go [] cs else word.reverse :: go [] cs
      else go (c :: word) cs

/-! ## Laws of cutting -/

/-- A word is taken up to the first character that does not belong to it. -/
theorem takeWhile_append_eq {p : Char → Bool} {word rest : List Char}
    (hword : ∀ c ∈ word, p c = true) (hrest : ∀ c ∈ rest.head?, p c = false) :
    (word ++ rest).takeWhile p = word := by
  rw [List.takeWhile_append_of_pos hword]
  cases rest with
  | nil => exact List.append_nil word
  | cons c rest =>
    have hc : ¬p c = true := by simpa using hrest c rfl
    rw [List.takeWhile_cons_of_neg hc, List.append_nil]

theorem dropWhile_append_eq {p : Char → Bool} {word rest : List Char}
    (hword : ∀ c ∈ word, p c = true) (hrest : ∀ c ∈ rest.head?, p c = false) :
    (word ++ rest).dropWhile p = rest := by
  rw [List.dropWhile_append_of_pos hword]
  cases rest with
  | nil => rfl
  | cons c rest => exact List.dropWhile_cons_of_neg (by simpa using hrest c rfl)

theorem intercalate_splitOn (sep : Char) :
    ∀ cs, [sep].intercalate (splitOn sep cs) = cs
  | [] => rfl
  | c :: cs => by
    have ih := intercalate_splitOn sep cs
    have hne := splitOn_ne_nil sep cs
    unfold splitOn
    split
    · next h =>
      match hs : splitOn sep cs with
      | [] => exact absurd hs hne
      | piece :: pieces => rw [hs] at ih; simp [List.intercalate, h, ← ih]
    · match hs : splitOn sep cs with
      | [] => exact absurd hs hne
      | [piece] => rw [hs] at ih; simpa [List.intercalate] using ih
      | piece :: p :: pieces => rw [hs] at ih; simpa [List.intercalate] using ih

theorem not_mem_of_mem_splitOn (sep : Char) :
    ∀ cs, ∀ piece ∈ splitOn sep cs, sep ∉ piece
  | [] => by simp [splitOn]
  | c :: cs => by
    have ih := not_mem_of_mem_splitOn sep cs
    unfold splitOn
    split
    · simpa using ih
    · next h =>
      match hs : splitOn sep cs with
      | [] => simpa using Ne.symm h
      | piece :: pieces =>
        rw [hs] at ih
        simp only [List.mem_cons, forall_eq_or_imp] at ih ⊢
        exact ⟨by simpa [Ne.symm h] using ih.1, ih.2⟩

end Text

end SqfCheck
