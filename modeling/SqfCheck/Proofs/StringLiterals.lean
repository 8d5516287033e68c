import SqfCheck.Proofs.Scanned

/-!
# String literals

A string literal can be read back. What `quoteString` writes is one token, and the value of that
token is what was written ; and every string token of a script is what `quoteString` writes for the
value of the token (`Token.string_roundTrip`).

Two functions decide what a quote means. `Lexeme.stringBody` looks for the quote that ends the
literal, one or two characters at a time, and `undoubleQuotes` makes one quote of two in what stands
before it. Both agree because what stands before the end is always the doubled form of some text
(`Lexeme.stringBody_eq_some_iff`).
-/

namespace SqfCheck

/-! ## Doubled quotes -/

theorem doubleQuotes_cons_self (quote : Char) (s : List Char) :
    doubleQuotes quote (quote :: s) = quote :: quote :: doubleQuotes quote s := by
  rw [doubleQuotes, List.flatMap_cons, if_pos rfl]
  rfl

theorem doubleQuotes_cons_of_ne {quote c : Char} (h : c ≠ quote) (s : List Char) :
    doubleQuotes quote (c :: s) = c :: doubleQuotes quote s := by
  rw [doubleQuotes, List.flatMap_cons, if_neg h]
  rfl

theorem undoubleQuotes_cons_of_ne {quote c : Char} (h : c ≠ quote) (cs : List Char) :
    undoubleQuotes quote (c :: cs) = c :: undoubleQuotes quote cs := by
  cases cs with
  | nil => rfl
  | cons d cs => rw [undoubleQuotes, if_neg fun hpair => h hpair.1]

theorem undoubleQuotes_doubleQuotes (quote : Char) (s : List Char) :
    undoubleQuotes quote (doubleQuotes quote s) = s := by
  induction s with
  | nil => rfl
  | cons c s ih =>
    by_cases hc : c = quote
    · subst hc
      rw [doubleQuotes_cons_self, undoubleQuotes, if_pos ⟨rfl, rfl⟩, ih]
    · rw [doubleQuotes_cons_of_ne hc, undoubleQuotes_cons_of_ne hc, ih]

/-! ## Where a literal ends -/

namespace Lexeme

variable {quote : Char}

theorem stringBody_cons_of_ne {c : Char} (h : c ≠ quote) (cs : List Char) :
    stringBody quote (c :: cs) = (stringBody quote cs).map (c :: ·) := by
  cases cs with
  | nil => exact if_neg h
  | cons d cs => rw [stringBody, if_neg h]

theorem stringBody_append (s : List Char) {rest : List Char} (h : rest.head? ≠ some quote) :
    stringBody quote (doubleQuotes quote s ++ [quote] ++ rest) =
      some (doubleQuotes quote s ++ [quote]) := by
  induction s with
  | nil =>
    cases rest with
    | nil => exact if_pos rfl
    | cons d rest =>
      have hd : d ≠ quote := by simpa using h
      show stringBody quote (quote :: d :: rest) = some [quote]
      rw [stringBody, if_pos rfl, if_neg hd]
  | cons c s ih =>
    by_cases hc : c = quote
    · subst hc
      rw [doubleQuotes_cons_self]
      simp only [List.cons_append]
      rw [stringBody, if_pos rfl, if_pos rfl, ih, Option.map_some]
    · rw [doubleQuotes_cons_of_ne hc]
      simp only [List.cons_append]
      rw [stringBody_cons_of_ne hc, ih, Option.map_some]

theorem exists_of_stringBody : ∀ {cs body : List Char}, stringBody quote cs = some body →
    ∃ s rest, body = doubleQuotes quote s ++ [quote] ∧ cs = body ++ rest ∧
      rest.head? ≠ some quote
  | [], body, h => by simp [stringBody] at h
  | [c], body, h => by
    rw [stringBody] at h
    split_ifs at h with hc
    obtain rfl := Option.some.inj h
    exact ⟨[], [], by rw [hc]; rfl, rfl, by simp⟩
  | c :: d :: cs, body, h => by
    rw [stringBody] at h
    split_ifs at h with hc hd
    · -- a doubled quote, and the literal goes on
      obtain ⟨body, hbody, rfl⟩ := Option.map_eq_some_iff.1 h
      obtain ⟨s, rest, rfl, rfl, hrest⟩ := exists_of_stringBody hbody
      refine ⟨quote :: s, rest, ?_, rfl, hrest⟩
      rw [doubleQuotes_cons_self, hc, hd]
      rfl
    · obtain rfl := Option.some.inj h
      exact ⟨[], d :: cs, by rw [hc]; rfl, rfl, by simpa using hd⟩
    · obtain ⟨body, hbody, rfl⟩ := Option.map_eq_some_iff.1 h
      obtain ⟨s, rest, rfl, hcs, hrest⟩ := exists_of_stringBody hbody
      refine ⟨c :: s, rest, ?_, by rw [hcs]; rfl, hrest⟩
      rw [doubleQuotes_cons_of_ne hc]
      rfl

/-- The body of a literal is a text with its quotes doubled and the quote that ends it, and no other
quote follows. -/
theorem stringBody_eq_some_iff {cs body : List Char} : stringBody quote cs = some body ↔
    ∃ s rest, body = doubleQuotes quote s ++ [quote] ∧ cs = body ++ rest ∧
      rest.head? ≠ some quote := by
  constructor
  · exact exists_of_stringBody
  · rintro ⟨s, rest, rfl, rfl, hrest⟩
    exact stringBody_append s hrest

/-! ## Lexemes -/

/-- At a quote the first lexeme is a string if the literal ends, and the rest of the text if it does
not. -/
theorem first_quote (hquote : quote = '"' ∨ quote = '\'') (cs : List Char) :
    first quote cs = (stringBody quote cs).elim ⟨.token .invalid, quote :: cs⟩
      fun body => ⟨.token .string, quote :: body⟩ := by
  have hblank : ¬Text.isBlank quote = true := by
    rcases hquote with rfl | rfl <;> decide
  have hslash : quote ≠ '/' := by
    rcases hquote with rfl | rfl <;> decide
  rw [first, if_neg hblank, if_neg fun h => hslash h.1, if_neg fun h => hslash h.1, if_pos hquote]
  cases stringBody quote cs <;> rfl

theorem all_quoteString (hquote : quote = '"' ∨ quote = '\'') (s : List Char) :
    all (quoteString quote s) = [⟨.token .string, quoteString quote s⟩] := by
  have hbody : stringBody quote (doubleQuotes quote s ++ [quote]) =
      some (doubleQuotes quote s ++ [quote]) :=
    stringBody_eq_some_iff.2 ⟨s, [], rfl, (List.append_nil _).symm, by simp⟩
  rw [quoteString, all, first_quote hquote, hbody, Option.elim_some, List.drop_length, all]

theorem symbolKind_ne_string (c : Char) : symbolKind c ≠ .string := by
  by_cases hc : c ∈ punctuation
  · have hall : punctuation.all (fun c => symbolKind c ≠ .string) = true := by decide
    exact of_decide_eq_true (List.all_eq_true.1 hall c hc)
  · rw [symbolKind_of_not_mem hc]
    split_ifs <;> decide

/-- Only a quote begins a string. -/
theorem exists_of_first_string {c : Char} {cs : List Char}
    (h : (first c cs).cls = .token .string) :
    (c = '"' ∨ c = '\'') ∧ ∃ s, (first c cs).text = quoteString c s := by
  by_cases hc : c = '"' ∨ c = '\''
  · refine ⟨hc, ?_⟩
    rw [first_quote hc] at h ⊢
    cases hbody : stringBody c cs with
    | none =>
      rw [hbody] at h
      cases h
    | some body =>
      obtain ⟨s, -, rfl, -⟩ := exists_of_stringBody hbody
      exact ⟨s, rfl⟩
  · exfalso
    have hsymbol := symbolKind_ne_string c
    unfold first at h
    rw [if_neg hc] at h
    split at h
    · cases h
    split at h
    · cases h
    split at h
    · split at h <;> cases h
    split at h
    · cases h
    split at h
    · cases h
    split at h
    · split at h
      · cases h
      · exact hsymbol (LexemeClass.token.inj h)
    · exact hsymbol (LexemeClass.token.inj h)

theorem exists_of_mem_all_string (cs : List Char) : ∀ l ∈ all cs, l.cls = .token .string →
    ∃ quote s, (quote = '"' ∨ quote = '\'') ∧ l.text = quoteString quote s := by
  fun_induction all cs with
  | case1 => simp
  | case2 c cs ih =>
    intro l hl hcls
    rcases List.mem_cons.1 hl with rfl | hl
    · obtain ⟨hc, s, hs⟩ := exists_of_first_string hcls
      exact ⟨c, s, hc, hs⟩
    · exact ih l hl hcls

end Lexeme

/-! ## Tokens -/

namespace Token

/-- The value of a literal is what it was written for. -/
theorem stringValue_of_text {t : Token} {quote : Char} {s : String} (hkind : t.kind = .string)
    (htext : t.text.toList = quoteString quote s.toList) : t.stringValue = some s := by
  have hinner : ∀ c cs, doubleQuotes quote s.toList ++ [quote] = c :: cs →
      undoubleQuotes quote (c :: cs).dropLast = s.toList := by
    intro c cs hcs
    rw [← hcs, List.dropLast_concat, undoubleQuotes_doubleQuotes]
  rw [stringValue, hkind, htext, quoteString]
  cases hcs : doubleQuotes quote s.toList ++ [quote] with
  | nil => simp at hcs
  | cons c cs =>
    dsimp only
    rw [hinner c cs hcs, String.ofList_toList]

/-- String literals can be read back. A text in quotes of either sort, with the quotes of that sort
inside it doubled, is one string token, and the value of the token is the text. Every string token
of a script begins with a quote, has a value, and is that value in those quotes. -/
theorem string_roundTrip :
    (∀ (s : String) (quote : Char), quote = '"' ∨ quote = '\'' →
      ∃ t e, scan (String.ofList (quoteString quote s.toList)) = [t, e] ∧
        t.kind = .string ∧ t.text.toList = quoteString quote s.toList ∧
        t.stringValue = some s ∧ e.kind = .endOfInput) ∧
    ∀ source : String, ∀ t ∈ scan source, t.kind = .string →
      ∃ quote s, (quote = '"' ∨ quote = '\'') ∧ t.text.toList.head? = some quote ∧
        t.stringValue = some s ∧ t.text.toList = quoteString quote s.toList := by
  constructor
  · intro s quote hquote
    rw [scan, String.toList_ofList, Lexeme.all_quoteString hquote, place, place]
    exact ⟨_, _, rfl, rfl, String.toList_ofList, stringValue_of_text rfl String.toList_ofList, rfl⟩
  · intro source t ht hkind
    obtain ⟨l, hl, hcls, htext⟩ := (exists_lexeme_of_mem_scan ht).resolve_right fun hend => by
      rw [hkind] at hend
      cases hend.1
    rw [hkind] at hcls
    obtain ⟨quote, s, hquote, hs⟩ := Lexeme.exists_of_mem_all_string _ l hl hcls
    have htoken : t.text.toList = quoteString quote (String.ofList s).toList := by
      rw [htext, String.toList_ofList, String.toList_ofList, hs]
    exact ⟨quote, String.ofList s, hquote, by rw [htoken]; rfl, stringValue_of_text hkind htoken,
      htoken⟩

/-- A literal with its own quote and with the other one inside, both ways. -/
theorem string_roundTrip_doubled :
    (∃ t e, scan "'\"it''s\"'" = [t, e] ∧ t.kind = .string ∧ t.stringValue = some "\"it's\"") ∧
      ∃ quote s, "\"\"\"\"".toList = quoteString quote (String.toList s) := by
  have hwritten : quoteString '\'' "\"it's\"".toList = "'\"it''s\"'".toList := by decide
  have hmem : ⟨.string, "\"\"\"\"", ⟨⟨1, 3⟩, ⟨1, 6⟩⟩, none⟩ ∈ scan "a \"\"\"\"" := by
    decide +kernel
  obtain ⟨t, e, hscan, hkind, -, hvalue, -⟩ := string_roundTrip.1 "\"it's\"" '\'' (.inr rfl)
  obtain ⟨quote, s, -, -, -, htext⟩ := string_roundTrip.2 _ _ hmem rfl
  rw [hwritten, String.ofList_toList] at hscan
  exact ⟨⟨t, e, hscan, hkind, hvalue⟩, quote, s, htext⟩

end Token

end SqfCheck
