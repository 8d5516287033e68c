import Mathlib.Order.Bounds.Basic
import SqfCheck.Proofs.Exits

/-!
# What a repair does

`recover_contract` says all that the repair of a failure does, for a cursor on any token of a list
whose last token is the end. An aborted run passes the failure on and changes nothing. A strict run
writes it down, ends, and leaves the cursor where it is. Any other run writes it down and goes on at
the nearest boundary, or behind it if it is to be skipped.

Places are given by index here (`Cursor.StandsAt`), so that the nearest boundary is the least index
with a property (`Cursor.stopsFrom`). The search starts one token further, whatever the token under
the cursor is, and the end stops it at the latest (`Cursor.StandsAt.exists_isLeast`).
-/

namespace SqfCheck

/-! ## Places by index -/

namespace Cursor

/-- The cursor is on the token of index `i`. -/
def StandsAt (c : Cursor) (tokens : List Token) (i : Nat) : Prop :=
  tokens.drop i = c.tokens

/-- The indices from `start` on at which a repair up to `boundary` can stop. -/
def stopsFrom (tokens : List Token) (boundary : TokenKind) (start : Nat) : Set Nat :=
  {k | start ≤ k ∧ ∃ t, tokens[k]? = some t ∧ (t.kind = boundary ∨ t.kind = .endOfInput)}

namespace StandsAt

variable {c : Cursor} {tokens : List Token} {i : Nat}

theorem getElem?_eq (h : c.StandsAt tokens i) : tokens[i]? = some c.current := by
  rw [← List.head?_drop, h]
  rfl

theorem isSuffix (h : c.StandsAt tokens i) : c.tokens <:+ tokens :=
  h ▸ List.drop_suffix i tokens

theorem length_eq (h : c.StandsAt tokens i) : tokens.length = i + 1 + c.rest.length := by
  have hdrop : tokens.length - i = c.rest.length + 1 := by
    rw [← List.length_drop, h]
    rfl
  omega

/-- The next token is one index further, unless the cursor is on the last. -/
theorem advance (h : c.StandsAt tokens i) :
    c.advance.StandsAt tokens (min (i + 1) (tokens.length - 1)) := by
  have hlength := h.length_eq
  rcases c with ⟨t, _ | ⟨u, us⟩⟩
  · have hlast : min (i + 1) (tokens.length - 1) = i := by
      simp only [List.length_nil] at hlength
      omega
    rw [hlast]
    exact h
  · have hnext : min (i + 1) (tokens.length - 1) = i + 1 := by
      simp only [List.length_cons] at hlength
      omega
    rw [hnext, StandsAt, ← List.tail_drop, h]
    rfl

theorem exists_isLeast_seek (hend : Ends tokens) (boundary : TokenKind) :
    ∀ {rest : List Token} {t : Token} {i : Nat}, StandsAt ⟨t, rest⟩ tokens i →
      ∃ k, (seek (fun u => !Parse.stopsAt boundary u) t rest).StandsAt tokens k ∧
        IsLeast (stopsFrom tokens boundary i) k
  | [], t, i, h => by
    have hkind : t.kind = .endOfInput := hend t h.isSuffix
    exact ⟨i, h, ⟨le_refl i, t, h.getElem?_eq, .inr hkind⟩, fun k hk => hk.1⟩
  | u :: us, t, i, h => by
    rw [seek]
    split_ifs with hstop
    · -- the token at `i` is passed, so the least index is that from `i + 1` on
      have hnext : StandsAt ⟨u, us⟩ tokens (i + 1) := by
        rw [StandsAt, ← List.tail_drop, h]
        rfl
      obtain ⟨k, hk, hmem, hle⟩ := exists_isLeast_seek hend boundary hnext
      refine ⟨k, hk, ⟨Nat.le_of_succ_le hmem.1, hmem.2⟩, ?_⟩
      rintro m ⟨hm, w, hw, hkind⟩
      rcases Nat.eq_or_lt_of_le hm with rfl | hlt
      · obtain rfl : t = w := Option.some.inj (h.getElem?_eq.symm.trans hw)
        simp only [Parse.stopsAt, Bool.not_eq_true', Bool.or_eq_false_iff,
          decide_eq_false_iff_not] at hstop
        exact (hkind.elim hstop.1 hstop.2).elim
      · exact hle ⟨hlt, w, hw, hkind⟩
    · refine ⟨i, h, ⟨le_refl i, t, h.getElem?_eq, ?_⟩, fun k hk => hk.1⟩
      simpa [Parse.stopsAt, imp_iff_not_or] using hstop

/-- Of tokens that end in the end, the first from the cursor on that is a boundary or the end is
the one of least index. -/
theorem exists_isLeast (h : c.StandsAt tokens i) (hend : Ends tokens) (boundary : TokenKind) :
    ∃ k, (c.dropWhile fun u => !Parse.stopsAt boundary u).StandsAt tokens k ∧
      IsLeast (stopsFrom tokens boundary i) k :=
  exists_isLeast_seek hend boundary h

/-- The tokens from one place up to another. -/
theorem upTo_eq {d : Cursor} {k : Nat} (h : c.StandsAt tokens i) (hd : d.StandsAt tokens k) :
    c.upTo d = (tokens.drop i).take (k - i) := by
  have hc := h.length_eq
  have hk := hd.length_eq
  have hlength : c.tokens.length - d.tokens.length = k - i := by
    simp only [Cursor.tokens, List.length_cons]
    omega
  rw [upTo, hlength, h]

end StandsAt

theorem exists_standsAt {c : Cursor} {tokens : List Token} (h : c.tokens <:+ tokens) :
    ∃ i, c.StandsAt tokens i :=
  ⟨_, (List.suffix_iff_eq_drop.1 h).symm⟩

end Cursor

/-! ## What is written down -/

/-- The journal `k` has one more finding than `j`, in the list of its severity, and differs in
nothing else but in whether the run has ended. -/
structure Journal.Gains (j : Journal) (d : Diagnostic) (k : Journal) : Prop where
  errors : k.errors = j.errors ++ if d.isError then [d] else []
  warnings : k.warnings = j.warnings ++ if d.isError then [] else [d]
  table : k.table = j.table
  entries : k.entries.toList = j.entries.toList ++ [.diagnostic d]
  surveyed : k.surveyed = j.surveyed

theorem Journal.gains_report (j : Journal) (d : Diagnostic) : j.Gains d (j.report d) where
  errors := by
    rw [Journal.errors, Journal.diagnostics_report, List.filter_append]
    cases hd : d.isError <;> simp [Journal.errors, hd]
  warnings := by
    rw [Journal.warnings, Journal.diagnostics_report, List.filter_append]
    cases hd : d.isError <;> simp [Journal.warnings, hd]
  table := Journal.table_append (Journal.toList_entries_report j d)
  entries := Journal.toList_entries_report j d
  surveyed := rfl

theorem Journal.gains_repaired (j : Journal) (r : Repair) : j.Gains r.failure (j.repaired r) :=
  let h := j.gains_report r.failure
  ⟨h.errors, h.warnings, h.table, h.entries, h.surveyed⟩

/-- All that a repair does. A run that was aborted passes the failure on, with nothing changed. A
strict run writes the failure down, is aborted, and passes it on with the cursor where it was. Any
other run writes it down and gives the kind of the nearest token that is a boundary or the end,
searched from one token further on ; the cursor is on that token, or one further if it is to be
skipped, and has moved unless it was on the last token. -/
theorem recover_contract (strict : Bool) (failure : Diagnostic) (boundary : TokenKind)
    (skip : Bool) (tokens : List Token) (i : Nat) (s : ParseState) (hend : Ends tokens)
    (hat : s.cursor.StandsAt tokens i) :
    let last := tokens.length - 1
    let result := Parse.recover strict failure boundary skip s
    (s.journal.aborted = true → result = .error failure s) ∧
    (s.journal.aborted = false → strict = true →
      ∃ j, result = .error failure ⟨s.cursor, j⟩ ∧ j.aborted = true ∧ s.journal.Gains failure j) ∧
    (s.journal.aborted = false → strict = false →
      ∃ (k : Nat) (stop : Token) (c : Cursor) (j : Journal),
        IsLeast (Cursor.stopsFrom tokens boundary (min (i + 1) last)) k ∧
        tokens[k]? = some stop ∧ result = .ok stop.kind ⟨c, j⟩ ∧
        c.StandsAt tokens (if skip then min (k + 1) last else k) ∧
        (i < last → i < if skip then min (k + 1) last else k) ∧
        j.aborted = false ∧ s.journal.Gains failure j) := by
  intro last result
  refine ⟨fun ha => if_pos ha, ?_, ?_⟩
  · rintro ha rfl
    have hgains := s.journal.gains_report failure
    refine ⟨(s.journal.report failure).abort, ?_, rfl, ?_⟩
    · simp [result, Parse.recover, ha]
    · exact ⟨hgains.errors, hgains.warnings, hgains.table, hgains.entries, hgains.surveyed⟩
  · rintro ha rfl
    obtain ⟨k, hk, hleast⟩ := hat.advance.exists_isLeast hend boundary
    have hadvance : min (i + 1) last ≤ k := hleast.1.1
    have hlt : k ≤ last := by
      have hlength := hk.length_eq
      omega
    let stop := s.cursor.advance.dropWhile fun u => !Parse.stopsAt boundary u
    let next := if skip then stop.advance else stop
    let repair : Repair := ⟨failure, boundary, skip, s.cursor.upTo next⟩
    refine ⟨k, stop.current, next, s.journal.repaired repair, hleast, hk.getElem?_eq, ?_, ?_, ?_,
      ha, s.journal.gains_repaired repair⟩
    · simp [result, repair, next, stop, Parse.recover, ha]
    · cases skip with
      | false => exact hk
      | true => exact hk.advance
    · intro hi
      split_ifs <;> omega

/-- A failure at a semicolon, with an end in the middle of the tokens : the semicolon is dropped
though it is a boundary, and the search stops at the end in the middle, which is skipped. -/
theorem recover_contract_semicolon :
    let token (kind : TokenKind) : Token := ⟨kind, "", .point .start, none⟩
    let tokens := [token .number, token .semicolon, token .comma, token .endOfInput,
      token .semicolon, token .endOfInput]
    let s : ParseState := ⟨⟨token .semicolon, tokens.drop 2⟩, {}⟩
    let failure := Diagnostic.warning .undefinedLocal (.point .start) "odd"
    Ends tokens ∧ s.cursor.StandsAt tokens 1 ∧ s.journal.aborted = false ∧
      ∃ (k : Nat) (stop : Token) (c : Cursor) (j : Journal),
        IsLeast (Cursor.stopsFrom tokens .semicolon 2) k ∧ tokens[k]? = some stop ∧
        Parse.recover false failure .semicolon true s = .ok stop.kind ⟨c, j⟩ ∧
        c.StandsAt tokens (min (k + 1) 5) ∧ j.warnings = [failure] := by
  intro token tokens s failure
  have hend : Ends tokens := by
    intro t ht
    have hlast : t = token .endOfInput := by simpa [tokens] using ht.getLast (by simp)
    rw [hlast]
  have hat : s.cursor.StandsAt tokens 1 := rfl
  obtain ⟨-, -, hrun⟩ := recover_contract false failure .semicolon true tokens 1 s hend hat
  obtain ⟨k, stop, c, j, hleast, hstop, hresult, hc, -, -, hgains⟩ := hrun rfl rfl
  exact ⟨hend, hat, rfl, k, stop, c, j, hleast, hstop, hresult, hc, hgains.warnings⟩

end SqfCheck
