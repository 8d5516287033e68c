import SqfCheck.Proofs.Directives
import SqfCheck.Proofs.Inclusions

/-!
# Where the names of macros stand

Every definition of a macro that is recorded is one of a directive in its file, on the line on which
this directive begins, and its span marks the name in the file exactly if that line defines the name
in the plain form (`definitions_ofSource`) : one number sign, the word `define` and the name, apart
from blanks. The name is read from the text of the whole directive, of which the sign may be
repeated and the name may stand on a later line. Its column is looked for on the first line alone,
after one sign and one word (`Directive.nameRest`). So in the other forms a span marks something
else (`not_marks_repeated_sign`).
-/

namespace SqfCheck

open Text

/-- The word stands in the text on the line and in the columns of the span. -/
def Span.Marks (span : Span) (text word : List Char) : Prop :=
  ∃ i before after, (splitOn '\n' text)[i]? = some (before ++ word ++ after) ∧
    span = ⟨⟨i + 1, before.length + 1⟩, ⟨i + 1, before.length + word.length⟩⟩

namespace Directive

/-- The line defines the name : a number sign, the word `define` and the name stand on it, with
nothing but blanks before each of them and at least one before the name. -/
def DefinesPlainly (line name : List Char) : Prop :=
  ∃ lead gap sep rest, line = lead ++ '#' :: (gap ++ ("define".toList ++ (sep ++ (name ++ rest)))) ∧
    (∀ c ∈ lead ++ gap ++ sep, isBlank c = true) ∧ sep ≠ []

/-! ## Directives and their first lines -/

/-- The text of a directive begins as its first line does, but for the backslash and the carriage
returns at the end of the line, which a newline stands for if the directive goes on. -/
def Begins (line text : List Char) : Prop :=
  ∃ front ending tail, line = front ++ ending ∧ text = front ++ tail ∧
    (∀ c ∈ ending, c = '\\' ∨ c = '\r') ∧ ∀ c ∈ tail.head?, c = '\n'

theorem begins_joined (line : List Char) (lines : List (List Char)) :
    Begins line (joined (line :: lines)) := by
  obtain ⟨returns, hline, hreturns⟩ := exists_dropEndWhile (· == '\r') line
  have hreturns : ∀ c ∈ returns, c = '\r' := by simpa using hreturns
  rw [joined]
  split
  · next hcontinues =>
    have hlast : (dropReturns line).dropLast ++ ['\\'] = dropReturns line :=
      List.dropLast_append_getLast? _ (by simpa [continues] using hcontinues)
    refine ⟨_, '\\' :: returns, _, ?_, rfl, ?_, by simp⟩
    · rw [List.append_cons, hlast]
      exact hline
    · simpa using fun c hc => .inr (hreturns c hc)
  · refine ⟨_, returns, [], hline, (List.append_nil _).symm, fun c hc => .inr (hreturns c hc), ?_⟩
    simp

/-! ## The name and its column -/

/-- What is left of a line after its blanks, one character, the letters that follow and the blanks
around them. -/
def nameRest (line : List Char) : List Char :=
  trimStart ((trimStart ((trimStart line).drop 1)).dropWhile Char.isAlpha)

theorem nameRest_isSuffix (line : List Char) : nameRest line <:+ line :=
  (List.dropWhile_suffix _).trans <| (List.dropWhile_suffix _).trans <|
    (List.dropWhile_suffix _).trans <| (List.drop_suffix _ _).trans (List.dropWhile_suffix _)

/-- A definition that is read has the name that follows the word `define`, with the line and the
column that are looked up for it. -/
theorem exists_of_read_definition {n : Nat} {line text : List Char} {name value : String}
    {arguments : Option String} {span : Span}
    (h : read n line text = some (.definition name arguments value span)) :
    (trimStart ((trimStart text).dropWhile (· == '#'))).takeWhile (fun c => !isBlank c) =
        "define".toList ∧
      name.toList ≠ [] ∧ (∀ c ∈ name.toList, continuesName c = true) ∧
      span = ⟨⟨n, nameColumn line⟩, ⟨n, nameColumn line + name.toList.length - 1⟩⟩ := by
  rw [read] at h
  split at h
  next word rest hsplit =>
  obtain ⟨rfl, rfl⟩ := Prod.mk.inj hsplit
  split at h
  · next hword =>
    refine ⟨hword, ?_⟩
    simp only [readDefinition] at h
    split at h
    · cases h
    · next hempty =>
      simp only [Option.some.injEq, Directive.definition.injEq] at h
      obtain ⟨rfl, -, -, rfl⟩ := h
      rw [String.toList_ofList]
      exact ⟨by simpa using hempty, fun c hc => List.mem_takeWhile_imp hc, rfl⟩
  · split at h
    · obtain ⟨file, hfile⟩ := exists_of_readInclusion h
      cases hfile
    · cases h

theorem marks_nameColumn_iff {text line name : List Char} {i : Nat}
    (hline : (splitOn '\n' text)[i]? = some line) :
    Span.Marks ⟨⟨i + 1, nameColumn line⟩, ⟨i + 1, nameColumn line + name.length - 1⟩⟩ text name ↔
      name <+: nameRest line := by
  obtain ⟨front, hfront⟩ := nameRest_isSuffix line
  have hcolumn : nameColumn line = front.length + 1 := by
    have hlength := congrArg List.length hfront
    rw [List.length_append] at hlength
    change line.length - (nameRest line).length + 1 = _
    omega
  rw [hcolumn]
  constructor
  · rintro ⟨j, before, after, hj, hspan⟩
    simp only [Span.mk.injEq, Position.mk.injEq] at hspan
    obtain ⟨⟨hij, hbefore⟩, -⟩ := hspan
    obtain rfl : i = j := by omega
    have hwritten := hfront.trans (Option.some.inj (hline.symm.trans hj))
    rw [List.append_assoc] at hwritten
    exact ⟨after, (List.append_inj_right hwritten (by omega)).symm⟩
  · rintro ⟨after, hafter⟩
    refine ⟨i, front, after, ?_, ?_⟩
    · rw [hline, ← hfront, ← hafter, List.append_assoc]
    · rw [Nat.add_right_comm, Nat.add_sub_cancel]

/-! ## Lines that define a name -/

theorem continuesName_eq_false_of_isBlank {c : Char} (h : isBlank c = true) :
    continuesName c = false := by
  rw [← Bool.not_eq_true]
  intro hname
  rw [isBlank_eq_false_of_continuesName hname] at h
  cases h

theorem isAlpha_eq_false {c : Char} (h : continuesName c = false) : c.isAlpha = false := by
  simp only [continuesName, Char.isAlphanum, Bool.or_eq_false_iff] at h
  exact h.1.1

theorem nameRest_append {lead : List Char} (h : ∀ c ∈ lead, isBlank c = true) (rest : List Char) :
    nameRest (lead ++ '#' :: rest) = trimStart ((trimStart rest).dropWhile Char.isAlpha) := by
  rw [nameRest, trimStart_append h, trimStart_cons (by decide)]
  rfl

/-- After the word `define` the name is looked for where this word ends. -/
theorem trimStart_dropWhile_define {rest : List Char}
    (hrest : ∀ c ∈ rest.head?, continuesName c = false) :
    trimStart (("define".toList ++ rest).dropWhile Char.isAlpha) = trimStart rest := by
  have hword : ∀ d ∈ "define".toList, d.isAlpha = true := List.all_eq_true.1 rfl
  rw [List.dropWhile_append_of_pos hword]
  cases rest with
  | nil => rfl
  | cons c rest => rw [List.dropWhile_cons_of_neg (by simp [isAlpha_eq_false (hrest c rfl)])]

/-- A name that a line defines plainly is what is found after the sign and the word. -/
theorem DefinesPlainly.isPrefix {line name : List Char} (h : DefinesPlainly line name)
    (hname : name ≠ []) (hchars : ∀ c ∈ name, continuesName c = true) : name <+: nameRest line := by
  obtain ⟨lead, gap, sep, rest, rfl, hblank, hsep⟩ := h
  simp only [List.forall_mem_append] at hblank
  obtain ⟨⟨hlead, hgap⟩, hsepBlank⟩ := hblank
  obtain ⟨c, name, rfl⟩ := List.exists_cons_of_ne_nil hname
  obtain ⟨b, sep, rfl⟩ := List.exists_cons_of_ne_nil hsep
  have hc := isBlank_eq_false_of_continuesName (hchars c List.mem_cons_self)
  have hb := continuesName_eq_false_of_isBlank (hsepBlank b List.mem_cons_self)
  rw [nameRest_append hlead, trimStart_append hgap]
  rw [show trimStart ("define".toList ++ (b :: sep ++ (c :: name ++ rest))) =
    "define".toList ++ (b :: sep ++ (c :: name ++ rest)) from rfl]
  rw [trimStart_dropWhile_define (by simpa using hb), trimStart_append hsepBlank, List.cons_append,
    trimStart_cons hc]
  exact ⟨rest, rfl⟩

/-- A directive begins with its sign on its first line. -/
theorem Begins.exists_sign {line text : List Char} (h : Begins line text)
    (hopens : opens line = true) :
    ∃ lead front ending tail, line = lead ++ '#' :: (front ++ ending) ∧
      text = lead ++ '#' :: (front ++ tail) ∧ (∀ c ∈ lead, isBlank c = true) ∧
      (∀ c ∈ ending, c = '\\' ∨ c = '\r') ∧ ∀ c ∈ tail.head?, c = '\n' := by
  obtain ⟨start, ending, tail, hline, rfl, hending, htail⟩ := h
  obtain ⟨lead, rest, rfl, hlead⟩ := opens_iff.1 hopens
  have hsign : '#' ∉ ending := fun hmem => by simpa using hending _ hmem
  rcases List.append_eq_append_iff.1 hline with ⟨front, rfl, hrest⟩ | ⟨more, rfl, hmore⟩
  · cases front with
    | nil =>
      obtain rfl : '#' :: rest = ending := hrest
      exact absurd List.mem_cons_self hsign
    | cons c front =>
      obtain ⟨rfl, rfl⟩ := List.cons.inj hrest
      exact ⟨lead, front, ending, tail, rfl, by simp, hlead, hending, htail⟩
  · exact absurd (by simp [hmore]) hsign

/-- A word that is read ends where the text before `tail` does, if `tail` cannot go on with it. -/
theorem exists_of_takeWhile_append {p : Char → Bool} {cs tail word : List Char}
    (h : (cs ++ tail).takeWhile p = word) (htail : ∀ c ∈ tail.head?, p c = false) :
    ∃ rest, cs = word ++ rest ∧ ∀ c ∈ rest.head?, p c = false := by
  have hstop : tail.takeWhile p = [] := by
    cases tail with
    | nil => rfl
    | cons c tail => rw [List.takeWhile_cons_of_neg (by simp [htail c rfl])]
  have hword : cs.takeWhile p = word := by
    rw [← h, List.takeWhile_append, hstop, List.append_nil]
    split
    · next hlength => rw [(List.takeWhile_prefix p).eq_of_length hlength]
    · rfl
  refine ⟨cs.dropWhile p, ?_, fun c hc => head?_dropWhile hc⟩
  rw [← hword, List.takeWhile_append_dropWhile]

/-- A name that is found after the word `define` stands after blanks, if the word does not go on. -/
theorem exists_sep {rest : List Char} {d : Char} {name after : List Char}
    (hstop : ∀ c ∈ rest.head?, continuesName c = false) (hd : continuesName d = true)
    (h : trimStart (("define".toList ++ rest).dropWhile Char.isAlpha) = d :: name ++ after) :
    ∃ sep, rest = sep ++ (d :: name ++ after) ∧ (∀ c ∈ sep, isBlank c = true) ∧ sep ≠ [] := by
  obtain ⟨sep, found, rfl, hsep, hfound⟩ := exists_blanks rest
  rw [trimStart_dropWhile_define hstop, trimStart_append hsep, trimStart_eq_self hfound] at h
  subst h
  refine ⟨sep, rfl, hsep, ?_⟩
  rintro rfl
  rw [hstop d rfl] at hd
  cases hd

/-- What is found after the sign and the word on the first line of a definition is the name only if
this line defines it plainly. -/
theorem Begins.definesPlainly {line text name : List Char} (h : Begins line text)
    (hopens : opens line = true)
    (hword : (trimStart ((trimStart text).dropWhile (· == '#'))).takeWhile (fun c => !isBlank c) =
      "define".toList)
    (hname : name ≠ []) (hchars : ∀ c ∈ name, continuesName c = true)
    (hfound : name <+: nameRest line) : DefinesPlainly line name := by
  obtain ⟨lead, front, ending, tail, rfl, rfl, hlead, hending, htail⟩ := h.exists_sign hopens
  obtain ⟨gap, body, rfl, hgap, hbody⟩ := exists_blanks front
  obtain ⟨rest, hrest⟩ := hfound
  obtain ⟨d, name, rfl⟩ := List.exists_cons_of_ne_nil hname
  have hd := hchars d List.mem_cons_self
  have hnot : ∀ c ∈ ending, continuesName c = false := fun c hc => by
    rcases hending c hc with rfl | rfl <;> decide
  rw [List.append_assoc] at hword ⊢
  rw [nameRest_append hlead, List.append_assoc, trimStart_append hgap] at hrest
  cases body with
  | nil =>
    -- Only a backslash and carriage returns are left after the sign, and no name is among them.
    have hsuffix : d :: name ++ rest <:+ ending := by
      rw [hrest]
      exact (List.dropWhile_suffix _).trans
        ((List.dropWhile_suffix _).trans (List.dropWhile_suffix _))
    rw [hnot d (hsuffix.subset List.mem_cons_self)] at hd
    cases hd
  | cons c body =>
    have hc := hbody c rfl
    by_cases hsign : c = '#'
    · -- One sign is passed over, and another one is no name.
      obtain ⟨rfl, -⟩ : d = '#' ∧ name ++ rest = body ++ ending := by
        simpa [hsign, trimStart, isBlank, Char.isAlpha] using hrest
      cases hd
    · have hblank := List.forall_mem_append.2 ⟨hlead, hgap⟩
      have hbody := trimStart_signs hblank (List.forall_mem_singleton.2 rfl) hc hsign (body ++ tail)
      rw [List.singleton_append] at hbody
      rw [List.cons_append, hbody, ← List.cons_append] at hword
      have hnewline : ∀ x ∈ tail.head?, (!isBlank x) = false := fun x hx => by
        rw [htail x hx]
        rfl
      obtain ⟨after, hafter, hhead⟩ := exists_of_takeWhile_append hword hnewline
      have hstop : ∀ x ∈ (after ++ ending).head?, continuesName x = false := by
        intro x hx
        cases after with
        | nil => exact hnot x (List.mem_of_mem_head? hx)
        | cons y after =>
          obtain rfl : y = x := by simpa using hx
          exact continuesName_eq_false_of_isBlank (by simpa using hhead y rfl)
      have hself : trimStart (c :: body ++ ending) = c :: body ++ ending := trimStart_cons hc _
      rw [hself, hafter, List.append_assoc] at hrest
      obtain ⟨sep, hsep, hblank, hne⟩ := exists_sep hstop hd hrest.symm
      refine ⟨lead, gap, sep, rest, ?_, ?_, hne⟩
      · rw [hafter, List.append_assoc, hsep]
      · simp only [List.forall_mem_append]
        exact ⟨⟨hlead, hgap⟩, hblank⟩

/-- A definition of a script is read from a line that begins a directive, and its span marks the
name exactly if this line defines it plainly. -/
theorem exists_of_definition_mem_all {source name value : String} {arguments : Option String}
    {span : Span} (h : .definition name arguments value span ∈ all source) :
    ∃ i line, (splitOn '\n' source.toList)[i]? = some line ∧ opens line = true ∧
      span.first.line = i + 1 ∧ span.last.line = i + 1 ∧
      (span.Marks source.toList name.toList ↔ DefinesPlainly line name.toList) := by
  obtain ⟨i, line, hline, hopens, -, hread⟩ := mem_all_iff.1 h
  obtain ⟨lines, hlines⟩ : ∃ lines, (splitOn '\n' source.toList).drop i = line :: lines := by
    obtain ⟨hi, rfl⟩ := List.getElem?_eq_some_iff.1 hline
    exact ⟨_, List.drop_eq_getElem_cons hi⟩
  rw [hlines] at hread
  obtain ⟨hword, hname, hchars, rfl⟩ := exists_of_read_definition hread
  refine ⟨i, line, hline, hopens, Nat.add_comm 1 i, Nat.add_comm 1 i, ?_⟩
  rw [Nat.add_comm 1 i, marks_nameColumn_iff hline]
  have hbegins := begins_joined line lines
  exact ⟨hbegins.definesPlainly hopens hword hname hchars, fun h => h.isPrefix hname hchars⟩

end Directive

/-! ## What is recorded -/

theorem Ledger.mem_definitions_addDefinition {name : String} {arguments : Option String}
    {d e : MacroDefinition} {m : MacroRecord} {ms : List MacroRecord}
    (hm : m ∈ addDefinition name arguments d ms) (he : e ∈ m.definitions) :
    (∃ m' ∈ ms, m'.name = m.name ∧ e ∈ m'.definitions) ∨
      foldCase name = foldCase m.name ∧ e = d := by
  induction ms with
  | nil =>
    obtain rfl := List.mem_singleton.1 hm
    exact .inr ⟨rfl, List.mem_singleton.1 he⟩
  | cons m' ms ih =>
    rw [addDefinition] at hm
    split_ifs at hm with hsame
    · rcases List.mem_cons.1 hm with rfl | hm
      · rcases List.mem_append.1 he with he | he
        · exact .inl ⟨m', List.mem_cons_self, rfl, he⟩
        · exact .inr ⟨hsame.symm, List.mem_singleton.1 he⟩
      · exact .inl ⟨m, List.mem_cons_of_mem _ hm, rfl, he⟩
    · rcases List.mem_cons.1 hm with rfl | hm
      · exact .inl ⟨m, List.mem_cons_self, rfl, he⟩
      · rcases ih hm with ⟨m', hm', hrest⟩ | hnew
        · exact .inl ⟨m', List.mem_cons_of_mem _ hm', hrest⟩
        · exact .inr hnew

/-- Every definition in a ledger is one that is written in the text of its file, under a spelling of
the macro's name. -/
def Ledger.Written (Known : Path → String → Prop) (l : Ledger) : Prop :=
  ∀ m ∈ l.macros, ∀ d ∈ m.definitions, ∃ text written arguments, Known d.file text ∧
    .definition written arguments d.value d.span ∈ Directive.all text ∧
    foldCase written = foldCase m.name

theorem Survey.written_note {Known : Path → String → Prop} {files : Files} {root : Option Path}
    {source : Path} {text : String} {s : Survey} {d : Directive} (hknown : Known source text)
    (hd : d ∈ Directive.all text) (hs : s.ledger.Written Known) :
    (note files root source s d).ledger.Written Known := by
  cases d with
  | definition written arguments value span =>
    intro m hm e he
    rcases Ledger.mem_definitions_addDefinition hm he with ⟨m', hm', hname, he⟩ | ⟨hname, rfl⟩
    · exact hname ▸ hs m' hm' e he
    · exact ⟨text, written, arguments, hknown, hd, hname⟩
  | inclusion file =>
    rw [ledger_note_inclusion]
    exact hs

/-- Every definition of a macro that is recorded for a script or a file that it includes is one of a
directive in the text of that file, under a spelling of the macro's name. Its span is on the line
on which this directive begins. It marks the name as written there exactly if the line defines it
plainly, with one number sign, the word `define` and the name, all of them on this line. -/
theorem definitions_ofSource (files : Files) (root : Option Path) (name : Path) (source : String)
    {m : MacroRecord} {d : MacroDefinition}
    (hm : m ∈ (Prepared.ofSource files root name source).ledger.macros) (hd : d ∈ m.definitions) :
    ∃ text written arguments i line,
      (d.file = name ∧ text = source ∨ files.read d.file = .ok text) ∧
      .definition written arguments d.value d.span ∈ Directive.all text ∧
      foldCase written = foldCase m.name ∧
      (splitOn '\n' text.toList)[i]? = some line ∧ Directive.opens line = true ∧
      d.span.first.line = i + 1 ∧ d.span.last.line = i + 1 ∧
      (d.span.Marks text.toList written.toList ↔
        Directive.DefinesPlainly line written.toList) := by
  let Known (path : Path) (text : String) :=
    path = name ∧ text = source ∨ files.read path = .ok text
  have hwritten : (Prepared.ofSource files root name source).ledger.Written Known :=
    Survey.enter_keeps (P := fun s => s.ledger.Written Known) (fun _ _ h => .inr h)
      (fun _ _ _ hknown _ hd hs => Survey.written_note hknown hd hs) _ _ _ _ (.inl ⟨rfl, rfl⟩)
      (by simp [Ledger.Written])
  obtain ⟨text, written, arguments, hknown, hmem, hname⟩ := hwritten m hm d hd
  obtain ⟨i, line, hrest⟩ := Directive.exists_of_definition_mem_all hmem
  exact ⟨text, written, arguments, i, line, hknown, hmem, hname, hrest⟩

/-- In an included file, the name of a macro with an argument and a value that goes on in the next
line. -/
theorem definitions_ofSource_included :
    let text := "  #  define\tLONG(a) 1 \\\n 2"
    let files := Files.memory [(⟨"/m/macros.hpp"⟩, text)]
    let d : MacroDefinition := ⟨⟨"/m/macros.hpp"⟩, ⟨⟨1, 13⟩, ⟨1, 16⟩⟩, "1 \n 2"⟩
    ⟨"LONG", some "a", [d]⟩ ∈
        (Prepared.ofSource files none ⟨"/m/init.sqf"⟩ "#include \"macros.hpp\"").ledger.macros ∧
      d.span.Marks text.toList "LONG".toList := by
  intro text files d
  have hm : ⟨"LONG", some "a", [d]⟩ ∈
      (Prepared.ofSource files none ⟨"/m/init.sqf"⟩ "#include \"macros.hpp\"").ledger.macros := by
    decide +kernel
  refine ⟨hm, ?_⟩
  obtain ⟨read, written, arguments, i, line, hread, hmem, -, hline, -, hi, -, hmarks⟩ :=
    definitions_ofSource files none ⟨"/m/init.sqf"⟩ _ hm List.mem_cons_self
  obtain ⟨hfile, -⟩ | hread := hread
  · exact absurd hfile (by decide)
  have hheld : files.read d.file = .ok text := by decide +kernel
  obtain rfl := Except.ok.inj (hheld.symm.trans hread)
  have hall : Directive.all text = [.definition "LONG" (some "a") d.value d.span] := by
    decide +kernel
  rw [hall, List.mem_singleton, Directive.definition.injEq] at hmem
  obtain ⟨rfl, -⟩ := hmem
  obtain rfl : i = 0 := (Nat.succ.inj hi).symm
  have hfirst : (splitOn '\n' text.toList)[0]? = some "  #  define\tLONG(a) 1 \\".toList := by
    decide +kernel
  obtain rfl := Option.some.inj (hfirst.symm.trans hline)
  exact hmarks.2 ⟨[' ', ' '], [' ', ' '], ['\t'], "(a) 1 \\".toList, by decide +kernel,
    List.all_eq_true.1 rfl, by decide⟩

/-- With two number signs the span marks the second one, and not the name, which is in column
ten. -/
theorem not_marks_repeated_sign :
    (Prepared.ofSource (Files.memory []) none ⟨"init.sqf"⟩ "##define X 1").ledger.macros =
        [⟨"X", none, [⟨⟨"init.sqf"⟩, ⟨⟨1, 2⟩, ⟨1, 2⟩⟩, "1"⟩]⟩] ∧
      ¬Span.Marks ⟨⟨1, 2⟩, ⟨1, 2⟩⟩ "##define X 1".toList "X".toList ∧
      Span.Marks ⟨⟨1, 10⟩, ⟨1, 10⟩⟩ "##define X 1".toList "X".toList := by
  refine ⟨by decide +kernel, ?_, 0, "##define ".toList, " 1".toList, by decide, by decide⟩
  have hline : (splitOn '\n' "##define X 1".toList)[0]? = some "##define X 1".toList := by
    decide +kernel
  exact fun h => absurd ((Directive.marks_nameColumn_iff hline).1 h) (by decide)

end SqfCheck
