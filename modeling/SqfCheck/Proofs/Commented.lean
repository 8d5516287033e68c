import SqfCheck.Proofs.CommentTexts
import SqfCheck.Proofs.Directives
import SqfCheck.Proofs.Inclusions
import SqfCheck.Proofs.Positions

/-!
# Directives in comments

Directives are looked for line by line, whatever the lines are part of. So a comment does not hide
a directive from being recorded, and if the comment ends on a line of the directive, its end is
emptied too and it takes in what follows (`commented_definition`). Short of that, directives in
comments do no harm to the tokens (`directives_commented`).

For tokens, the lines of the script are taken lexeme by lexeme. `Directive.blankOn` empties the
directives of a text whose first line goes on with one that is no line of a directive, and this can
be done for a lexeme and what follows it apart (`Directive.blankOn_append`), since the line where
they meet is none of a directive either (`SignsCommented.meets`). So only comments change, in lines
between their first and their last, and a text is cut in the same way whatever its comments hold
(`Lexeme.all_of_altered`).
-/

namespace SqfCheck

open Text

/-- Only blanks stand between the beginning of a line and the end of the text. -/
def LeadsLine (before : List Char) : Prop :=
  ∃ earlier blanks, before = earlier ++ blanks ∧ (earlier = [] ∨ earlier.getLast? = some '\n') ∧
    ∀ c ∈ blanks, isBlank c = true

/-- Every number sign of the text that only has blanks before it on its line stands in a block
comment. -/
def SignsCommented (cs : List Char) : Prop :=
  ∀ ls l ms start rest, Lexeme.all cs = ls ++ l :: ms → l.text = start ++ '#' :: rest →
    LeadsLine (ls.flatMap Lexeme.text ++ start) → l.IsBlockComment

instance (l : Lexeme) : Decidable l.IsBlockComment :=
  inferInstanceAs (Decidable (_ ∧ _))

/-- The last line of the lexeme is one of a directive that begins in the lexeme. -/
def Lexeme.EndsInDirective (l : Lexeme) : Prop :=
  Directive.InDirective (splitOn '\n' l.text) ((splitOn '\n' l.text).length - 1)

instance (l : Lexeme) : Decidable l.EndsInDirective :=
  inferInstanceAs (Decidable (Directive.InDirective _ _))

/-- No block comment of the text ends in a directive that begins in it. -/
def CommentsEndPlainly (cs : List Char) : Prop :=
  ∀ l ∈ Lexeme.all cs, l.IsBlockComment → ¬l.EndsInDirective

instance (cs : List Char) : Decidable (CommentsEndPlainly cs) :=
  inferInstanceAs (Decidable (∀ l ∈ Lexeme.all cs, _))

/-! ## Lines of texts one after the other -/

namespace Text

theorem intercalate_cons (sep line : List Char) (lines : List (List Char)) :
    sep.intercalate (line :: lines) = line ++ lines.flatMap (sep ++ ·) := by
  induction lines generalizing line with
  | nil => simp
  | cons next lines ih =>
    rw [List.intercalate_cons_cons, ih, List.flatMap_cons, List.append_assoc, List.append_assoc]

theorem intercalate_append (sep : List Char) (xs : List (List Char)) (x y : List Char)
    (ys : List (List Char)) :
    sep.intercalate (xs ++ [x]) ++ sep.intercalate (y :: ys) =
      sep.intercalate (xs ++ (x ++ y) :: ys) := by
  cases xs with
  | nil => simp [intercalate_cons]
  | cons z xs => simp [intercalate_cons]

theorem splitOn_append {sep : Char} {cs ds x y : List Char} {xs ys : List (List Char)}
    (hcs : splitOn sep cs = xs ++ [x]) (hds : splitOn sep ds = y :: ys) :
    splitOn sep (cs ++ ds) = xs ++ (x ++ y) :: ys := by
  have hx := not_mem_of_mem_splitOn sep cs
  have hy := not_mem_of_mem_splitOn sep ds
  rw [hcs, List.forall_mem_append, List.forall_mem_singleton] at hx
  rw [hds, List.forall_mem_cons] at hy
  have hpieces : ∀ line ∈ xs ++ (x ++ y) :: ys, sep ∉ line := by
    rw [List.forall_mem_append, List.forall_mem_cons, List.mem_append, not_or]
    exact ⟨hx.1, ⟨hx.2, hy.1⟩, hy.2⟩
  rw [← intercalate_splitOn sep cs, ← intercalate_splitOn sep ds, hcs, hds, intercalate_append,
    splitOn_eq, List.splitOn_intercalate sep hpieces (by simp)]

theorem exists_splitOn_cons (sep : Char) (cs : List Char) :
    ∃ first lines, splitOn sep cs = first :: lines :=
  List.exists_cons_of_ne_nil (splitOn_ne_nil sep cs)

theorem exists_splitOn_concat (sep : Char) (cs : List Char) :
    ∃ lines last, splitOn sep cs = lines ++ [last] := by
  obtain hnil | ⟨lines, last, h⟩ := (splitOn sep cs).eq_nil_or_concat
  · exact absurd hnil (splitOn_ne_nil sep cs)
  · exact ⟨lines, last, by rw [h, List.concat_eq_append]⟩

/-- A line that is not the first follows a newline. -/
theorem eq_append_of_splitOn {cs first line : List Char} {init lines : List (List Char)}
    (h : splitOn '\n' cs = first :: (init ++ line :: lines)) :
    cs = first ++ init.flatMap ('\n' :: ·) ++ ['\n'] ++ (line ++ lines.flatMap ('\n' :: ·)) := by
  rw [← intercalate_splitOn '\n' cs, h, intercalate_cons]
  simp

end Text

namespace Directive

/-- The lines with those of directives emptied, where the first line goes on with a line that is
none of a directive. -/
def blankAfterFirst : List (List Char) → List (List Char)
  | [] => []
  | line :: lines => line :: blankLines false lines

/-- The text with the lines of directives emptied, where it goes on with a line that is none of a
directive. -/
def blankOn (cs : List Char) : List Char :=
  ['\n'].intercalate (blankAfterFirst (splitOn '\n' cs))

theorem carries_of_not_opens {lines : List (List Char)} (h : ∀ line ∈ lines, opens line = false) :
    carries false lines = false := by
  induction lines with
  | nil => rfl
  | cons line lines ih =>
    obtain ⟨hline, hlines⟩ := List.forall_mem_cons.1 h
    rw [carries, List.foldl_cons, hline]
    exact ih hlines

theorem opens_append_of_opens {line : List Char} (h : opens line = true) (more : List Char) :
    opens (line ++ more) = true := by
  obtain ⟨before, after, rfl, hblank⟩ := opens_iff.1 h
  exact opens_iff.2 ⟨before, after ++ more, by simp, hblank⟩

/-- A line begins a directive if its beginning does or is blank and the rest begins one. -/
theorem opens_append {line more : List Char} (h : opens (line ++ more) = true) :
    opens line = true ∨ (∀ c ∈ line, isBlank c = true) ∧ opens more = true := by
  obtain ⟨before, after, heq, hblank⟩ := opens_iff.1 h
  rcases List.append_eq_append_iff.1 heq with ⟨between, rfl, hmore⟩ | ⟨between, rfl, hline⟩
  · refine .inr ⟨fun c hc => hblank c (List.mem_append_left _ hc), ?_⟩
    exact opens_iff.2 ⟨between, after, hmore, fun c hc => hblank c (List.mem_append_right _ hc)⟩
  · cases between with
    | nil =>
      refine .inr ⟨by simpa using hblank, opens_iff.2 ⟨[], after, ?_, by simp⟩⟩
      simpa using hline.symm
    | cons c between =>
      obtain ⟨rfl, -⟩ := List.cons.inj hline
      exact .inl (opens_iff.2 ⟨before, between, rfl, hblank⟩)

/-- A text is emptied apart from the text after it, if the line where they meet is none of a
directive. -/
theorem blankOn_append {cs ds x y : List Char} {xs ys : List (List Char)}
    (hcs : splitOn '\n' cs = xs ++ [x]) (hds : splitOn '\n' ds = y :: ys)
    (hlast : xs ≠ [] → carries false xs.tail = false ∧ opens (x ++ y) = false) :
    blankOn (cs ++ ds) = blankOn cs ++ blankOn ds := by
  rw [blankOn, splitOn_append hcs hds, blankOn, hcs, blankOn, hds]
  cases xs with
  | nil => exact (intercalate_append ['\n'] [] x y (blankLines false ys)).symm
  | cons first init =>
    obtain ⟨hcarries, hopens⟩ := hlast (List.cons_ne_nil _ _)
    have hx : opens x = false := by
      rw [← Bool.not_eq_true]
      intro hx
      rw [opens_append_of_opens hx] at hopens
      cases hopens
    have hkept : blankLines false [x] = [x] := by simp [blankLines, hx]
    have hmeet : blankLines false ((x ++ y) :: ys) = (x ++ y) :: blankLines false ys := by
      simp [blankLines, hopens]
    rw [List.tail_cons] at hcarries
    simp only [List.cons_append, blankAfterFirst, blankLines_append, hcarries, hkept, hmeet]
    exact (intercalate_append ['\n'] (first :: blankLines false init) x y _).symm

theorem blankOn_of_not_opens {cs first : List Char} {lines : List (List Char)}
    (hcs : splitOn '\n' cs = first :: lines) (h : ∀ line ∈ lines, opens line = false) :
    blankOn cs = cs := by
  rw [blankOn, hcs, blankAfterFirst, blankLines_of_not_opens h, ← hcs, intercalate_splitOn]

end Directive

/-! ## Signs -/

theorem LeadsLine.append {before blanks : List Char} (h : LeadsLine before)
    (hblanks : ∀ c ∈ blanks, isBlank c = true) : LeadsLine (before ++ blanks) := by
  obtain ⟨earlier, lead, rfl, hearlier, hlead⟩ := h
  exact ⟨earlier, lead ++ blanks, by simp, hearlier, List.forall_mem_append.2 ⟨hlead, hblanks⟩⟩

theorem leadsLine_newline (before : List Char) : LeadsLine (before ++ ['\n']) :=
  ⟨before ++ ['\n'], [], by simp, .inr (by simp), by simp⟩

/-- If all number signs stand in block comments, those that begin lines do. -/
theorem signsCommented_of_mem {cs : List Char}
    (h : ∀ l ∈ Lexeme.all cs, '#' ∈ l.text → l.IsBlockComment) : SignsCommented cs := by
  intro ls l ms start rest hcs hl _
  exact h l (by simp [hcs]) (by simp [hl])

/-- A character stands in one of the lexemes. -/
theorem Lexeme.exists_of_flatMap_text {c : Char} : ∀ {ls : List Lexeme} {before after : List Char},
    ls.flatMap text = before ++ c :: after → ∃ ls₁ l ls₂ start rest, ls = ls₁ ++ l :: ls₂ ∧
      before = ls₁.flatMap text ++ start ∧ l.text = start ++ c :: rest
  | [], before, after, h => by simp at h
  | l :: ls, before, after, h => by
    rw [List.flatMap_cons] at h
    have hlater : ∀ {more}, ls.flatMap text = more ++ c :: after → before = l.text ++ more →
        ∃ ls₁ m ls₂ start rest, l :: ls = ls₁ ++ m :: ls₂ ∧
          before = ls₁.flatMap text ++ start ∧ m.text = start ++ c :: rest := by
      intro more hmore hbefore
      obtain ⟨ls₁, m, ls₂, start, rest, rfl, hstart, hm⟩ := exists_of_flatMap_text hmore
      exact ⟨l :: ls₁, m, ls₂, start, rest, rfl, by simp [hbefore, hstart], hm⟩
    rcases List.append_eq_append_iff.1 h with ⟨more, hbefore, hmore⟩ | ⟨more, htext, hmore⟩
    · exact hlater hmore hbefore
    · cases more with
      | nil =>
        have hnext : ls.flatMap text = [] ++ c :: after := hmore.symm
        exact hlater hnext (by rw [htext, List.append_nil, List.append_nil])
      | cons d more =>
        obtain ⟨rfl, -⟩ := List.cons.inj hmore
        exact ⟨[], l, ls, before, more, rfl, rfl, htext⟩

namespace SignsCommented

variable {cs : List Char} {ls ms : List Lexeme} {l : Lexeme}

/-- Where a line has only blanks so far, it does not go on with a number sign. -/
theorem not_opens (h : SignsCommented cs) (hcs : Lexeme.all cs = ls ++ ms)
    (hleads : LeadsLine (ls.flatMap Lexeme.text)) {line : List Char} {lines : List (List Char)}
    (hms : splitOn '\n' (ms.flatMap Lexeme.text) = line :: lines) :
    Directive.opens line = false := by
  rw [← Bool.not_eq_true]
  intro hopens
  obtain ⟨blanks, after, rfl, hblanks⟩ := Directive.opens_iff.1 hopens
  have htext : ms.flatMap Lexeme.text =
      blanks ++ '#' :: (after ++ lines.flatMap (['\n'] ++ ·)) := by
    rw [← intercalate_splitOn '\n' (ms.flatMap Lexeme.text), hms, intercalate_cons]
    simp
  obtain ⟨ms₁, l, ms₂, start, rest, rfl, hstart, hl⟩ := Lexeme.exists_of_flatMap_text htext
  obtain ⟨-, body, hbody⟩ : l.IsBlockComment := by
    refine h (ls ++ ms₁) l ms₂ start rest (by rw [hcs, List.append_assoc]) hl ?_
    rw [List.flatMap_append, List.append_assoc, ← hstart]
    exact hleads.append hblanks
  -- The slash of the comment would stand before the sign.
  cases start with
  | nil => simp [hl] at hbody
  | cons d start =>
    rw [hl] at hbody
    obtain ⟨rfl, -⟩ := List.cons.inj hbody
    have hslash := hblanks '/' (by simp [hstart])
    cases hslash

/-- Outside of block comments no line begins with a number sign. -/
theorem not_opens_of_mem (h : SignsCommented cs) (hcs : Lexeme.all cs = ls ++ l :: ms)
    (hl : ¬l.IsBlockComment) {first : List Char} {lines : List (List Char)}
    (hlines : splitOn '\n' l.text = first :: lines) :
    ∀ line ∈ lines, Directive.opens line = false := by
  intro line hline
  rw [← Bool.not_eq_true]
  intro hopens
  obtain ⟨blanks, after, rfl, hblanks⟩ := Directive.opens_iff.1 hopens
  obtain ⟨init, rest, rfl⟩ := List.append_of_mem hline
  have htext := eq_append_of_splitOn hlines
  generalize first ++ init.flatMap ('\n' :: ·) = before at htext
  refine hl (h ls l ms (before ++ ['\n'] ++ blanks) (after ++ rest.flatMap ('\n' :: ·)) hcs ?_ ?_)
  · rw [htext]
    simp
  · rw [← List.append_assoc, ← List.append_assoc]
    exact (leadsLine_newline _).append hblanks

/-- Where a lexeme ends that is no block comment, no line of a directive ends either. -/
theorem meets (h : SignsCommented cs) (hcs : Lexeme.all cs = ls ++ l :: ms)
    (hl : ¬l.IsBlockComment) {x y : List Char} {xs ys : List (List Char)}
    (hx : splitOn '\n' l.text = xs ++ [x])
    (hy : splitOn '\n' (ms.flatMap Lexeme.text) = y :: ys) (hxs : xs ≠ []) :
    Directive.carries false xs.tail = false ∧ Directive.opens (x ++ y) = false := by
  obtain ⟨first, init, rfl⟩ := List.exists_cons_of_ne_nil hxs
  have hlines : ∀ line ∈ init ++ [x], Directive.opens line = false := h.not_opens_of_mem hcs hl hx
  rw [List.forall_mem_append, List.forall_mem_singleton] at hlines
  refine ⟨Directive.carries_of_not_opens hlines.1, ?_⟩
  rw [← Bool.not_eq_true]
  intro hopens
  rcases Directive.opens_append hopens with hopens | ⟨hblank, hopens⟩
  · rw [hlines.2] at hopens
    cases hopens
  · have hleads : LeadsLine ((ls ++ [l]).flatMap Lexeme.text) := by
      have htext := eq_append_of_splitOn hx
      rw [List.flatMap_nil, List.append_nil] at htext
      rw [List.flatMap_append, List.flatMap_singleton, htext, ← List.append_assoc,
        ← List.append_assoc]
      exact (leadsLine_newline _).append hblank
    rw [h.not_opens (by rw [hcs, List.append_assoc]; rfl) hleads hy] at hopens
    cases hopens

end SignsCommented

/-! ## Comments with lines emptied -/

theorem lacksEnd_newline {cs ds : List Char} :
    LacksEnd (cs ++ '\n' :: ds) ↔ LacksEnd cs ∧ LacksEnd ds := by
  induction cs with
  | nil => simp [lacksEnd_cons, lacksEnd_nil]
  | cons c cs ih =>
    rw [List.cons_append, lacksEnd_cons, ih, lacksEnd_cons, and_assoc]
    cases cs <;> simp

theorem lacksEnd_intercalate {line : List Char} {lines : List (List Char)} :
    LacksEnd (['\n'].intercalate (line :: lines)) ↔ ∀ l ∈ line :: lines, LacksEnd l := by
  induction lines generalizing line with
  | nil => simp
  | cons next lines ih =>
    rw [List.intercalate_cons_cons, List.append_assoc, List.singleton_append, lacksEnd_newline, ih]
    simp only [List.forall_mem_cons]

/-- Lines that are emptied do not move what follows, if the last line is left. -/
theorem Position.after_emptied : ∀ {emptied lines : List (List Char)},
    Directive.Emptied emptied lines → (∀ line ∈ lines, '\n' ∉ line) →
      emptied.getLast? = lines.getLast? → ∀ p : Position,
        p.after (['\n'].intercalate emptied) = p.after (['\n'].intercalate lines)
  | _, _, .nil, _, _, p => rfl
  | [e], [line], .cons _ .nil, _, hlast, p => by
    obtain rfl : e = line := by simpa using hlast
    rfl
  | e :: e' :: es, line :: line' :: lines, .cons he (.cons he' hes), hlines, hlast, p => by
    have hline := hlines line List.mem_cons_self
    have hnone : '\n' ∉ e := by
      rcases he with rfl | rfl
      · exact hline
      · simp
    have ih := after_emptied (.cons he' hes) (fun l hl => hlines l (List.mem_cons_of_mem _ hl))
      (by simpa using hlast)
    rw [List.intercalate_cons_cons, List.append_assoc, List.singleton_append, p.after_line hnone,
      List.intercalate_cons_cons, List.append_assoc, List.singleton_append, p.after_line hline, ih]

namespace Directive

/-- The last line of the text is none of a directive, if it is not the first, which is none. -/
def EndsPlainly (cs : List Char) : Prop :=
  ∀ xs x, splitOn '\n' cs = xs ++ [x] → xs ≠ [] → carries false xs.tail = false ∧ opens x = false

theorem blankOn_cons {c : Char} (hc : c ≠ '\n') (cs : List Char) :
    blankOn (c :: cs) = c :: blankOn cs := by
  obtain ⟨y, ys, hcs⟩ := exists_splitOn_cons '\n' cs
  have hsplit : splitOn '\n' [c] = [] ++ [[c]] := by simp [splitOn, hc]
  have happend := blankOn_append hsplit hcs fun h => absurd rfl h
  rw [List.singleton_append] at happend
  rw [happend, blankOn, hsplit]
  rfl

/-- Of a comment only lines between its first and its last are emptied. -/
theorem blankOn_comment {body : List Char} (hbody : EndsPlainly body) (rest : List Char) :
    blankOn ('/' :: '*' :: (body ++ ['*', '/']) ++ rest) =
      '/' :: '*' :: (blankOn body ++ ['*', '/']) ++ blankOn rest := by
  obtain ⟨xs, x, hx⟩ := exists_splitOn_concat '\n' body
  obtain ⟨y, ys, hy⟩ := exists_splitOn_cons '\n' rest
  have hends : splitOn '\n' (['*', '/'] ++ rest) = (['*', '/'] ++ y) :: ys :=
    splitOn_append (show splitOn '\n' ['*', '/'] = [] ++ [['*', '/']] by decide) hy
  have hmeet : xs ≠ [] →
      carries false xs.tail = false ∧ opens (x ++ (['*', '/'] ++ y)) = false := by
    intro hxs
    obtain ⟨hcarries, hopens⟩ := hbody xs x hx hxs
    refine ⟨hcarries, eq_false_of_ne_true fun hmeet => ?_⟩
    rcases opens_append hmeet with hx | ⟨-, hstar⟩
    · rw [hopens] at hx
      cases hx
    · cases hstar
  have happend := blankOn_append hx hends hmeet
  simp only [List.cons_append, List.append_assoc, List.nil_append] at happend ⊢
  rw [blankOn_cons (by decide), blankOn_cons (by decide), happend, blankOn_cons (by decide),
    blankOn_cons (by decide)]

theorem blankOn_comment_self {body : List Char} (hbody : EndsPlainly body) :
    blankOn ('/' :: '*' :: (body ++ ['*', '/'])) = '/' :: '*' :: (blankOn body ++ ['*', '/']) := by
  have happend := blankOn_comment hbody []
  rwa [List.append_nil, show blankOn [] = [] from rfl, List.append_nil] at happend

theorem lacksEnd_blankOn {cs : List Char} (h : LacksEnd cs) : LacksEnd (blankOn cs) := by
  obtain ⟨first, lines, hcs⟩ := exists_splitOn_cons '\n' cs
  rw [← intercalate_splitOn '\n' cs, hcs, lacksEnd_intercalate, List.forall_mem_cons] at h
  rw [blankOn, hcs, blankAfterFirst, lacksEnd_intercalate, List.forall_mem_cons]
  refine ⟨h.1, fun line hline => ?_⟩
  rcases mem_blankLines hline with rfl | hline
  · exact lacksEnd_nil
  · exact h.2 line hline

theorem after_blankOn {cs : List Char} (h : EndsPlainly cs) (p : Position) :
    p.after (blankOn cs) = p.after cs := by
  obtain ⟨xs, x, hx⟩ := exists_splitOn_concat '\n' cs
  have hlines := not_mem_of_mem_splitOn '\n' cs
  conv_rhs => rw [← intercalate_splitOn '\n' cs]
  rw [blankOn]
  rw [hx] at hlines ⊢
  cases xs with
  | nil => rfl
  | cons first init =>
    obtain ⟨hcarries, hopens⟩ := h _ x hx (List.cons_ne_nil _ _)
    have hkept : blankLines false (init ++ [x]) = blankLines false init ++ [x] := by
      rw [List.tail_cons] at hcarries
      simp [blankLines_append, hcarries, blankLines, hopens]
    refine Position.after_emptied (.cons (.inl rfl) (emptied_blankLines _ _)) hlines ?_ p
    show (first :: blankLines false (init ++ [x])).getLast? = (first :: (init ++ [x])).getLast?
    rw [hkept, ← List.cons_append, List.getLast?_concat, ← List.cons_append, List.getLast?_concat]

/-- What a comment that does not end in a directive holds does not end in one either. -/
theorem endsPlainly_of_comment {l : Lexeme} {body : List Char}
    (htext : l.text = '/' :: '*' :: (body ++ ['*', '/'])) (hends : ¬l.EndsInDirective) :
    EndsPlainly body := by
  intro xs x hx hxs
  obtain ⟨first, init, rfl⟩ := List.exists_cons_of_ne_nil hxs
  have hlines : splitOn '\n' l.text =
      (['/', '*'] ++ first) :: (init ++ [x ++ ['*', '/']]) := by
    rw [htext]
    exact splitOn_append (show splitOn '\n' ['/', '*'] = [] ++ [['/', '*']] by decide)
      (splitOn_append hx (show splitOn '\n' ['*', '/'] = [['*', '/']] by decide))
  have hopen :
      (carries false ((['/', '*'] ++ first) :: init) || opens (x ++ ['*', '/'])) = false := by
    refine eq_false_of_ne_true fun hin => hends ?_
    rw [Lexeme.EndsInDirective, hlines, inDirective_iff]
    exact ⟨x ++ ['*', '/'], by simp, by simpa using hin⟩
  rw [Bool.or_eq_false_iff] at hopen
  refine ⟨hopen.1, eq_false_of_ne_true fun hx => ?_⟩
  rw [opens_append_of_opens hx] at hopen
  cases hopen.2

end Directive

theorem CommentsEndPlainly.exists_body {cs : List Char} {l : Lexeme} (h : CommentsEndPlainly cs)
    (hmem : l ∈ Lexeme.all cs) (hl : l.IsBlockComment) :
    ∃ body, l.text = '/' :: '*' :: (body ++ ['*', '/']) ∧ LacksEnd body ∧
      Directive.EndsPlainly body := by
  obtain ⟨body, htext, hlacks⟩ := Lexeme.exists_body cs l hmem hl
  exact ⟨body, htext, hlacks, Directive.endsPlainly_of_comment htext (h l hmem hl)⟩

namespace SignsCommented

open Directive

variable {cs : List Char} {l : Lexeme}

theorem blankOn_of_not_comment (h : SignsCommented cs) (hmem : l ∈ Lexeme.all cs)
    (hl : ¬l.IsBlockComment) : blankOn l.text = l.text := by
  obtain ⟨ls, ms, hcs⟩ := List.append_of_mem hmem
  obtain ⟨first, lines, hlines⟩ := exists_splitOn_cons '\n' l.text
  exact blankOn_of_not_opens hlines (h.not_opens_of_mem hcs hl hlines)

/-- Emptying directives line by line comes to emptying them in each lexeme. -/
theorem blankOn_flatMap (h : SignsCommented cs) (hends : CommentsEndPlainly cs) :
    ∀ ms ls : List Lexeme, Lexeme.all cs = ls ++ ms →
      blankOn (ms.flatMap Lexeme.text) = ms.flatMap (blankOn ·.text)
  | [], _, _ => rfl
  | l :: ms, ls, hcs => by
    have ih := blankOn_flatMap h hends ms (ls ++ [l]) (by rw [hcs]; simp)
    rw [List.flatMap_cons, List.flatMap_cons, ← ih]
    by_cases hl : l.IsBlockComment
    · obtain ⟨body, htext, -, hbody⟩ := hends.exists_body (by simp [hcs]) hl
      rw [htext, blankOn_comment hbody, blankOn_comment_self hbody]
    · obtain ⟨xs, x, hx⟩ := exists_splitOn_concat '\n' l.text
      obtain ⟨y, ys, hy⟩ := exists_splitOn_cons '\n' (ms.flatMap Lexeme.text)
      exact blankOn_append hx hy (h.meets hcs hl hx hy)

/-- Emptying directives only changes comments, and not what follows them. -/
theorem emptied (h : SignsCommented cs) (hends : CommentsEndPlainly cs) (hmem : l ∈ Lexeme.all cs) :
    l.Altered ⟨l.cls, blankOn l.text⟩ ∧
      ∀ p : Position, p.after (blankOn l.text) = p.after l.text := by
  by_cases hl : l.IsBlockComment
  · obtain ⟨body, htext, hlacks, hbody⟩ := hends.exists_body hmem hl
    rw [htext, blankOn_comment_self hbody]
    constructor
    · rw [hl.1]
      exact .comment hl (lacksEnd_blankOn hlacks)
    · intro p
      calc p.after (['/', '*'] ++ (blankOn body ++ ['*', '/']))
          = ((p.after ['/', '*']).after (blankOn body)).after ['*', '/'] := by
            rw [Position.after_append, Position.after_append]
        _ = p.after (['/', '*'] ++ (body ++ ['*', '/'])) := by
            rw [after_blankOn hbody, Position.after_append, Position.after_append]
  · rw [h.blankOn_of_not_comment hmem hl]
    exact ⟨.same, fun _ => rfl⟩

/-- The lexemes of the text without directives are those of the text, with directives emptied in
each of them. -/
theorem all_blank {source : String} (h : SignsCommented source.toList)
    (hends : CommentsEndPlainly source.toList) :
    Lexeme.all (blank source).toList =
      (Lexeme.all source.toList).map fun l => ⟨l.cls, blankOn l.text⟩ := by
  obtain ⟨line, lines, hlines⟩ := exists_splitOn_cons '\n' source.toList
  have htext : splitOn '\n' ((Lexeme.all source.toList).flatMap Lexeme.text) = line :: lines := by
    rw [Lexeme.flatMap_text_all, hlines]
  have hopens : opens line = false :=
    h.not_opens (List.nil_append _).symm ⟨[], [], rfl, .inl rfl, by simp⟩ htext
  have hblank : (blank source).toList = blankOn source.toList := by
    rw [blank, String.toList_ofList, blankOn, hlines, blankAfterFirst, blankLines, hopens]
    rfl
  have htexts := h.blankOn_flatMap hends _ [] (List.nil_append _).symm
  rw [Lexeme.flatMap_text_all] at htexts
  have haltered : List.Forall₂ Lexeme.Altered (Lexeme.all source.toList)
      ((Lexeme.all source.toList).map fun l => ⟨l.cls, blankOn l.text⟩) := by
    rw [List.forall₂_map_right_iff, List.forall₂_same]
    exact fun l hmem => (h.emptied hends hmem).1
  rw [hblank, htexts, ← Lexeme.all_of_altered haltered, List.flatMap_map]

end SignsCommented

/-! ## Tokens and macros -/

/-- The token without the comment before it. -/
def Token.uncommented (t : Token) : Token :=
  { t with comment := none }

/-- Tokens do not depend on what comments hold, if these take as much space. -/
theorem Token.place_altered {f : Lexeme → Lexeme} : ∀ {ls : List Lexeme},
    (∀ l ∈ ls, l.Altered (f l) ∧ ∀ p : Position, p.after (f l).text = p.after l.text) →
      ∀ (p : Position) (pending pending' : Option Comment),
        (place p pending (ls.map f)).map uncommented = (place p pending' ls).map uncommented
  | [], _, p, pending, pending' => rfl
  | l :: ls, h, p, pending, pending' => by
    obtain ⟨⟨hl, hafter⟩, hls⟩ := List.forall_mem_cons.1 h
    have ih := place_altered hls
    rw [List.map_cons]
    generalize f l = m at hl hafter
    cases hl with
    | same =>
      cases hcls : l.cls with
      | blank => rw [place_blank hcls, place_blank hcls, ih]
      | comment => rw [place_comment hcls, place_comment hcls, ih]
      | token kind =>
        rw [place_token hcls, place_token hcls, List.map_cons, List.map_cons, ih]
        rfl
    | comment hl hbody => rw [place_comment rfl, place_comment hl.1, hafter, ih]

namespace Survey

variable {files : Files} {root : Option Path} {source : Path} {s : Survey} {d : Directive}

theorem ledger_note_ne : (note files root source s d).ledger ≠ {} := by
  intro hledger
  cases d with
  | definition name arguments value span =>
    have hmacros := congrArg Ledger.macros hledger
    cases hms : s.ledger.macros with
    | nil => simp [note, apply, Ledger.define, hms, Ledger.addDefinition] at hmacros
    | cons m ms =>
      simp only [note, apply, Ledger.define, hms, Ledger.addDefinition] at hmacros
      split_ifs at hmacros
  | inclusion file =>
    rw [ledger_note_inclusion] at hledger
    have hinclusions := congrArg Ledger.inclusions hledger
    simp [Ledger.addInclusion] at hinclusions

/-- After a directive something is recorded. -/
theorem ledger_apply_ne (depth : Nat) :
    (apply files root (enter files root depth) source s d).ledger ≠ {} := by
  rw [apply_eq]
  split
  · next f _ =>
    have hany : ∀ path text, files.read path = .ok text → True := fun _ _ _ => trivial
    exact enter_keeps (P := fun s => s.ledger ≠ {}) hany (fun _ _ _ _ _ _ _ => ledger_note_ne) depth
      f.1 f.2 _ trivial ledger_note_ne
  · exact ledger_note_ne

end Survey

/-- Something is recorded for a script just if it has a directive that has an effect. -/
theorem Prepared.ledger_ofSource_eq_empty_iff {files : Files} {root : Option Path} {name : Path}
    {source : String} :
    (ofSource files root name source).ledger = {} ↔ Directive.all source = [] := by
  rw [ofSource, Survey.enter]
  constructor
  · intro hledger
    obtain hnil | ⟨ds, d, hds⟩ := (Directive.all source).eq_nil_or_concat
    · exact hnil
    · rw [hds, List.concat_eq_append, List.foldl_append] at hledger
      exact absurd hledger (Survey.ledger_apply_ne files.count)
  · intro hnone
    rw [hnone]
    rfl

/-- Comments do not hide directives : nothing is recorded for a script just if no directive that
begins in it has an effect, wherever the comments stand. -/
theorem Prepared.ledger_ofSource_eq_empty_iff_hasEffect (files : Files) (root : Option Path)
    (name : Path) (source : String) :
    let lines := splitOn '\n' source.toList
    (ofSource files root name source).ledger = {} ↔
      ∀ i line, lines[i]? = some line → Directive.opens line = true →
        Directive.carries false (lines.take i) = false →
          ¬Directive.HasEffect (Directive.joined (lines.drop i)) :=
  ledger_ofSource_eq_empty_iff.trans Directive.all_eq_nil_iff

/-- The case of a script in which every number sign that begins a line stands in a block comment.
Comments do not hide directives : nothing is recorded for the script just if no directive that
begins on one of these lines has an effect. If no comment ends in a directive that begins in it, the
tokens of the script without directives are those of the script, but for comments. -/
theorem directives_commented {source : String} (h : SignsCommented source.toList) (files : Files)
    (root : Option Path) (name : Path) :
    let lines := splitOn '\n' source.toList
    let prepared := Prepared.ofSource files root name source
    (prepared.ledger = {} ↔ ∀ i line, lines[i]? = some line → Directive.opens line = true →
      Directive.carries false (lines.take i) = false →
        ¬Directive.HasEffect (Directive.joined (lines.drop i))) ∧
    (CommentsEndPlainly source.toList →
      (Token.scan prepared.text).map Token.uncommented =
        (Token.scan source).map Token.uncommented) := by
  intro lines prepared
  refine ⟨Prepared.ledger_ofSource_eq_empty_iff_hasEffect files root name source, fun hends => ?_⟩
  have hall : Lexeme.all prepared.text.toList = _ := h.all_blank hends
  rw [Token.scan, hall, Token.scan]
  exact Token.place_altered (fun l hmem => h.emptied hends hmem) _ _ _

/-- Lines of a comment that are emptied, with a definition that goes on in the next line and is
recorded. -/
theorem directives_commented_inside :
    let source := "y = /*\n #define X 1 \\\n 2\n*/ x;"
    let prepared := Prepared.ofSource (Files.memory []) none ⟨"init.sqf"⟩ source
    SignsCommented source.toList ∧ CommentsEndPlainly source.toList ∧ prepared.ledger ≠ {} ∧
      (Token.scan prepared.text).map Token.uncommented =
        (Token.scan source).map Token.uncommented := by
  intro source prepared
  have hsigns : SignsCommented source.toList := signsCommented_of_mem (by decide +kernel)
  have hends : CommentsEndPlainly source.toList := by
    decide +kernel
  have hannounces : Directive.Announces " #define X 1 \n 2".toList "define".toList
      ([' '] ++ 'X' :: " 1 \n 2".toList) :=
    ⟨[' '], ['#'], [], by decide +kernel, by simp [isBlank], by simp, by simp [isBlank]⟩
  have heffect : Directive.HasEffect
      (Directive.joined ((splitOn '\n' source.toList).drop 1)) := by
    have hjoined : Directive.joined ((splitOn '\n' source.toList).drop 1) =
        " #define X 1 \n 2".toList := by
      decide +kernel
    rw [hjoined]
    exact .definition hannounces (by simp [isBlank]) (by decide)
  obtain ⟨hledger, htokens⟩ :=
    directives_commented hsigns (Files.memory []) none ⟨"init.sqf"⟩
  refine ⟨hsigns, hends, fun hempty => ?_, htokens hends⟩
  exact hledger.1 hempty 1 " #define X 1 \\".toList (by decide +kernel) (by decide)
    (by decide +kernel) heffect

/-- A definition in a comment is recorded, and with its line the end of the comment is emptied. -/
theorem commented_definition :
    let source := "/*\n#define X */\ny"
    let prepared := Prepared.ofSource (Files.memory []) none ⟨"init.sqf"⟩ source
    SignsCommented source.toList ∧ prepared.ledger.macros.map (·.name) = ["X"] ∧
      (Token.scan prepared.text).map Token.uncommented ≠
        (Token.scan source).map Token.uncommented := by
  intro source prepared
  exact ⟨signsCommented_of_mem (by decide +kernel), by decide +kernel, by decide +kernel⟩

end SqfCheck
