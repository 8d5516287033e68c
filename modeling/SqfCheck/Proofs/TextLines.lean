import SqfCheck.Proofs.Messages
import SqfCheck.Report.Lines

/-!
# Reports line by line

A report for people is meant to be read line by line, one finding on each. It is, up to what
messages quote : every item ends in a newline, and the lines of the text are the items of the
findings just if no message quotes a string literal or a directory that goes over several lines
(`text_lint_lines`). A script in which no string literal does is always reported line by line, if no
directory does.
-/

namespace SqfCheck

open Text

/-! ## Lines -/

namespace Text

variable {sep : Char}

theorem splitOn_append_cons {line : List Char} (h : sep ∉ line) (cs : List Char) :
    splitOn sep (line ++ sep :: cs) = line :: splitOn sep cs := by
  induction line with
  | nil => simp [splitOn]
  | cons c line ih =>
    obtain ⟨hc, hline⟩ := not_or.1 (mt List.mem_cons.2 h)
    rw [List.cons_append, splitOn, if_neg (Ne.symm hc), ih hline]

/-- Texts that are written one after the other, each with a separator behind it, are the pieces of
what is written just if none of them holds a separator. -/
theorem splitOn_flatMap_iff {lines : List (List Char)} :
    splitOn sep (lines.flatMap (· ++ [sep])) = lines ++ [[]] ↔ ∀ line ∈ lines, sep ∉ line := by
  constructor
  · intro h line hline
    have hpiece : line ∈ splitOn sep (lines.flatMap (· ++ [sep])) := by
      rw [h]
      exact List.mem_append_left _ hline
    exact not_mem_of_mem_splitOn sep _ line hpiece
  · intro h
    induction lines with
    | nil => rfl
    | cons line lines ih =>
      obtain ⟨hline, hlines⟩ := List.forall_mem_cons.1 h
      rw [List.flatMap_cons, List.append_assoc, List.singleton_append, splitOn_append_cons hline,
        ih hlines]
      rfl

end Text

/-! ## String literals on one line -/

theorem undoubleQuotes_subset (quote : Char) (cs : List Char) : undoubleQuotes quote cs ⊆ cs := by
  fun_induction undoubleQuotes quote cs with
  | case1 c d cs h ih =>
    obtain ⟨rfl, -⟩ := h
    exact List.cons_subset_cons c (List.subset_cons_of_subset d ih)
  | case2 c d cs h ih => exact List.cons_subset_cons c ih
  | case3 cs h => exact List.Subset.refl _

/-- Only string literals have a value, and if the literal is on one line, so is the value. -/
theorem Token.oneLine_of_stringValue {t : Token} {value : String}
    (h : t.stringValue = some value) : t.kind = .string ∧ (OneLine t.text → OneLine value) := by
  unfold stringValue at h
  split at h
  · next quote c cs hk htext =>
    obtain rfl := Option.some.inj h
    refine ⟨hk, fun hline hn => hline ?_⟩
    rw [String.toList_ofList] at hn
    rw [htext]
    exact List.mem_cons_of_mem _ (List.dropLast_subset _ (undoubleQuotes_subset _ _ hn))
  · cases h

/-- Nothing is quoted over several lines if no string literal goes over several lines, and neither
does the directory where files are looked for. -/
theorem Diagnostic.not_quotesLines {root : Path} {tokens : List Token} {d : Diagnostic}
    (htokens : ∀ t ∈ tokens, t.kind = .string → OneLine t.text) (hroot : OneLine root.text) :
    ¬d.QuotesLines root tokens := by
  intro h
  cases h with
  | literal ht hk hline => exact hline (htokens _ ht hk)
  | parameter ht hvalue hline =>
    obtain ⟨hk, hname⟩ := Token.oneLine_of_stringValue hvalue
    exact hline (hname (htokens _ ht hk))
  | file ht hvalue hline =>
    obtain ⟨hk, hwritten⟩ := Token.oneLine_of_stringValue hvalue
    exact hline.elim (· (hwritten (htokens _ ht hk))) (· hroot)

/-! ## Reports -/

namespace Report

/-- A report without a summary is the items of its findings, each followed by a newline. -/
theorem toList_text {r : Report} (h : r.listsVariables = false) (file : Path) :
    (r.text file).toList = ((r.errors.map (findingLine file "error") ++
      r.warnings.map (findingLine file "warning")).map String.toList).flatMap (· ++ ['\n']) := by
  simp [text, lines, h, String.toList_join, List.flatMap_map]

theorem oneLine_findingLine {file : Path} {severity : String} (hfile : OneLine file.text)
    (hseverity : OneLine severity) (d : Diagnostic) :
    OneLine (findingLine file severity d) ↔ OneLine d.message := by
  simp +decide [findingLine, hfile, hseverity, oneLine_repr]

end Report

/-- A report for people, line by line. If the name of the file is on one line and nothing is to be
listed after the findings, the text of a report is an item for each error and then one for each
warning, with a newline behind it : the name of the file, line and column, how serious the finding
is and what it says. The lines of the text are these items just if no finding quotes a string
literal of the script that holds a newline, or a directory whose name does. So they are if no string
literal of the script goes over several lines, and neither does the name of the directory. -/
theorem text_lint_lines (catalogue : Catalogue) (options : Options) (files : Files) (name : Path)
    (source : String) (file : Path) (hfile : OneLine file.text)
    (hlist : options.outputVariables = false) :
    let tokens := Token.scan (Prepared.ofSource files options.rootPath name source).text
    let report := lint catalogue options files name source
    let items := (report.errors.map (Report.findingLine file "error") ++
      report.warnings.map (Report.findingLine file "warning")).map String.toList
    (report.text file).toList = items.flatMap (· ++ ['\n']) ∧
    (splitOn '\n' (report.text file).toList = items ++ [[]] ↔
      ∀ d ∈ report.errors ++ report.warnings, ¬d.QuotesLines options.root tokens) ∧
    ((∀ t ∈ tokens, t.kind = .string → OneLine t.text) → OneLine options.root.text →
      splitOn '\n' (report.text file).toList = items ++ [[]]) := by
  intro tokens report items
  have htext : (report.text file).toList = items.flatMap (· ++ ['\n']) :=
    Report.toList_text hlist file
  have hmessage : ∀ d ∈ report.errors ++ report.warnings,
      OneLine d.message ↔ ¬d.QuotesLines options.root tokens := by
    intro d hd
    have hmem : d ∈ (lintTokens catalogue options files
        (Prepared.ofSource files options.rootPath name source).ledger tokens).diagnostics := by
      rcases List.mem_append.1 hd with hd | hd
      · exact (List.mem_filter.1 hd).1
      · exact (List.mem_filter.1 hd).1
    exact ⟨fun hline hquotes => hquotes.not_oneLine hline,
      (linesQuoted_of_mem_lintTokens hmem).resolve_right⟩
  have hitems : (∀ item ∈ items, '\n' ∉ item) ↔
      ∀ d ∈ report.errors ++ report.warnings, OneLine d.message := by
    have herror : ∀ d, OneLine (Report.findingLine file "error" d) ↔ OneLine d.message :=
      Report.oneLine_findingLine hfile (by decide)
    have hwarning : ∀ d, OneLine (Report.findingLine file "warning" d) ↔ OneLine d.message :=
      Report.oneLine_findingLine hfile (by decide)
    simp only [items, List.forall_mem_map, List.forall_mem_append]
    exact and_congr (forall₂_congr fun d _ => herror d) (forall₂_congr fun d _ => hwarning d)
  have hlines : splitOn '\n' (report.text file).toList = items ++ [[]] ↔
      ∀ d ∈ report.errors ++ report.warnings, ¬d.QuotesLines options.root tokens := by
    rw [htext, splitOn_flatMap_iff, hitems]
    exact forall₂_congr hmessage
  exact ⟨htext, hlines, fun htokens hroot =>
    hlines.2 fun d _ => Diagnostic.not_quotesLines htokens hroot⟩

/-- A string literal that goes over two lines does no harm where no message quotes it. -/
theorem text_lint_lines_unquoted :
    let source := "a = \"one\ntwo\"; _b + ;"
    let file : Path := ⟨"init.sqf"⟩
    let report := lint {} {} (Files.memory []) file source
    OneLine file.text ∧ ({} : Options).outputVariables = false ∧
      splitOn '\n' (report.text file).toList =
        ["init.sqf:2:12: error: unexpected ';', expected an expression",
          "init.sqf:2:7: warning: Possibly undefined variable _b", ""].map String.toList := by
  intro source file report
  have hfile : OneLine file.text := by decide
  have hfindings : ∀ d ∈ report.errors ++ report.warnings, OneLine d.message := by
    decide +kernel
  obtain ⟨-, hlines, -⟩ := text_lint_lines {} {} (Files.memory []) file source file hfile rfl
  refine ⟨hfile, rfl, ?_⟩
  rw [hlines.2 fun d hd hquotes => hquotes.not_oneLine (hfindings d hd)]
  decide +kernel

/-- Findings do not have a line each. A literal that goes over two lines and is unexpected is
reported on two lines. -/
theorem not_text_lint_lines : ¬∀ (catalogue : Catalogue) (options : Options) (files : Files)
    (name : Path) (source : String) (file : Path), OneLine file.text →
      options.outputVariables = false →
        let report := lint catalogue options files name source
        splitOn '\n' (report.text file).toList =
          (report.errors.map (Report.findingLine file "error") ++
            report.warnings.map (Report.findingLine file "warning")).map String.toList ++ [[]] := by
  intro h
  have hlines := h {} {} (Files.memory []) ⟨"init.sqf"⟩ "1 \"a\nb\"" ⟨"init.sqf"⟩ (by decide) rfl
  revert hlines
  decide +kernel

end SqfCheck
