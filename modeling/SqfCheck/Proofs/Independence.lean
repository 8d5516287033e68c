import SqfCheck.Proofs.References
import SqfCheck.Proofs.Repairs

/-!
# Options that keep to themselves

Each option of a run changes what it is about and nothing else (`lint_options_apart`). Warnings
that count as errors move to the end of the errors, warnings that are skipped go away, and without
the check of paths just the errors about missing files are not there. What is listed of a report,
and what the exit code tells, has no part in what is found.

The options meet the run at two places. The walk over a tree has the same types and the same
findings with and without a check of paths, but for the errors about missing files
(`typed_withoutPaths`). The variables without a definition are looked for in a table that no
diagnostic changes (`VariableTable.foldl_record_congr`), so errors of one stage do not reach the
next.
-/

namespace SqfCheck

/-! ## Missing files -/

namespace Entry

/-- Whether the entry is about a file that does not exist. -/
def isMissingFile : Entry → Bool
  | diagnostic d => d.kind = .missingFile
  | _ => false

theorem IsComplaintAt.isMissingFile_eq {e : Entry} {kind : DiagnosticKind} {nodes : List Expr}
    (h : e.IsComplaintAt kind nodes) : e.isMissingFile = decide (kind = .missingFile) := by
  obtain ⟨n, -, message, rfl⟩ := h
  rfl

theorem isReference_of_isMissingFile {e : Entry} (h : e.isMissingFile = true) :
    e.isReference = false := by
  cases e with
  | diagnostic d => rfl
  | _ => cases h

theorem filterMap_diagnostic?_filter (es : List Entry) :
    (es.filter (!·.isMissingFile)).filterMap diagnostic? =
      (es.filterMap diagnostic?).filter (·.kind ≠ .missingFile) := by
  rw [List.filterMap_filter, List.filter_filterMap]
  refine List.filterMap_congr fun e _ => ?_
  cases e with
  | diagnostic d =>
    by_cases hk : d.kind = .missingFile <;>
      simp [isMissingFile, diagnostic?, Option.filter, hk]
  | _ => rfl

end Entry

/-- The checker that does not look for files. -/
def Checker.withoutPaths (c : Checker) : Checker :=
  { c with paths := none }

/-- The same type, without what was found about missing files. -/
def Typed.withoutFiles (t : Typed) : Typed :=
  { t with entries := t.entries.filter (!·.isMissingFile) }

theorem Typed.withoutFiles_after (t : Typed) (es : List Entry) :
    (t.after es).withoutFiles = t.withoutFiles.after (es.filter (!·.isMissingFile)) := by
  simp [withoutFiles, after]

theorem Operator.check_none (o : Operator) (paths : Option PathCheck) (a : Application) :
    o.check none a = (o.check paths a).filter (!·.isMissingFile) := by
  have htypes : (o.checkTypes a).filter (!·.isMissingFile) = o.checkTypes a :=
    List.filter_eq_self.2 fun e he => by simp [(isComplaintAt_checkTypes e he).isMissingFile_eq]
  by_cases hr : o.rule = .loader
  · have hfile : (checkFile paths a).filter (!·.isMissingFile) = [] :=
      List.filter_eq_nil_iff.2 fun e he => by
        simp [(isComplaintAt_checkFile e he).isMissingFile_eq]
    have hnone : checkFile none a = [] := rfl
    simp only [check, hr, List.filter_append, htypes, hfile, hnone]
  · have hsame : o.check none a = o.check paths a := by
      unfold check
      cases hrule : o.rule with
      | loader => exact absurd hrule hr
      | _ => rfl
    rw [hsame, eq_comm, List.filter_eq_self]
    intro e he
    rcases mem_check_cases he with he | ⟨-, he⟩ | ⟨hloader, -⟩
    · simp [he.isMissingFile_eq]
    · rcases mem_checkParameters he with ⟨name, t, rfl⟩ | he
      · rfl
      · simp [he.isMissingFile_eq]
    · exact absurd hloader hr

theorem Checker.checkApplication_withoutPaths (c : Checker) (a : Application) :
    c.withoutPaths.checkApplication a = (c.checkApplication a).filter (!·.isMissingFile) := by
  have hcounter : (loopCounter a).filter (!·.isMissingFile) = loopCounter a := by
    refine List.filter_eq_self.2 fun e he => ?_
    obtain ⟨name, t, rfl⟩ := exists_of_mem_loopCounter he
    rfl
  unfold checkApplication
  rw [show c.withoutPaths.catalogue = c.catalogue from rfl]
  cases hc : (c.catalogue.command? a.op.name).bind a.arityComplaint with
  | some complaint =>
    obtain ⟨o, -, ho⟩ := Option.bind_eq_some_iff.1 hc
    unfold Application.arityComplaint at ho
    split_ifs at ho
    obtain rfl := Option.some.inj ho
    rfl
  | none =>
    rw [List.filter_append, hcounter]
    cases c.catalogue.operator? a.op.name with
    | none => rfl
    | some o => exact congrArg (· ++ loopCounter a) (o.check_none c.paths a)

theorem Checker.applied_withoutPaths (c : Checker) (a : Application) :
    c.withoutPaths.applied a = (c.applied a).withoutFiles := by
  unfold applied Typed.withoutFiles
  rw [checkApplication_withoutPaths]

mutual

/-- Without the check of paths an expression has the same type, and all that is found in it but
what is about missing files. -/
theorem typed_withoutPaths (c : Checker) :
    ∀ x : Expr, x.typed c.withoutPaths = (x.typed c).withoutFiles
  | .number _ | .string _ | .reference _ | .expansion _ _ | .invalid _ => by
    simp [Expr.typed, Typed.withoutFiles]
  | .array elements _ => by
    simp only [Expr.typed, Typed.withoutFiles, entriesOfExprs_withoutPaths c elements]
  | .code body _ => by
    simp only [Expr.typed, Typed.withoutFiles, entriesOfStatements_withoutPaths c body]
  | .paren inner _ => by
    rw [Expr.typed, Expr.typed]
    exact typed_withoutPaths c inner
  | .nullary op => by
    rw [Expr.typed, Expr.typed]
    exact c.applied_withoutPaths _
  | .unary op right => by
    simp only [Expr.typed, typed_withoutPaths c right, c.applied_withoutPaths,
      Typed.withoutFiles_after]
    rfl
  | .binary left op right => by
    simp only [Expr.typed, typed_withoutPaths c left, typed_withoutPaths c right,
      c.applied_withoutPaths, Typed.withoutFiles_after, List.filter_append]
    rfl
  | .dangling left op => by
    simp only [Expr.typed, typed_withoutPaths c left, c.applied_withoutPaths,
      Typed.withoutFiles_after]
    rfl

theorem entriesOfExprs_withoutPaths (c : Checker) : ∀ es : List Expr,
    entriesOfExprs c.withoutPaths es = (entriesOfExprs c es).filter (!·.isMissingFile)
  | [] => rfl
  | x :: xs => by
    rw [entriesOfExprs, entriesOfExprs, typed_withoutPaths c x, entriesOfExprs_withoutPaths c xs,
      List.filter_append]
    rfl

theorem entries_withoutPaths (c : Checker) : ∀ s : Statement,
    s.entries c.withoutPaths = (s.entries c).filter (!·.isMissingFile)
  | .assignment _ _ value => by
    rw [Statement.entries, Statement.entries, typed_withoutPaths c value]
    rfl
  | .expression value => by
    rw [Statement.entries, Statement.entries, typed_withoutPaths c value]
    rfl

theorem entriesOfStatements_withoutPaths (c : Checker) : ∀ ss : List Statement,
    entriesOfStatements c.withoutPaths ss =
      (entriesOfStatements c ss).filter (!·.isMissingFile)
  | [] => rfl
  | s :: ss => by
    rw [entriesOfStatements, entriesOfStatements, entries_withoutPaths c s,
      entriesOfStatements_withoutPaths c ss, List.filter_append]

end

/-! ## Tables without diagnostics -/

/-- Diagnostics leave the table as it is. -/
theorem VariableTable.foldl_record_filter : ∀ (es : List Entry) (table : VariableTable),
    (es.filter Entry.isReference).foldl record table = es.foldl record table
  | [], _ => rfl
  | .diagnostic _ :: es, table => foldl_record_filter es table
  | .usage t assigned :: es, table => foldl_record_filter es (table.record (.usage t assigned))
  | .definition name t :: es, table => foldl_record_filter es (table.record (.definition name t))

theorem VariableTable.foldl_record_congr {es fs : List Entry}
    (h : es.filter Entry.isReference = fs.filter Entry.isReference) :
    es.foldl record {} = fs.foldl record {} := by
  rw [← foldl_record_filter es, h, foldl_record_filter]

/-! ## Reports -/

/-- What the walk over the tree finds. Without a script there is no walk. -/
def walkFindings (c : Checker) : Except Diagnostic Script → List Entry
  | .ok script => entriesOfStatements c script.statements
  | .error _ => []

/-- What is reported about variables without a definition. Without a script they are not looked
for. -/
def lateFindings (options : Options) (ledger : Ledger) (table : VariableTable) :
    Except Diagnostic Script → List Diagnostic
  | .ok _ => surveyFindings options ledger table
  | .error _ => []

theorem walkFindings_withoutPaths (c : Checker) (outcome : Except Diagnostic Script) :
    walkFindings c.withoutPaths outcome =
      (walkFindings c outcome).filter (!·.isMissingFile) := by
  cases outcome with
  | ok script => exact entriesOfStatements_withoutPaths c script.statements
  | error d => rfl

theorem isError_walkFindings {c : Checker} {outcome : Except Diagnostic Script} :
    ∀ d ∈ (walkFindings c outcome).filterMap Entry.diagnostic?, d.isError = true := by
  intro d hd
  obtain ⟨e, he, hed⟩ := List.mem_filterMap.1 hd
  cases outcome with
  | error d => cases he
  | ok script =>
    have hfinding := isFinding_entriesOfStatements c _ e he
    cases e with
    | diagnostic d' =>
      obtain rfl := Option.some.inj hed
      exact hfinding.1
    | _ => cases hed

section

variable {options : Options} {ledger : Ledger} {table : VariableTable}
  {outcome : Except Diagnostic Script}

theorem isError_lateFindings : ∀ d ∈ lateFindings options ledger table outcome,
    d.isError = options.warningAsError ∧ d.kind = .undefinedLocal := by
  intro d hd
  cases outcome with
  | ok script => exact ⟨isError_of_mem_surveyFindings hd, kind_of_mem_surveyFindings hd⟩
  | error d => cases hd

theorem filter_isError_lateFindings :
    (lateFindings options ledger table outcome).filter Diagnostic.isError =
      if options.warningAsError then lateFindings options ledger table outcome else [] := by
  split_ifs with hwarn
  · exact List.filter_eq_self.2 fun d hd => (isError_lateFindings d hd).1.trans hwarn
  · exact List.filter_eq_nil_iff.2 fun d hd => by rwa [(isError_lateFindings d hd).1]

theorem filter_isWarning_lateFindings :
    (lateFindings options ledger table outcome).filter (!·.isError) =
      if options.warningAsError then [] else lateFindings options ledger table outcome := by
  split_ifs with hwarn
  · exact List.filter_eq_nil_iff.2 fun d hd => by simp [(isError_lateFindings d hd).1, hwarn]
  · exact List.filter_eq_self.2 fun d hd => by simp [(isError_lateFindings d hd).1, hwarn]

variable (options ledger table outcome)

theorem lateFindings_warningAsError :
    lateFindings { options with warningAsError := true } ledger table outcome =
      (lateFindings { options with warningAsError := false } ledger table outcome).map
        Diagnostic.escalate := by
  cases outcome with
  | error d => rfl
  | ok script =>
    unfold lateFindings surveyFindings
    cases options.skipWarnings with
    | true => rfl
    | false => rfl

theorem lateFindings_skipWarnings (asErrors : Bool) :
    lateFindings { options with skipWarnings := true, warningAsError := asErrors } ledger table
      outcome = [] := by
  cases outcome with
  | error d => rfl
  | ok script => rfl

end

section

variable (catalogue : Catalogue) (options : Options) (files : Files) (ledger : Ledger)
  (tokens : List Token)

/-- What a run comes to, stage by stage. -/
theorem report_lintTokens :
    let read := Script.read ⟨catalogue, ledger⟩ options.stopOnError tokens {}
    let found := walkFindings (.ofOptions catalogue options files) read.1
    let table := (read.2.entries.toList ++ found).foldl VariableTable.record {}
    let late := lateFindings options ledger table read.1
    let run := lintTokens catalogue options files ledger tokens
    run.errors = read.2.diagnostics ++ found.filterMap Entry.diagnostic? ++
        late.filter Diagnostic.isError ∧
      run.warnings = late.filter (!·.isError) ∧ run.table = table := by
  intro read found table late run
  have hrun : run.entries.toList =
      read.2.entries.toList ++ found ++ late.map Entry.diagnostic := by
    cases hread : read with
    | mk outcome j =>
      cases outcome with
      | error d => simp [run, late, found, lintTokens_of_error files rfl hread, hread,
          lateFindings, walkFindings]
      | ok script =>
        obtain ⟨walked, hwalked, hentries⟩ := toList_entries_lintTokens files rfl hread
        have htable : walked.table = table := by
          rw [Journal.table_eq_foldl, hwalked]
          simp only [table, found, hread, walkFindings]
        rw [htable, hwalked] at hentries
        simp only [late, found, hread, lateFindings, walkFindings]
        exact hentries
  have hdiagnostics : run.diagnostics =
      read.2.diagnostics ++ found.filterMap Entry.diagnostic? ++ late := by
    rw [Journal.diagnostics_eq_filterMap, hrun, List.filterMap_append, List.filterMap_append,
      Entry.filterMap_diagnostic?_map]
    rfl
  have hparsed : ∀ d ∈ read.2.diagnostics, d.isError = true :=
    fun d hd => (Script.mem_diagnostics_read hd).2
  refine ⟨?_, ?_, ?_⟩
  · rw [Journal.errors, hdiagnostics, List.filter_append, List.filter_append,
      List.filter_eq_self.2 hparsed, List.filter_eq_self.2 isError_walkFindings]
  · have hnone : (read.2.diagnostics ++ found.filterMap Entry.diagnostic?).filter (!·.isError) =
        [] := by
      refine List.filter_eq_nil_iff.2 fun d hd => ?_
      rcases List.mem_append.1 hd with hd | hd
      · simp [hparsed d hd]
      · simp [isError_walkFindings d hd]
    rw [Journal.warnings, hdiagnostics, List.filter_append, hnone, List.nil_append]
  · have hnone : (late.map Entry.diagnostic).filter Entry.isReference = [] :=
      List.filter_eq_nil_iff.2 fun e he => by
        obtain ⟨d, -, rfl⟩ := List.mem_map.1 he
        simp [Entry.isReference, Entry.diagnostic?]
    rw [Journal.table_eq_foldl, hrun]
    refine VariableTable.foldl_record_congr ?_
    rw [List.filter_append, hnone, List.append_nil]

theorem lintTokens_warningAsError :
    let plain := lintTokens catalogue { options with warningAsError := false } files ledger tokens
    let raised := lintTokens catalogue { options with warningAsError := true } files ledger tokens
    raised.errors = plain.errors ++ plain.warnings.map Diagnostic.escalate ∧
      raised.warnings = [] ∧ raised.table = plain.table := by
  intro plain raised
  obtain ⟨he, hw, ht⟩ :=
    report_lintTokens catalogue { options with warningAsError := false } files ledger tokens
  obtain ⟨he', hw', ht'⟩ :=
    report_lintTokens catalogue { options with warningAsError := true } files ledger tokens
  rw [filter_isError_lateFindings] at he he'
  rw [filter_isWarning_lateFindings] at hw hw'
  refine ⟨?_, hw', ht'.trans ht.symm⟩
  rw [he', he, hw, if_pos rfl, if_neg (by simp), if_neg (by simp), List.append_nil,
    lateFindings_warningAsError]
  rfl

theorem lintTokens_skipWarnings (asErrors : Bool) :
    let plain := lintTokens catalogue { options with warningAsError := false } files ledger tokens
    let silent := lintTokens catalogue
      { options with skipWarnings := true, warningAsError := asErrors } files ledger tokens
    silent.errors = plain.errors ∧ silent.warnings = [] ∧ silent.table = plain.table := by
  intro plain silent
  obtain ⟨he, -, ht⟩ :=
    report_lintTokens catalogue { options with warningAsError := false } files ledger tokens
  obtain ⟨he', hw', ht'⟩ := report_lintTokens catalogue
    { options with skipWarnings := true, warningAsError := asErrors } files ledger tokens
  rw [filter_isError_lateFindings, if_neg (by simp)] at he
  rw [lateFindings_skipWarnings] at he' hw'
  exact ⟨he'.trans he.symm, hw', ht'.trans ht.symm⟩

theorem lintTokens_checkPaths :
    let checked := lintTokens catalogue { options with checkPaths := true } files ledger tokens
    let unchecked := lintTokens catalogue { options with checkPaths := false } files ledger tokens
    unchecked.errors = checked.errors.filter (·.kind ≠ .missingFile) ∧
      unchecked.warnings = checked.warnings ∧ unchecked.table = checked.table := by
  intro checked unchecked
  obtain ⟨he, hw, ht⟩ :=
    report_lintTokens catalogue { options with checkPaths := true } files ledger tokens
  obtain ⟨he', hw', ht'⟩ :=
    report_lintTokens catalogue { options with checkPaths := false } files ledger tokens
  let read := Script.read ⟨catalogue, ledger⟩ options.stopOnError tokens {}
  let found := walkFindings (.ofOptions catalogue { options with checkPaths := true } files) read.1
  let table := (read.2.entries.toList ++ found).foldl VariableTable.record {}
  let late := lateFindings { options with checkPaths := true } ledger table read.1
  have hfound : walkFindings (.ofOptions catalogue { options with checkPaths := false } files)
      read.1 = found.filter (!·.isMissingFile) :=
    walkFindings_withoutPaths
      (.ofOptions catalogue { options with checkPaths := true } files) read.1
  have htable : (read.2.entries.toList ++ found.filter (!·.isMissingFile)).foldl
      VariableTable.record {} = table := by
    refine VariableTable.foldl_record_congr ?_
    rw [List.filter_append, List.filter_append, List.filter_filter]
    refine congrArg (_ ++ ·) (List.filter_congr fun e _ => ?_)
    cases hm : e.isMissingFile with
    | true => simp [Entry.isReference_of_isMissingFile hm]
    | false => simp
  have hlate : lateFindings { options with checkPaths := false } ledger table read.1 = late := rfl
  rw [hfound, htable, hlate] at he' hw'
  rw [hfound, htable] at ht'
  have hparsed : read.2.diagnostics.filter (·.kind ≠ .missingFile) = read.2.diagnostics :=
    List.filter_eq_self.2 fun d hd => by simp [(Script.mem_diagnostics_read hd).1]
  have hundefined : (late.filter Diagnostic.isError).filter (·.kind ≠ .missingFile) =
      late.filter Diagnostic.isError :=
    List.filter_eq_self.2 fun d hd => by
      simp [(isError_lateFindings d (List.mem_filter.1 hd).1).2]
  refine ⟨?_, hw'.trans hw.symm, ht'.trans ht.symm⟩
  calc unchecked.errors
      = read.2.diagnostics ++ (found.filter (!·.isMissingFile)).filterMap Entry.diagnostic? ++
          late.filter Diagnostic.isError := he'
    _ = (read.2.diagnostics ++ found.filterMap Entry.diagnostic? ++
          late.filter Diagnostic.isError).filter (·.kind ≠ .missingFile) := by
        rw [List.filter_append, List.filter_append, hparsed, hundefined,
          Entry.filterMap_diagnostic?_filter]
    _ = checked.errors.filter (·.kind ≠ .missingFile) := by rw [he]

end

/-- Each option changes what it is about and nothing else, whatever the others are. If warnings
count as errors, they follow the errors in their order, with another severity. If warnings are
skipped there are none, and just the errors that there are if warnings are no errors. Without the
check of paths just the errors about missing files are not there. What is listed of a report and
what the exit code tells change nothing that is found. -/
theorem lint_options_apart (catalogue : Catalogue) (options : Options) (files : Files)
    (name : Path) (source : String) :
    let report (o : Options) := lint catalogue o files name source
    let plain := report { options with warningAsError := false }
    let raised := report { options with warningAsError := true }
    let checked := report { options with checkPaths := true }
    let unchecked := report { options with checkPaths := false }
    (raised.errors = plain.errors ++ plain.warnings.map (fun d => { d with severity := .error }) ∧
      raised.warnings = [] ∧ raised.table = plain.table ∧ raised.ledger = plain.ledger) ∧
    (∀ asErrors : Bool,
      let silent := report { options with skipWarnings := true, warningAsError := asErrors }
      silent.errors = plain.errors ∧ silent.warnings = [] ∧ silent.table = plain.table ∧
        silent.ledger = plain.ledger) ∧
    (unchecked.errors = checked.errors.filter (·.kind ≠ .missingFile) ∧
      unchecked.warnings = checked.warnings ∧ unchecked.table = checked.table ∧
      unchecked.ledger = checked.ledger) ∧
    ∀ lists exits : Bool,
      let other := report { options with outputVariables := lists, exitCodeEnabled := exits }
      other.errors = (report options).errors ∧ other.warnings = (report options).warnings ∧
        other.table = (report options).table ∧ other.ledger = (report options).ledger := by
  let prepared := Prepared.ofSource files options.rootPath name source
  let tokens := Token.scan prepared.text
  have hreport : ∀ o : Options, o.rootPath = options.rootPath → lint catalogue o files name source =
      .ofJournal (lintTokens catalogue o files prepared.ledger tokens) prepared.ledger
        o.outputVariables := by
    intro o ho
    simp only [lint, prepared, tokens, ho]
  have hlint := hreport options rfl
  clear_value tokens prepared
  intro report plain raised checked unchecked
  have hplain : plain = _ := hreport { options with warningAsError := false } rfl
  have hraised : raised = _ := hreport { options with warningAsError := true } rfl
  have hchecked : checked = _ := hreport { options with checkPaths := true } rfl
  have hunchecked : unchecked = _ := hreport { options with checkPaths := false } rfl
  refine ⟨?_, fun asErrors => ?_, ?_, fun lists exits => ?_⟩
  · obtain ⟨herrors, hwarnings, htable⟩ :=
      lintTokens_warningAsError catalogue options files prepared.ledger tokens
    simp only [hplain, hraised, Report.errors_ofJournal, Report.warnings_ofJournal,
      Report.table_ofJournal, Report.ledger_ofJournal]
    exact ⟨herrors, hwarnings, htable, trivial⟩
  · obtain ⟨herrors, hwarnings, htable⟩ :=
      lintTokens_skipWarnings catalogue options files prepared.ledger tokens asErrors
    intro silent
    have hsilent : silent = _ :=
      hreport { options with skipWarnings := true, warningAsError := asErrors } rfl
    simp only [hplain, hsilent, Report.errors_ofJournal, Report.warnings_ofJournal,
      Report.table_ofJournal, Report.ledger_ofJournal]
    exact ⟨herrors, hwarnings, htable, trivial⟩
  · obtain ⟨herrors, hwarnings, htable⟩ :=
      lintTokens_checkPaths catalogue options files prepared.ledger tokens
    simp only [hchecked, hunchecked, Report.errors_ofJournal, Report.warnings_ofJournal,
      Report.table_ofJournal, Report.ledger_ofJournal]
    exact ⟨herrors, hwarnings, htable, trivial⟩
  · intro other
    have hother : other = _ :=
      hreport { options with outputVariables := lists, exitCodeEnabled := exits } rfl
    have hsame : lintTokens catalogue
        { options with outputVariables := lists, exitCodeEnabled := exits } files prepared.ledger
        tokens = lintTokens catalogue options files prepared.ledger tokens := by
      unfold lintTokens
      simp only [Run.journal_walk]
      rfl
    have hreported : report options = _ := hlint
    simp only [hother, hreported, hsame, Report.errors_ofJournal, Report.warnings_ofJournal,
      Report.table_ofJournal, Report.ledger_ofJournal, and_self]

end SqfCheck
