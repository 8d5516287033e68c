import SqfCheck.Lint
import SqfCheck.Proofs.Findings
import SqfCheck.Proofs.Outcome
import SqfCheck.Proofs.Walk

/-!
# The stages of a run

What a run over tokens writes down comes in three parts : what reading the tokens finds, what the
walk over the tree finds, and the variables without a definition (`toList_entries_lintTokens`).
Only the first part has errors about the order of tokens (`mem_diagnostics_read`), and only the
last has anything to say about variables without a definition.
-/

namespace SqfCheck

open Parse

/-! ## Reports -/

namespace Report

variable (j : Journal) (ledger : Ledger) (lists : Bool)

@[simp]
theorem errors_ofJournal : (ofJournal j ledger lists).errors = j.errors := rfl

@[simp]
theorem warnings_ofJournal : (ofJournal j ledger lists).warnings = j.warnings := rfl

@[simp]
theorem table_ofJournal : (ofJournal j ledger lists).table = j.table := rfl

@[simp]
theorem ledger_ofJournal : (ofJournal j ledger lists).ledger = ledger := rfl

end Report

/-! ## Variables without a definition -/

/-- What is reported about variables without a definition. -/
def surveyFindings (options : Options) (ledger : Ledger) (table : VariableTable) :
    List Diagnostic :=
  if options.skipWarnings then []
  else if options.warningAsError then (undefinedLocals ledger table).map Diagnostic.escalate
  else undefinedLocals ledger table

theorem toList_entries_survey (options : Options) (ledger : Ledger) {j : Journal}
    (hj : j.surveyed = false) : (j.survey options ledger).entries.toList =
      j.entries.toList ++ (surveyFindings options ledger j.table).map .diagnostic := by
  unfold Journal.survey surveyFindings
  rw [hj]
  simp only [Bool.false_eq_true, if_false]
  split_ifs <;> simp

theorem kind_of_mem_undefinedLocals {ledger : Ledger} {table : VariableTable} {d : Diagnostic}
    (hd : d ∈ undefinedLocals ledger table) : d.kind = .undefinedLocal := by
  obtain ⟨v, -, hd⟩ := List.mem_flatMap.1 hd
  obtain ⟨t, -, rfl⟩ := List.mem_map.1 hd
  rfl

theorem kind_of_mem_surveyFindings {options : Options} {ledger : Ledger} {table : VariableTable}
    {d : Diagnostic} (hd : d ∈ surveyFindings options ledger table) :
    d.kind = .undefinedLocal := by
  unfold surveyFindings at hd
  split_ifs at hd
  · simp at hd
  · obtain ⟨w, hw, rfl⟩ := List.mem_map.1 hd
    exact (kind_of_mem_undefinedLocals hw :)
  · exact kind_of_mem_undefinedLocals hd

/-! ## All stages -/

section

variable {catalogue : Catalogue} {options : Options} (files : Files) {ledger : Ledger}
  {tokens : List Token} {strict : Bool} (hs : options.stopOnError = strict)
include hs

/-- What a run finds when the tokens make a script. -/
theorem toList_entries_lintTokens {script : Script} {j : Journal}
    (h : Script.read ⟨catalogue, ledger⟩ strict tokens {} = (.ok script, j)) :
    ∃ walked : Journal, walked.entries.toList = j.entries.toList ++
        entriesOfStatements (.ofOptions catalogue options files) script.statements ∧
      (lintTokens catalogue options files ledger tokens).entries.toList =
        walked.entries.toList ++
          (surveyFindings options ledger walked.table).map .diagnostic := by
  have hj : j.surveyed = false := by
    have := Script.surveyed_read ⟨catalogue, ledger⟩ strict tokens {}
    rwa [h] at this
  refine ⟨_, Journal.toList_entries_writeAll _ _, ?_⟩
  rw [lintTokens, hs, h]
  simp only [Run.journal_walk]
  exact toList_entries_survey options ledger (by rwa [Journal.surveyed_writeAll])

theorem lintTokens_of_error {d : Diagnostic} {j : Journal}
    (h : Script.read ⟨catalogue, ledger⟩ strict tokens {} = (.error d, j)) :
    lintTokens catalogue options files ledger tokens = j := by
  rw [lintTokens, hs, h]

/-- What reading finds stands first. -/
theorem isPrefix_entries_lintTokens :
    (Script.read ⟨catalogue, ledger⟩ strict tokens {}).2.entries.toList <+:
      (lintTokens catalogue options files ledger tokens).entries.toList := by
  cases h : Script.read ⟨catalogue, ledger⟩ strict tokens {} with
  | mk outcome j =>
    cases outcome with
    | ok script =>
      obtain ⟨walked, hw, hl⟩ := toList_entries_lintTokens files hs h
      rw [hl, hw, List.append_assoc]
      exact List.prefix_append _ _
    | error d => simp [lintTokens_of_error files hs h]

/-- Errors about the order of tokens come from reading. -/
theorem mem_diagnostics_lintTokens {files : Files} {d : Diagnostic}
    (hd : d ∈ (lintTokens catalogue options files ledger tokens).diagnostics)
    (hk : d.kind = .syntaxError) :
    d ∈ (Script.read ⟨catalogue, ledger⟩ strict tokens {}).2.diagnostics := by
  cases h : Script.read ⟨catalogue, ledger⟩ strict tokens {} with
  | mk outcome j =>
    cases outcome with
    | ok script =>
      obtain ⟨walked, hw, hl⟩ := toList_entries_lintTokens files hs h
      rw [Journal.diagnostics_eq_filterMap, hl, hw] at hd
      simp only [List.filterMap_append, List.mem_append] at hd
      rcases hd with (hd | hd) | hd
      · exact hd
      · obtain ⟨e, he, hed⟩ := List.mem_filterMap.1 hd
        have hfind := isFinding_entriesOfStatements _ _ e he
        cases e <;> simp_all [Entry.diagnostic?, Entry.IsFinding, Entry.IsComplaint]
      · obtain ⟨e, he, hed⟩ := List.mem_filterMap.1 hd
        obtain ⟨w, hw, rfl⟩ := List.mem_map.1 he
        have hkw := kind_of_mem_surveyFindings hw
        simp_all [Entry.diagnostic?]
    | error e => rwa [lintTokens_of_error files hs h] at hd

end

end SqfCheck
