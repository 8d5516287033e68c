import SqfCheck.Proofs.Boundary
import SqfCheck.Proofs.Hiding
import SqfCheck.Proofs.Records

/-!
# What a walk does to a run

The walk over statements takes the run with it and writes to it, but it reads only the commands, the
options and the files, and nothing of what the run has found before. It comes to a list of errors
about operands and a list of definitions, and these are what it adds, in order, to every run
(`walk_effects`) : the errors to the errors, the definitions to the table. Statements one after the
other add theirs one after the other.

All of this is read off the entries that the walk writes down (`Run.journal_walk`). Each of them is
an error about operands or a definition (`Entry.IsFinding`), so none of them reaches the warnings or
is a use of a variable.
-/

namespace SqfCheck

/-- The name and the token, if the entry is a definition that is no assignment. -/
def Entry.definition? : Entry → Option (String × Token)
  | definition name t => some (name, t)
  | _ => none

/-- The table after one more definition of the named variable by a token. -/
def VariableTable.define (table : VariableTable) (d : String × Token) : VariableTable :=
  table.update (foldCase d.1) (·.addDefinition d.2)

/-! ## Findings -/

section

variable {es : List Entry} (h : ∀ e ∈ es, e.IsFinding)
include h

theorem kind_of_mem_findings : ∀ d ∈ es.filterMap Entry.diagnostic?, d.isError = true ∧
    (d.kind = .typeMismatch ∨ d.kind = .arityMismatch ∨ d.kind = .missingFile) := by
  intro d hd
  obtain ⟨e, he, hed⟩ := List.mem_filterMap.1 hd
  have hfinding := h e he
  cases e with
  | diagnostic d' =>
    obtain rfl := Option.some.inj hed
    exact hfinding
  | _ => cases hed

theorem usageOf?_findings (name : String) : es.filterMap (Entry.usageOf? name) = [] := by
  refine List.filterMap_eq_nil_iff.2 fun e he => ?_
  have hfinding := h e he
  cases e with
  | usage t assigned => exact absurd hfinding id
  | _ => rfl

/-- Of what a walk finds only the definitions reach the table. -/
theorem VariableTable.foldl_record_findings (table : VariableTable) :
    es.foldl record table = (es.filterMap Entry.definition?).foldl define table := by
  induction es generalizing table with
  | nil => rfl
  | cons e es ih =>
    obtain ⟨he, hes⟩ := List.forall_mem_cons.1 h
    rw [List.foldl_cons, ih hes]
    cases e with
    | usage t assigned => exact absurd he id
    | _ => rfl

end

/-! ## Runs -/

namespace Journal

variable (j : Journal) {es : List Entry}

theorem table_writeAll (es : List Entry) :
    (j.writeAll es).table = es.foldl VariableTable.record j.table :=
  table_append (toList_entries_writeAll es j)

theorem diagnostics_writeAll (es : List Entry) :
    (j.writeAll es).diagnostics = j.diagnostics ++ es.filterMap Entry.diagnostic? := by
  rw [diagnostics_eq_filterMap, toList_entries_writeAll, List.filterMap_append,
    ← diagnostics_eq_filterMap]

section

variable (h : ∀ e ∈ es, e.IsFinding)
include h

theorem errors_writeAll_findings :
    (j.writeAll es).errors = j.errors ++ es.filterMap Entry.diagnostic? := by
  rw [errors_writeAll, List.filter_eq_self.2 fun d hd => (kind_of_mem_findings h d hd).1]

theorem warnings_writeAll_findings : (j.writeAll es).warnings = j.warnings := by
  have hnone : (es.filterMap Entry.diagnostic?).filter (!·.isError) = [] :=
    List.filter_eq_nil_iff.2 fun d hd => by simp [(kind_of_mem_findings h d hd).1]
  rw [warnings, diagnostics_writeAll, List.filter_append, hnone, List.append_nil]
  rfl

theorem table_writeAll_findings : (j.writeAll es).table =
    (es.filterMap Entry.definition?).foldl VariableTable.define j.table := by
  rw [table_writeAll, VariableTable.foldl_record_findings h]

theorem usages_writeAll_findings (name : String) :
    ((j.writeAll es).table.about name).usages = (j.table.about name).usages := by
  simp only [about_table, Variable.ofEntries, toList_entries_writeAll, List.filterMap_append,
    usageOf?_findings h, List.append_nil]

end

end Journal

theorem entriesOfStatements_eq_flatMap (c : Checker) (ss : List Statement) :
    entriesOfStatements c ss = ss.flatMap (Statement.entries c) := by
  induction ss with
  | nil => rfl
  | cons s ss ih => rw [entriesOfStatements, ih, List.flatMap_cons]

/-- What is picked out of the entries of statements is picked out of those of each. -/
theorem filterMap_entriesOfStatements {α : Type} (c : Checker) (f : Entry → Option α)
    (ss : List Statement) : (entriesOfStatements c ss).filterMap f =
      ss.flatMap fun s => (entriesOfStatements c [s]).filterMap f := by
  simp only [entriesOfStatements_eq_flatMap, List.filterMap_flatMap, List.flatMap_singleton]

/-- What a walk does to a run does not depend on what the run has found. For any commands, options
and files there are errors and definitions for each list of statements, such that the walk adds just
these, in order, to every run with these commands, options and files, whatever macros it knows and
whatever its journal holds : the errors to the errors, and the definitions to the table. What the
run was given, the warnings, the uses of every variable, the repairs, and whether the run was ended
or surveyed are as they were. The errors are about operands or missing files. What a list of
statements adds is what its statements add, one after the other. -/
theorem walk_effects (catalogue : Catalogue) (options : Options) (files : Files) :
    ∃ (errors : List Statement → List Diagnostic)
      (definitions : List Statement → List (String × Token)),
      (∀ ss, ∀ d ∈ errors ss, d.isError = true ∧
        (d.kind = .typeMismatch ∨ d.kind = .arityMismatch ∨ d.kind = .missingFile)) ∧
      (∀ ss, errors ss = ss.flatMap (errors [·]) ∧
        definitions ss = ss.flatMap (definitions [·])) ∧
      ∀ (ledger : Ledger) (journal : Journal) (ss : List Statement),
        let before : Run := ⟨⟨catalogue, options, files, ledger⟩, journal⟩
        let after := before.walk ss
        after.toSurroundings = before.toSurroundings ∧
        after.journal.errors = journal.errors ++ errors ss ∧
        after.journal.warnings = journal.warnings ∧
        after.journal.table = (definitions ss).foldl VariableTable.define journal.table ∧
        (∀ name, (after.journal.table.about name).usages = (journal.table.about name).usages) ∧
        after.journal.repairs = journal.repairs ∧
        after.journal.aborted = journal.aborted ∧ after.journal.surveyed = journal.surveyed := by
  let c := Checker.ofOptions catalogue options files
  have hfindings := isFinding_entriesOfStatements c
  refine ⟨fun ss => (entriesOfStatements c ss).filterMap Entry.diagnostic?,
    fun ss => (entriesOfStatements c ss).filterMap Entry.definition?,
    fun ss => kind_of_mem_findings (hfindings ss),
    fun ss => ⟨filterMap_entriesOfStatements c _ ss, filterMap_entriesOfStatements c _ ss⟩, ?_⟩
  intro ledger journal ss before after
  have hjournal : after.journal = journal.writeAll (entriesOfStatements c ss) :=
    before.journal_walk ss
  refine ⟨before.toSurroundings_walk ss, ?_⟩
  rw [hjournal]
  exact ⟨journal.errors_writeAll_findings (hfindings ss),
    journal.warnings_writeAll_findings (hfindings ss),
    journal.table_writeAll_findings (hfindings ss),
    fun name => journal.usages_writeAll_findings (hfindings ss) name,
    Journal.repairs_writeAll _ _, Journal.aborted_writeAll _ _, Journal.surveyed_writeAll _ _⟩

end SqfCheck
