import SqfCheck.Journal

/-!
# Reports

What a run over a script comes to : its errors and warnings, the variables, and the macros and
inclusions.
-/

namespace SqfCheck

/-- The result of a run. -/
structure Report where
  /-- The errors in order. -/
  errors : List Diagnostic
  /-- The warnings in order. -/
  warnings : List Diagnostic
  /-- The variables of the script. -/
  table : VariableTable
  /-- Its macros and inclusions. -/
  ledger : Ledger
  /-- Whether variables, inclusions and macros are to be listed. -/
  listsVariables : Bool
deriving DecidableEq, Repr, Inhabited

namespace Report

/-- The report of what a journal holds. -/
def ofJournal (j : Journal) (ledger : Ledger) (listsVariables : Bool) : Report where
  errors := j.errors
  warnings := j.warnings
  table := j.table
  ledger := ledger
  listsVariables := listsVariables

/-- One if exit codes are enabled and there are errors, else zero. -/
def exitCode (r : Report) (enabled : Bool) : Nat :=
  if enabled && !r.errors.isEmpty then 1 else 0

end Report

end SqfCheck
