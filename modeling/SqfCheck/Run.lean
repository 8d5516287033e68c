import SqfCheck.Files
import SqfCheck.Options
import SqfCheck.Report

/-!
# Runs

A `Run` is what a script is checked with : the commands, the options, the files and the macros that
it is given (`Surroundings`), and the journal of what it has found.
-/

namespace SqfCheck

/-- What a run is given. -/
structure Surroundings where
  /-- The commands. -/
  catalogue : Catalogue := {}
  /-- The choices that govern the run. -/
  options : Options := {}
  /-- The files. -/
  files : Files
  /-- The macros. -/
  ledger : Ledger := {}

/-- A run, with what it has found so far. -/
structure Run extends Surroundings where
  /-- What was found. -/
  journal : Journal := {}

namespace Run

/-- What the names of the script can mean. -/
def vocabulary (r : Run) : Vocabulary :=
  ⟨r.catalogue, r.ledger⟩

/-- The run with one more diagnostic. -/
def record (d : Diagnostic) (r : Run) : Run :=
  { r with journal := r.journal.report d }

/-- The run with one more definition, by a token that is no assignment, of the named variable. -/
def defineLocal (t : Token) (name : String) (r : Run) : Run :=
  { r with journal := r.journal.write (.definition name t) }

/-- The report of the run. -/
def report (r : Run) : Report :=
  .ofJournal r.journal r.ledger r.options.outputVariables

end Run

end SqfCheck
