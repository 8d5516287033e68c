import SqfCheck.Directive.Follow
import SqfCheck.Grammar
import SqfCheck.Token.Scan
import SqfCheck.Walk

/-!
# Checking a script

`lint` takes a script through all stages : directives are blanked and followed, the text is cut
into tokens, the tokens are read as statements, expressions are given types, and at last the
local variables are reported that are used and nowhere defined (`undefinedLocals`). A run that
was aborted ends with the tokens.
-/

namespace SqfCheck

/-- Why there is nothing to report on. -/
inductive LintError where
  /-- The script cannot be read. -/
  | source (path : Path) (cause : ReadError)
  /-- The command catalogue cannot be read. -/
  | catalogue (path : Path) (cause : ReadError)
  /-- The file with the options cannot be read. -/
  | configFile (path : Path) (cause : ReadError)
  /-- The file with the options does not hold options. -/
  | config
deriving DecidableEq, Repr, Inhabited

namespace LintError

/-- The wording of the cause. -/
def message : LintError → String
  | source path cause => "failed to read " ++ path.text ++ ": " ++ cause.message
  | catalogue path cause =>
    "failed to read command catalogue " ++ path.text ++ ": " ++ cause.message
  | configFile path cause =>
    "failed to read configuration " ++ path.text ++ ": " ++ cause.message
  | config => "invalid configuration: not a list of known options"

end LintError

/-! ## Variables without a definition -/

/-- A warning for each use of a local variable that has no definition. -/
def undefinedLocals (ledger : Ledger) (table : VariableTable) : List Diagnostic :=
  (table.records.filter fun v =>
    v.isLocal && v.definitions.isEmpty && !ledger.contains v.name).flatMap fun v =>
      v.usages.map fun t =>
        .warning .undefinedLocal t.span ("Possibly undefined variable " ++ t.text)

/-- The journal with its variables without a definition reported. This is done once in a run,
and not at all if warnings are skipped. -/
def Journal.survey (options : Options) (ledger : Ledger) (j : Journal) : Journal :=
  if j.surveyed then j
  else
    let marked := { j with surveyed := true }
    if options.skipWarnings then marked
    else
      let found := undefinedLocals ledger j.table
      let found := if options.warningAsError then found.map Diagnostic.escalate else found
      marked.writeAll (found.map .diagnostic)

/-! ## Runs -/

/-- The journal of a run over tokens. -/
def lintTokens (catalogue : Catalogue) (options : Options) (files : Files) (ledger : Ledger)
    (tokens : List Token) : Journal :=
  match Script.read ⟨catalogue, ledger⟩ options.stopOnError tokens {} with
  | (.ok script, journal) =>
    let run : Run := ⟨⟨catalogue, options, files, ledger⟩, journal⟩
    (run.walk script.statements).journal.survey options ledger
  | (.error _, journal) => journal

/-- The report on the script `source` in the file `name`. -/
def lint (catalogue : Catalogue) (options : Options) (files : Files) (name : Path)
    (source : String) : Report :=
  let prepared := Prepared.ofSource files options.rootPath name source
  .ofJournal (lintTokens catalogue options files prepared.ledger (Token.scan prepared.text))
    prepared.ledger options.outputVariables

/-- The report on the script in the file at `path`. -/
def lintFile (catalogue : Catalogue) (options : Options) (files : Files) (path : Path) :
    Except LintError Report :=
  match files.read path with
  | .ok source => .ok (lint catalogue options files path source)
  | .error cause => .error (.source path cause)

end SqfCheck
