import SqfCheck.Catalogue.Builtin
import SqfCheck.Cli.Arguments
import SqfCheck.Lint
import SqfCheck.Options.Toml

/-!
# The command line

`Cli.run` is a whole run of the program as a function of its arguments, the files it can see and
standard input. Faults in the arguments come first, then the file with options is read, then the
command catalogue, then the script ; the first that fails ends the run. The exit code is two for
a fault in the arguments, one for anything that cannot be read, and otherwise what the report
says.

`Cli.consulted` lists the paths that a run may ask about, given what is known of them so far.
-/

namespace SqfCheck

/-- The options in the file at `path`. -/
def Options.load (files : Files) (path : Path) : Except LintError Options :=
  match files.read path with
  | .error cause => .error (.configFile path cause)
  | .ok text =>
    match Options.ofToml text with
    | some o => .ok o
    | none => .error .config

/-- The command catalogue in the file at `path`. -/
def Catalogue.load (files : Files) (path : Path) : Except LintError Catalogue :=
  match files.read path with
  | .error cause => .error (.catalogue path cause)
  | .ok text => .ok (.ofText text)

namespace Arguments

/-- The form of the report. -/
def outputFormat (a : Arguments) : OutputFormat :=
  if a.json then .json else a.output.getD .text

/-- The options of the run : those of the option file, and all that the arguments switch on. -/
def options (a : Arguments) (files : Files) : Except LintError Options := do
  let o ← match a.config with
    | some path => Options.load files path
    | none => .ok {}
  return {
    stopOnError := o.stopOnError || a.stopOnError
    skipWarnings := o.skipWarnings || a.noWarnings
    outputVariables := o.outputVariables || a.listVariables
    exitCodeEnabled := o.exitCodeEnabled || a.exitCode
    warningAsError := o.warningAsError || a.warningAsError
    checkPaths := o.checkPaths || a.checkPaths
    rootPath := a.root.or o.rootPath }

/-- The catalogue of the run. -/
def catalogue (a : Arguments) (files : Files) : Except LintError Catalogue :=
  match a.commands with
  | some path => Catalogue.load files path
  | none => .ok .builtin

/-- The name and the text of the script. -/
def script (a : Arguments) (files : Files) (stdin : Except ReadError String) :
    Except LintError (Path × String) :=
  let (name, text) :=
    match a.file with
    | some path => (path, files.read path)
    | none => (⟨"<stdin>"⟩, stdin)
  match text with
  | .ok text => .ok (name, text)
  | .error cause => .error (.source name cause)

end Arguments

namespace Cli

/-- How a run of the program ends. -/
structure Outcome where
  /-- The exit code. -/
  exit : Nat
  /-- What is written to standard output. -/
  output : String := ""
  /-- What is written to standard error. -/
  complaint : String := ""
deriving DecidableEq, Repr, Inhabited

/-- The name and number of the program. -/
def versionText : String := "sqflint 0.1.0\n"

/-- What the program says about its arguments. -/
def helpText : String :=
  "Static analyzer for SQF scripts\n
Usage: sqflint [OPTIONS] [FILE]\n
Arguments:
  [FILE]  Script to lint; standard input is read when omitted\n
Options:
      --output <OUTPUT>   Output format [default: text] [possible values: text, json]
  -j, --json              Shorthand for --output json
  -s, --stop-on-error     Stop at the first error
  -n, --no-warnings       Do not report warnings
  -v, --variables         Also print variables, includes and macros
  -e, --exit-code         Exit with status 1 when errors were reported
  -w, --warning-as-error  Report warnings as errors
  -c, --check-paths       Check that script paths given to execVM and friends exist
  -r, --root <DIR>        Mission root used for path checks and absolute includes
      --config <FILE>     TOML file with lint options
      --commands <FILE>   Command catalogue replacing the built-in one
  -q, --quiet             Suppress error messages on stderr
  -h, --help              Print help
  -V, --version           Print version
"

/-- The report of a run, with the options and the name of the script. -/
def report (a : Arguments) (files : Files) (stdin : Except ReadError String) :
    Except LintError (Options × Path × Report) := do
  let options ← a.options files
  let catalogue ← a.catalogue files
  let (name, text) ← a.script files stdin
  return (options, name, lint catalogue options files name text)

/-- How a run ends that cannot report. -/
def failure (a : Arguments) (e : LintError) : Outcome where
  exit := 1
  complaint :=
    if a.quiet then ""
    else
      match a.outputFormat with
      | .text => e.message ++ "\n"
      | .json => (Json.object [("error", .string e.message)]).text ++ "\n"

/-- How a run ends that was given these arguments. -/
def runArguments (a : Arguments) (files : Files) (stdin : Except ReadError String) : Outcome :=
  match report a files stdin with
  | .error e => failure a e
  | .ok (options, name, r) =>
    { exit := r.exitCode options.exitCodeEnabled
      output := r.render name a.outputFormat }

/-- How a run of the program ends. -/
def run (files : Files) (stdin : Except ReadError String) (arguments : List String) : Outcome :=
  match Arguments.read arguments with
  | .ok a => runArguments a files stdin
  | .error .version => { exit := 0, output := versionText }
  | .error .help => { exit := 0, output := helpText }
  | .error (.usage e) => { exit := 2, complaint := "error: " ++ e.message ++ "\n" }

/-! ## What a run looks at -/

/-- The paths that a script may lead to : what it includes, and what its string literals name
if files to load are checked. -/
def scriptPaths (options : Options) (files : Files) (name : Path) (text : String) : List Path :=
  let prepared := Prepared.ofSource files options.rootPath name text
  let included := prepared.ledger.inclusions.filterMap fun i =>
    inclusionTarget options.rootPath i.source i.file
  let loaded :=
    if options.checkPaths then
      (Token.scan prepared.text).filterMap fun t =>
        t.stringValue.map fun s => options.root.join (Path.ofScript s)
    else []
  name :: (included ++ loaded)

/-- The paths that a run asks about, as far as they show in the files known so far. -/
def consulted (files : Files) (stdin : Except ReadError String) (arguments : List String) :
    List Path :=
  match Arguments.read arguments with
  | .error _ => []
  | .ok a =>
    a.config.toList ++ a.commands.toList ++ a.file.toList ++
      match a.options files, a.script files stdin with
      | .ok options, .ok (name, text) => scriptPaths options files name text
      | _, _ => []

end Cli

end SqfCheck
