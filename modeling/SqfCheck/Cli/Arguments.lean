import SqfCheck.Report.Render

/-!
# Command line arguments

Arguments are read from left to right. A long option starts with two dashes and may have its
value after an equals sign ; short options start with one dash and may share it, the last of
them taking the rest of the argument as its value, with or without an equals sign. An option
that takes a value and has none in its argument takes the next one, which may not look like an
option itself. Two dashes alone end the options, and what is no option names the script.

`Arguments.read` gives what was asked for, or what stopped the reading : a fault, or a wish for
help or for the version.
-/

namespace SqfCheck

/-- What was asked for. -/
structure Arguments where
  /-- The script ; standard input if there is none. -/
  file : Option Path := none
  /-- The form of the report. -/
  output : Option OutputFormat := none
  /-- The report in JSON, whatever `output` says. -/
  json : Bool := false
  /-- End at the first error. -/
  stopOnError : Bool := false
  /-- No warnings. -/
  noWarnings : Bool := false
  /-- List variables, inclusions and macros. -/
  listVariables : Bool := false
  /-- Let the exit code tell of errors. -/
  exitCode : Bool := false
  /-- Warnings as errors. -/
  warningAsError : Bool := false
  /-- Check that files to load exist. -/
  checkPaths : Bool := false
  /-- Where paths begin. -/
  root : Option Path := none
  /-- A file with options. -/
  config : Option Path := none
  /-- A file with a command catalogue. -/
  commands : Option Path := none
  /-- No messages about what cannot be read. -/
  quiet : Bool := false
deriving DecidableEq, Repr, Inhabited

/-- An option without a value. -/
inductive Flag where
  | json
  | stopOnError
  | noWarnings
  | listVariables
  | exitCode
  | warningAsError
  | checkPaths
  | quiet
deriving DecidableEq, Repr, Inhabited

/-- An option with a value. -/
inductive Setting where
  | output
  | root
  | config
  | commands
deriving DecidableEq, Repr, Inhabited

/-- An option. -/
inductive CliOption where
  | flag (f : Flag)
  | setting (s : Setting)
  | help
  | version
deriving DecidableEq, Repr, Inhabited

/-- What is wrong with the arguments. -/
inductive UsageError where
  /-- There is no such option. -/
  | unknown (option : String)
  /-- The option was given before. -/
  | repeated (option : String)
  /-- The option needs a value. -/
  | missingValue (option : String)
  /-- The option takes no value. -/
  | unwantedValue (option : String)
  /-- The option does not take this value. -/
  | badValue (value : String)
  /-- There is a script already. -/
  | extra (argument : String)
deriving DecidableEq, Repr, Inhabited

/-- The wording of the fault. -/
def UsageError.message : UsageError → String
  | unknown o => "unexpected argument '" ++ o ++ "' found"
  | repeated o => "the argument '" ++ o ++ "' cannot be used multiple times"
  | missingValue o => "a value is required for '" ++ o ++ "' but none was supplied"
  | unwantedValue o => "unexpected value for '" ++ o ++ "' found; no more were expected"
  | badValue v => "invalid value '" ++ v ++ "'"
  | extra a => "unexpected argument '" ++ a ++ "' found"

/-- What ends the reading of arguments early. -/
inductive Stop where
  | usage (e : UsageError)
  | help
  | version
deriving DecidableEq, Repr, Inhabited

namespace CliOption

/-- The option of a long name. -/
def long? (name : String) : Option CliOption :=
  [("output", .setting .output), ("json", .flag .json), ("stop-on-error", .flag .stopOnError),
    ("no-warnings", .flag .noWarnings), ("variables", .flag .listVariables),
    ("exit-code", .flag .exitCode), ("warning-as-error", .flag .warningAsError),
    ("check-paths", .flag .checkPaths), ("root", .setting .root),
    ("config", .setting .config), ("commands", .setting .commands), ("quiet", .flag .quiet),
    ("help", .help), ("version", .version)].lookup name

/-- The option of a letter. -/
def short? (letter : Char) : Option CliOption :=
  [('j', .flag .json), ('s', .flag .stopOnError), ('n', .flag .noWarnings),
    ('v', .flag .listVariables), ('e', .flag .exitCode), ('w', .flag .warningAsError),
    ('c', .flag .checkPaths), ('r', .setting .root), ('q', .flag .quiet), ('h', .help),
    ('V', .version)].lookup letter

end CliOption

namespace Arguments

/-! ## Taking down one option -/

/-- Whether a flag was given. -/
def has (a : Arguments) : Flag → Bool
  | .json => a.json
  | .stopOnError => a.stopOnError
  | .noWarnings => a.noWarnings
  | .listVariables => a.listVariables
  | .exitCode => a.exitCode
  | .warningAsError => a.warningAsError
  | .checkPaths => a.checkPaths
  | .quiet => a.quiet

/-- The arguments with a flag, which is given as `name`. -/
def raise (a : Arguments) (name : String) (f : Flag) : Except Stop Arguments :=
  if a.has f then .error (.usage (.repeated name))
  else .ok <|
    match f with
    | .json => { a with json := true }
    | .stopOnError => { a with stopOnError := true }
    | .noWarnings => { a with noWarnings := true }
    | .listVariables => { a with listVariables := true }
    | .exitCode => { a with exitCode := true }
    | .warningAsError => { a with warningAsError := true }
    | .checkPaths => { a with checkPaths := true }
    | .quiet => { a with quiet := true }

/-- A path that is not empty. -/
def path (name value : String) : Except Stop Path :=
  if value.isEmpty then .error (.usage (.missingValue name)) else .ok ⟨value⟩

/-- The form of a report by its name. -/
def format (value : String) : Except Stop OutputFormat :=
  match [("text", OutputFormat.text), ("json", .json)].lookup value with
  | some f => .ok f
  | none => .error (.usage (.badValue value))

/-- The arguments with a value for an option, which is given as `name`. -/
def put (a : Arguments) (name : String) (value : String) :
    Setting → Except Stop Arguments
  | .output =>
    if a.output.isSome then .error (.usage (.repeated name))
    else (format value).map fun f => { a with output := some f }
  | .root =>
    if a.root.isSome then .error (.usage (.repeated name))
    else (path name value).map fun p => { a with root := some p }
  | .config =>
    if a.config.isSome then .error (.usage (.repeated name))
    else (path name value).map fun p => { a with config := some p }
  | .commands =>
    if a.commands.isSome then .error (.usage (.repeated name))
    else (path name value).map fun p => { a with commands := some p }

/-- The arguments with a script. -/
def putFile (a : Arguments) (argument : String) : Except Stop Arguments :=
  if a.file.isSome then .error (.usage (.extra argument))
  else (path "[FILE]" argument).map fun p => { a with file := some p }

/-! ## Reading arguments -/

/-- Whether an argument looks like an option, so that it is no value of one. A single dash does
not. -/
def looksLikeOption (argument : String) : Bool :=
  match argument.toList with
  | '-' :: _ :: _ => true
  | _ => false

/-- The arguments after the flags in `letters`, and the option among them that still needs a
value. -/
def readLetters (a : Arguments) : List Char → Except Stop (Arguments × Option Setting)
  | [] => .ok (a, none)
  | c :: cs =>
    let name := "-" ++ String.singleton c
    match CliOption.short? c with
    | none => .error (.usage (.unknown name))
    | some .help => .error .help
    | some .version => .error .version
    | some (.flag f) =>
      match a.raise name f with
      | .ok a => readLetters a cs
      | .error stop => .error stop
    | some (.setting s) =>
      match cs with
      | [] => .ok (a, some s)
      | '=' :: value => (a.put name (String.ofList value) s).map fun a => (a, none)
      | value => (a.put name (String.ofList value) s).map fun a => (a, none)

/-- The arguments after the long option in `text`, and the option itself if it still needs a
value. -/
def readLong (a : Arguments) (text : List Char) : Except Stop (Arguments × Option Setting) :=
  let (name, value) :=
    match Text.splitAtFirst '=' text with
    | some (name, value) => (String.ofList name, some (String.ofList value))
    | none => (String.ofList text, none)
  let shown := "--" ++ name
  match CliOption.long? name, value with
  | none, _ => .error (.usage (.unknown shown))
  | some (.setting s), some value => (a.put shown value s).map fun a => (a, none)
  | some (.setting s), none => .ok (a, some s)
  | some _, some _ => .error (.usage (.unwantedValue shown))
  | some .help, none => .error .help
  | some .version, none => .error .version
  | some (.flag f), none => (a.raise shown f).map fun a => (a, none)

/-- The arguments after one that looks like an option, and the option that still needs a
value. -/
def readOption (a : Arguments) (argument : String) :
    Except Stop (Arguments × Option Setting) :=
  match argument.toList with
  | '-' :: '-' :: text => a.readLong text
  | '-' :: letters => a.readLetters letters
  | _ => .ok (a, none)

/-- The arguments after more of them. -/
def readFrom (a : Arguments) : List String → Except Stop Arguments
  | [] => .ok a
  | argument :: rest =>
    if argument = "--" then rest.foldlM putFile a
    else if looksLikeOption argument then
      match a.readOption argument with
      | .error stop => .error stop
      | .ok (a, none) => readFrom a rest
      | .ok (a, some s) =>
        match rest with
        | [] => .error (.usage (.missingValue argument))
        | value :: rest =>
          if looksLikeOption value then .error (.usage (.missingValue argument))
          else
            match a.put argument value s with
            | .ok a => readFrom a rest
            | .error stop => .error stop
    else
      match a.putFile argument with
      | .ok a => readFrom a rest
      | .error stop => .error stop

/-- What the arguments ask for. -/
def read (arguments : List String) : Except Stop Arguments :=
  readFrom {} arguments

end Arguments

end SqfCheck
