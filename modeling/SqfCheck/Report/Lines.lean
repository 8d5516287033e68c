import SqfCheck.Report

/-!
# Reports for people

The text form of a report has an item for each error and then for each warning, with the name
of the file, where the finding begins, how serious it is and what it says. If variables are to
be listed, an item follows for each variable, with the comment of its first definition, for each
inclusion and for each macro. Every item ends in a newline.
-/

namespace SqfCheck

namespace Report

/-- The item of a finding in the file `file`. -/
def findingLine (file : Path) (severity : String) (d : Diagnostic) : String :=
  file.text ++ ":" ++ toString d.span.first.line ++ ":" ++ toString d.span.first.column
    ++ ": " ++ severity ++ ": " ++ d.message

/-- The items of a variable : how often it is used and defined, and the comment of its first
definition. -/
def variableLines (v : Variable) : List String :=
  let defined :=
    match v.definitions.head? with
    | some t => ", first defined at " ++ toString t.span.first.line ++ ":"
        ++ toString t.span.first.column
    | none => ""
  let head := "variable " ++ v.name ++ ": " ++ toString v.usages.length ++ " use(s), "
    ++ toString v.definitions.length ++ " definition(s)" ++ defined
  match v.comment with
  | some c => [head, "    " ++ String.ofList (Text.trim c.text.toList)]
  | none => [head]

/-- The item of an inclusion. -/
def inclusionLine (i : Inclusion) : String :=
  "include " ++ i.file ++ " from " ++ i.source.text

/-- The item of a macro. -/
def macroLine (m : MacroRecord) : String :=
  "macro " ++ m.name ++ ": " ++ toString m.definitions.length ++ " definition(s)"

/-- The items about variables, inclusions and macros. -/
def summaryLines (r : Report) : List String :=
  r.table.records.flatMap variableLines ++ r.ledger.inclusions.map inclusionLine
    ++ r.ledger.macros.map macroLine

/-- The items of a report on the file `file`. -/
def lines (r : Report) (file : Path) : List String :=
  r.errors.map (findingLine file "error") ++ r.warnings.map (findingLine file "warning")
    ++ if r.listsVariables then r.summaryLines else []

/-- A report on the file `file` as text. -/
def text (r : Report) (file : Path) : String :=
  String.join ((r.lines file).map (· ++ "\n"))

end Report

end SqfCheck
