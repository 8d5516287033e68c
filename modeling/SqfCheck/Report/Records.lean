import SqfCheck.Json
import SqfCheck.Report

/-!
# Reports for programs

The other form of a report is a JSON object on a line for each item : the errors, the warnings
and, if variables are to be listed, the variables, the inclusions and the macros. Each object
tells by its first field what it is about.
-/

namespace SqfCheck

namespace Report

/-- Two numbers, where something begins and where it ends. -/
def jsonRange (first last : Nat) : Json :=
  .array [.number first, .number last]

/-- A span as the fields of an object. -/
def spanFields (s : Span) : List (String × Json) :=
  [("line", jsonRange s.first.line s.last.line),
    ("column", jsonRange s.first.column s.last.column)]

/-- A span as an object. -/
def jsonSpan (s : Span) : Json :=
  .object (spanFields s)

/-- The object for a finding. -/
def findingRecord (severity : String) (d : Diagnostic) : Json :=
  .object ([("type", .string severity), ("message", .string d.message)] ++ spanFields d.span)

/-- The object for a variable. -/
def variableRecord (v : Variable) : Json :=
  .object [("type", .string "variable"), ("variable", .string v.name),
    ("usage", .array (v.usages.map fun t => jsonSpan t.span)),
    ("definitions", .array (v.definitions.map fun t => jsonSpan t.span)),
    ("comment", match v.comment with | some c => .string c.text | none => .null)]

/-- The object for an inclusion. -/
def inclusionRecord (i : Inclusion) : Json :=
  .object [("type", .string "include"), ("include", .string i.file),
    ("from", .string i.source.text)]

/-- The object for a macro. -/
def macroRecord (m : MacroRecord) : Json :=
  .object [("type", .string "macro"), ("macro", .string m.name),
    ("definitions", .array (m.definitions.map fun d =>
      .object [("range", jsonSpan d.span), ("value", .string d.value)]))]

/-- The objects about variables, inclusions and macros. -/
def summaryRecords (r : Report) : List Json :=
  r.table.records.map variableRecord ++ r.ledger.inclusions.map inclusionRecord
    ++ r.ledger.macros.map macroRecord

/-- The objects of a report. -/
def records (r : Report) : List Json :=
  r.errors.map (findingRecord "error") ++ r.warnings.map (findingRecord "warning")
    ++ if r.listsVariables then r.summaryRecords else []

/-- A report as JSON, an object on each line. -/
def json (r : Report) : String :=
  String.join (r.records.map (·.text ++ "\n"))

end Report

end SqfCheck
