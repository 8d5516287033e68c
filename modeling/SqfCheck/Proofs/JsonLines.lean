import Mathlib
import SqfCheck.Proofs.JsonText
import SqfCheck.Report.Records

/-!
# Reports read back

A report as JSON can be read line by line (`json_lines`) : every line ends in a newline, holds no
control character before it, and is read back as one item of the report (`ReportItem`), with all
that the item says. The items come in the order of the report.

An item is read from the fields of an object by their names (`ReportItem.ofJson?`), whatever the
order in which they stand.
-/

namespace SqfCheck

/-- The value of a field, if the value is an object that has it. -/
def Json.field? (key : String) : Json → Option Json
  | object fields => fields.lookup key
  | _ => none

/-- What one line of a report says. -/
inductive ReportItem where
  /-- An error. -/
  | error (message : String) (span : Span)
  /-- A warning. -/
  | warning (message : String) (span : Span)
  /-- A variable, where it is used and defined, and the comment of its first definition. -/
  | symbol (name : String) (usages definitions : List Span) (comment : Option String)
  /-- An inclusion of a file by another one. -/
  | inclusion (file source : String)
  /-- A macro with the places and the values of its definitions. -/
  | expansion (name : String) (definitions : List (Span × String))
deriving DecidableEq, Repr

/-! ## Reading items -/

namespace ReportItem

/-- A text, if the value is one. -/
def text? : Json → Option String
  | .string s => some s
  | _ => none

/-- A text or nothing. -/
def comment? : Json → Option (Option String)
  | .null => some none
  | .string s => some (some s)
  | _ => none

/-- Two numbers. -/
def range? : Json → Option (Nat × Nat)
  | .array [.number first, .number last] => some (first, last)
  | _ => none

/-- All elements of an array, each read by `read`. -/
def list? {α : Type} (read : Json → Option α) : Json → Option (List α)
  | .array elements => elements.mapM read
  | _ => none

/-- A span, from its lines and columns. -/
def span? (j : Json) : Option Span := do
  let lines ← j.field? "line" >>= range?
  let columns ← j.field? "column" >>= range?
  return ⟨⟨lines.1, columns.1⟩, ⟨lines.2, columns.2⟩⟩

/-- A definition of a macro. -/
def definition? (j : Json) : Option (Span × String) := do
  let span ← j.field? "range" >>= span?
  let value ← j.field? "value" >>= text?
  return (span, value)

/-- The item that an object is about. -/
def ofJson? (j : Json) : Option ReportItem := do
  let type ← j.field? "type" >>= text?
  if type = "error" then
    return error (← j.field? "message" >>= text?) (← span? j)
  else if type = "warning" then
    return warning (← j.field? "message" >>= text?) (← span? j)
  else if type = "variable" then
    return symbol (← j.field? "variable" >>= text?) (← j.field? "usage" >>= list? span?)
      (← j.field? "definitions" >>= list? span?) (← j.field? "comment" >>= comment?)
  else if type = "include" then
    return inclusion (← j.field? "include" >>= text?) (← j.field? "from" >>= text?)
  else if type = "macro" then
    return expansion (← j.field? "macro" >>= text?) (← j.field? "definitions" >>= list? definition?)
  else none

/-- The item that a line is about. -/
def ofLine? (line : List Char) : Option ReportItem :=
  Json.decode line >>= ofJson?

end ReportItem

namespace Report

/-- What a report says of variables, inclusions and macros. -/
def summaryItems (r : Report) : List ReportItem :=
  r.table.records.map (fun v => .symbol v.name (v.usages.map Token.span)
    (v.definitions.map Token.span) (v.comment.map Comment.text)) ++
  r.ledger.inclusions.map (fun i => .inclusion i.file i.source.text) ++
  r.ledger.macros.map (fun m => .expansion m.name (m.definitions.map fun d => (d.span, d.value)))

/-- What a report says, item by item : errors, warnings, and then variables, inclusions and macros
if they are to be listed. -/
def items (r : Report) : List ReportItem :=
  r.errors.map (fun d => .error d.message d.span) ++
    r.warnings.map (fun d => .warning d.message d.span) ++
    if r.listsVariables then r.summaryItems else []

end Report

namespace ReportItem

theorem mapM_map {α β : Type} {read : Json → Option β} {write : α → Json} {f : α → β}
    (h : ∀ a, read (write a) = some (f a)) :
    ∀ as : List α, (as.map write).mapM read = some (as.map f)
  | [] => rfl
  | a :: as => by
    simp [h a, mapM_map h as]

theorem span?_jsonSpan (s : Span) : span? (Report.jsonSpan s) = some s := by
  simp [span?, Report.jsonSpan, Report.spanFields, Report.jsonRange, Json.field?, List.lookup,
    range?]

theorem definition?_object (d : MacroDefinition) :
    definition? (.object [("range", Report.jsonSpan d.span), ("value", .string d.value)]) =
      some (d.span, d.value) := by
  simp [definition?, Json.field?, List.lookup, span?_jsonSpan, text?]

theorem ofJson?_error (d : Diagnostic) :
    ofJson? (Report.findingRecord "error" d) = some (.error d.message d.span) := by
  simp [ofJson?, Report.findingRecord, Report.spanFields, Report.jsonRange, Json.field?,
    List.lookup, range?, text?, span?]

theorem ofJson?_warning (d : Diagnostic) :
    ofJson? (Report.findingRecord "warning" d) = some (.warning d.message d.span) := by
  simp [ofJson?, Report.findingRecord, Report.spanFields, Report.jsonRange, Json.field?,
    List.lookup, range?, text?, span?]

theorem ofJson?_variableRecord (v : Variable) :
    ofJson? (Report.variableRecord v) = some (.symbol v.name (v.usages.map Token.span)
      (v.definitions.map Token.span) (v.comment.map Comment.text)) := by
  have hspans := mapM_map fun t : Token => span?_jsonSpan t.span
  cases hc : v.comment <;>
    simp [ofJson?, Report.variableRecord, Json.field?, List.lookup, text?, list?, hspans, hc,
      comment?]

theorem ofJson?_inclusionRecord (i : Inclusion) :
    ofJson? (Report.inclusionRecord i) = some (.inclusion i.file i.source.text) := by
  simp [ofJson?, Report.inclusionRecord, Json.field?, List.lookup, text?]

theorem ofJson?_macroRecord (m : MacroRecord) :
    ofJson? (Report.macroRecord m) =
      some (.expansion m.name (m.definitions.map fun d => (d.span, d.value))) := by
  simp [ofJson?, Report.macroRecord, Json.field?, List.lookup, text?, list?,
    mapM_map definition?_object]

end ReportItem

namespace Report

/-- Each object of a report is read back as its item. -/
theorem map_ofJson?_records (r : Report) :
    r.records.map ReportItem.ofJson? = r.items.map some := by
  have hsummary : r.summaryRecords.map ReportItem.ofJson? = r.summaryItems.map some := by
    simp [summaryRecords, summaryItems, Function.comp_def, ReportItem.ofJson?_variableRecord,
      ReportItem.ofJson?_inclusionRecord, ReportItem.ofJson?_macroRecord]
  cases hr : r.listsVariables <;>
    simp [records, items, hr, hsummary, Function.comp_def, ReportItem.ofJson?_error,
      ReportItem.ofJson?_warning]

/-- A report is its objects, each followed by a newline. -/
theorem toList_json (r : Report) :
    r.json.toList = (r.records.map Json.write).flatMap (· ++ ['\n']) := by
  simp [json, Json.text, String.toList_join, List.flatMap_map]

/-- A report as JSON is made of lines that end in a newline and hold no control character before
it. There is a line for each item of the report, in the order of the report, and it is read back
as that item. -/
theorem json_lines (r : Report) :
    ∃ lines : List (List Char),
      r.json.toList = lines.flatMap (· ++ ['\n']) ∧
      (∀ line ∈ lines, ∀ c ∈ line, 0x20 ≤ c.toNat) ∧
      lines.length = r.items.length ∧
      lines.map ReportItem.ofLine? = r.items.map some := by
  have hread : (r.records.map Json.write).map ReportItem.ofLine? = r.items.map some := by
    rw [← r.map_ofJson?_records, List.map_map]
    simp [ReportItem.ofLine?, Json.decode_write]
  refine ⟨r.records.map Json.write, r.toList_json, ?_, ?_, hread⟩
  · intro line hline
    obtain ⟨j, -, rfl⟩ := List.mem_map.1 hline
    exact j.printable_write
  · simpa using congrArg List.length hread

end Report

end SqfCheck
