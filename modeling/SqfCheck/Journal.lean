import SqfCheck.Diagnostic
import SqfCheck.Vocabulary

/-!
# The journal of a run

Everything a run finds is written down in one place, in order : diagnostics, uses of variables
and definitions that are no assignments. A `Journal` only grows at its end. The errors, the
warnings and the table of variables are read off it (`Journal.errors`, `Journal.warnings`,
`Journal.table`), so what one step of the run writes does not depend on what was written
before. Beside them the journal lists the repairs, each with the tokens that it dropped.
-/

namespace SqfCheck

/-- One thing that a run found. -/
inductive Entry where
  /-- Something to say about the script. -/
  | diagnostic (d : Diagnostic)
  /-- A use of a variable, which is also a definition if it is assigned to. -/
  | usage (token : Token) (assigned : Bool)
  /-- A definition of the named variable by a token that is no assignment to it. -/
  | definition (name : String) (token : Token)
deriving DecidableEq, Repr, Inhabited

/-- The table of variables after one more entry. -/
def VariableTable.record (table : VariableTable) : Entry → VariableTable
  | .diagnostic _ => table
  | .usage t false => table.update t.name (·.addUsage t)
  | .usage t true => table.update t.name fun v => (v.addUsage t).addDefinition t
  | .definition name t => table.update (foldCase name) (·.addDefinition t)

/-- A failure behind which reading went on. -/
structure Repair where
  /-- The failure. -/
  failure : Diagnostic
  /-- The kind of token that was looked for. -/
  boundary : TokenKind
  /-- Whether that token was to be dropped too. -/
  skip : Bool
  /-- The tokens that were dropped. -/
  dropped : List Token
deriving DecidableEq, Repr, Inhabited

/-- What a run has found so far. -/
structure Journal where
  /-- The findings in order. -/
  entries : Array Entry := #[]
  /-- The repairs in order. -/
  repairs : List Repair := []
  /-- Whether the run has been ended early. -/
  aborted : Bool := false
  /-- Whether variables without a definition have been reported. -/
  surveyed : Bool := false
deriving Inhabited

namespace Journal

/-- The journal with one more entry. -/
def write (j : Journal) (e : Entry) : Journal :=
  { j with entries := j.entries.push e }

/-- The journal with more entries. -/
def writeAll (j : Journal) (es : List Entry) : Journal :=
  es.foldl write j

/-- The journal with one more diagnostic. -/
def report (j : Journal) (d : Diagnostic) : Journal :=
  j.write (.diagnostic d)

/-- The journal with one more failure that was repaired. -/
def repaired (j : Journal) (r : Repair) : Journal :=
  { j.report r.failure with repairs := j.repairs ++ [r] }

/-- The journal of a run that ends here. -/
def abort (j : Journal) : Journal :=
  { j with aborted := true }

/-- The diagnostics in order. -/
def diagnostics (j : Journal) : List Diagnostic :=
  j.entries.toList.filterMap fun
    | .diagnostic d => some d
    | _ => none

/-- The errors in order. -/
def errors (j : Journal) : List Diagnostic :=
  j.diagnostics.filter Diagnostic.isError

/-- The warnings in order. -/
def warnings (j : Journal) : List Diagnostic :=
  j.diagnostics.filter (!·.isError)

/-- The variables met. -/
def table (j : Journal) : VariableTable :=
  j.entries.foldl VariableTable.record {}

/-- The meaning of the token's name. A use of a variable is written down, and an assignment to
it if `next`, the token after it, says so. -/
def resolve (v : Vocabulary) (t next : Token) (j : Journal) : Meaning × Journal :=
  match v.classify t.name with
  | .plain => (.plain, j.write (.usage t (next.kind = .assign)))
  | meaning => (meaning, j)

end Journal

end SqfCheck
