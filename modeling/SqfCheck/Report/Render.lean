import SqfCheck.Report.Lines
import SqfCheck.Report.Records

/-!
# Forms of a report
-/

namespace SqfCheck

/-- The form in which a report is written. -/
inductive OutputFormat where
  /-- Lines for people. -/
  | text
  /-- A JSON object on each line. -/
  | json
deriving DecidableEq, Repr, Inhabited

/-- A report on the file `file` in the given form. -/
def Report.render (r : Report) (file : Path) : OutputFormat → String
  | .text => r.text file
  | .json => r.json

end SqfCheck
