import SqfCheck.Path

/-!
# Options

What can be chosen about a run.
-/

namespace SqfCheck

/-- The choices that govern a run. -/
structure Options where
  /-- End at the first error in the order of tokens. -/
  stopOnError : Bool := false
  /-- Do not look for variables that are nowhere defined. -/
  skipWarnings : Bool := false
  /-- List variables, inclusions and macros in the output. -/
  outputVariables : Bool := false
  /-- Let the exit code tell whether there were errors. -/
  exitCodeEnabled : Bool := false
  /-- Report variables that are nowhere defined as errors. -/
  warningAsError : Bool := false
  /-- Check that the files exist that commands load. -/
  checkPaths : Bool := false
  /-- Where paths that start with a slash and paths to load begin. -/
  rootPath : Option Path := none
deriving DecidableEq, Repr, Inhabited

namespace Options

/-- Where paths to load begin : the working directory unless a root is set. -/
def root (o : Options) : Path :=
  o.rootPath.getD ⟨"."⟩

end Options

end SqfCheck
