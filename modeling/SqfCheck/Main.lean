import SqfCheck.Cli
import SqfCheck.Files.Observed

/-!
# The program

Looks at the files that a run asks about until it asks about no more, and then runs. All that is
decided is decided by `Cli.run`.
-/

namespace SqfCheck

/-- The cause of a failure to read. -/
def ReadError.ofIO : IO.Error → ReadError
  | .noFileOrDirectory _ _ _ => .notFound
  | .inappropriateType _ code _ => if code = 21 then .isDirectory else .notDirectory
  | _ => .notFound

/-- What is found at a path. -/
def observe (path : Path) : IO Observation := do
  let contents ← try
      let bytes ← IO.FS.readBinFile path.text
      pure (Files.decode bytes)
    catch e => pure (.error (ReadError.ofIO e))
  let (isFile, identity) ← try
      let real ← IO.FS.realPath path.text
      let metadata ← real.metadata
      pure (metadata.type == .file, FileId.located [real.toString])
    catch _ => pure (false, FileId.written path.normalise)
  return { path, contents, isFile, identity }

/-- Looks at all that a run asks about, starting from what is known. -/
partial def explore (arguments : List String) (stdin : Except ReadError String)
    (found : List Observation) : IO (List Observation) := do
  let asked := Cli.consulted (.observed found) stdin arguments
  let fresh := (asked.filter fun path => !found.any (·.path == path)).eraseDups
  if fresh.isEmpty then return found
  else explore arguments stdin (found ++ (← fresh.mapM observe))

/-- All of standard input, if it is needed. -/
def readInput (arguments : List String) : IO (Except ReadError String) := do
  match Arguments.read arguments with
  | .ok { file := none, .. } => return Files.decode (← (← IO.getStdin).readBinToEnd)
  | _ => return .ok ""

end SqfCheck

open SqfCheck in
/-- The program. -/
def main (arguments : List String) : IO UInt32 := do
  let stdin ← readInput arguments
  let found ← explore arguments stdin []
  let outcome := Cli.run (.observed found) stdin arguments
  IO.print outcome.output
  IO.eprint outcome.complaint
  return outcome.exit.toUInt32
