import SqfCheck.Files

/-!
# Files that were looked at

What was found at some paths, as the files of a run. Every other path leads to nothing.
-/

namespace SqfCheck

/-- What was found at a path. -/
structure Observation where
  /-- The path. -/
  path : Path
  /-- What reading it gave. -/
  contents : Except ReadError String
  /-- Whether a regular file stands there. -/
  isFile : Bool
  /-- What the path is known by. -/
  identity : FileId

/-- The files that were looked at. -/
def Files.observed (found : List Observation) : Files :=
  let at? (path : Path) : Option Observation := found.find? (·.path == path)
  { read := fun path =>
      match at? path with
      | some o => o.contents
      | none => .error .notFound
    isFile := fun path => (at? path).any (·.isFile)
    identity := fun path =>
      match at? path with
      | some o => o.identity
      | none => .written path.normalise
    count := found.length }

end SqfCheck
