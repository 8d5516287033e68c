import SqfCheck.Path

/-!
# Files

What the checker knows of files is a value of `Files` : it reads a path, says whether a path
names a regular file, and gives a path an identity under which a file is met only once.
`Files.memory` holds texts under their normalised paths.
-/

namespace SqfCheck

/-- Why a file could not be read. -/
inductive ReadError where
  /-- There is nothing at the path. -/
  | notFound
  /-- A directory stands at the path. -/
  | isDirectory
  /-- A step of the path goes through something that is no directory. -/
  | notDirectory
  /-- The file does not hold text. -/
  | notText
  /-- No text is held in memory under the normalised path. -/
  | notHeld (path : Path)
deriving DecidableEq, Repr, Inhabited

namespace ReadError

/-- The wording of the cause. -/
def message : ReadError → String
  | notFound => "No such file or directory (os error 2)"
  | isDirectory => "Is a directory (os error 21)"
  | notDirectory => "Not a directory (os error 20)"
  | notText => "stream did not contain valid UTF-8"
  | notHeld path => "file not found in memory: " ++ path.text

end ReadError

/-- What a path is known by once it is looked up. -/
inductive FileId where
  /-- Something that exists, by the names that lead to it. -/
  | located (names : List String)
  /-- A path that is known by its text alone. -/
  | written (path : Path)
deriving DecidableEq, Repr, Inhabited

/-- The files a run can see. -/
structure Files where
  /-- The text of the file at a path. -/
  read : Path → Except ReadError String
  /-- Whether a regular file stands at a path. -/
  isFile : Path → Bool
  /-- What a path is known by ; two paths to one file have one identity. -/
  identity : Path → FileId
  /-- How many files can be read at most, counted by identity. -/
  count : Nat

namespace Files

/-- Texts held in memory, each under its normalised path. -/
def memory (texts : List (Path × String)) : Files :=
  let held := texts.map fun (path, text) => (path.normalise, text)
  { read := fun path =>
      match held.lookup path.normalise with
      | some text => .ok text
      | none => .error (.notHeld path.normalise)
    isFile := fun path => (held.lookup path.normalise).isSome
    identity := fun path => .written path.normalise
    count := held.length }

/-- Bytes as text, if they are text. -/
def decode (bytes : ByteArray) : Except ReadError String :=
  match String.fromUTF8? bytes with
  | some text => .ok text
  | none => .error .notText

end Files

end SqfCheck
