import SqfCheck.Files

/-!
# A working directory

A `FileTree` is a directory with everything below it : its files by the names that lead to
them, directories being whatever has a file below. It is the working directory, so relative
paths start in it ; of the directories above it nothing is known but that they exist.

`FileTree.walk` follows a path piece by piece. Every piece but the first has to start in a
directory, an empty piece and a dot too, which is why a slash after the name of a file is a
fault.
-/

namespace SqfCheck

/-- The files below the working directory, each by the names that lead to it. -/
structure FileTree where
  /-- The files with their contents. -/
  files : List (List String × ByteArray)

/-- A place that a path leads to. -/
inductive Place where
  /-- Below the working directory, or that directory itself. -/
  | inside (names : List String)
  /-- A directory that is not below the working directory. -/
  | outside
deriving DecidableEq, Repr, Inhabited

namespace FileTree

/-- The tree of the files at the given paths. -/
def ofList (files : List (Path × ByteArray)) : FileTree :=
  ⟨files.map fun (path, bytes) =>
    (path.normalise.components.map PathComponent.text, bytes)⟩

/-- The contents of the file that the names lead to. -/
def contents? (t : FileTree) (names : List String) : Option ByteArray :=
  t.files.lookup names

/-- Whether the names lead to a directory. -/
def isDirectory (t : FileTree) (names : List String) : Bool :=
  names.isEmpty || t.files.any fun (file, _) => names.isPrefixOf file && names != file

/-- The place reached from `place` by one piece of a path. -/
def step (t : FileTree) (place : Place) (piece : List Char) : Except ReadError Place :=
  match place, PathComponent.ofPiece piece with
  | .outside, some (.name _) => .error .notFound
  | .outside, _ => .ok .outside
  | .inside names, next =>
    if !t.isDirectory names then .error .notDirectory
    else match next with
      | some (.name s) =>
        let names := names ++ [s]
        if (t.contents? names).isSome || t.isDirectory names then .ok (.inside names)
        else .error .notFound
      | some .up => .ok (if names.isEmpty then .outside else .inside names.dropLast)
      | _ => .ok place

/-- The place a path leads to. -/
def walk (t : FileTree) (path : Path) : Except ReadError Place :=
  if path.text.isEmpty then .error .notFound
  else path.pieces.foldlM t.step (if path.isAbsolute then .outside else .inside [])

/-- The text of the file a path leads to. -/
def read (t : FileTree) (path : Path) : Except ReadError String :=
  match t.walk path with
  | .error e => .error e
  | .ok .outside => .error .isDirectory
  | .ok (.inside names) =>
    match t.contents? names with
    | some bytes => Files.decode bytes
    | none => .error .isDirectory

/-- Whether a path leads to a file. -/
def isFile (t : FileTree) (path : Path) : Bool :=
  match t.walk path with
  | .ok (.inside names) => (t.contents? names).isSome
  | _ => false

/-- What a path is known by : the names that lead to what it leads to, and its normalised
text if it leads nowhere known. -/
def identity (t : FileTree) (path : Path) : FileId :=
  match t.walk path with
  | .ok (.inside names) => .located names
  | _ => .written path.normalise

/-- The files of the tree. -/
def toFiles (t : FileTree) : Files where
  read := t.read
  isFile := t.isFile
  identity := t.identity
  count := t.files.length

end FileTree

end SqfCheck
