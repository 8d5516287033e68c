import SqfCheck.Text

/-!
# Paths

A `Path` is kept as the text it was written with. Its `components` are the root, steps up
and names ; empty pieces and single dots are none. `Path.normalise` rebuilds a path from its
components with the steps up carried out where there is a name to drop, `Path.join` and
`Path.parent` work on the text, and `Path.ofScript` reads the paths that scripts write, with
either slash and always relative.
-/

namespace SqfCheck

open Text

/-- A file path with forward slashes, as written. -/
structure Path where
  /-- The path as written. -/
  text : String
deriving DecidableEq, Repr, Inhabited

/-- One step of a path. -/
inductive PathComponent where
  /-- The root directory. -/
  | root
  /-- The parent of the directory reached so far. -/
  | up
  /-- An entry of the directory reached so far. -/
  | name (text : String)
deriving DecidableEq, Repr, Inhabited

namespace PathComponent

/-- The step that a piece between two slashes stands for, if it stands for one. -/
def ofPiece (piece : List Char) : Option PathComponent :=
  if piece = [] ∨ piece = ['.'] then none
  else if piece = ['.', '.'] then some up
  else some (name (String.ofList piece))

/-- The step as it is written between two slashes. -/
def text : PathComponent → String
  | root => ""
  | up => ".."
  | name s => s

/-- A stack of steps, the last on top, after one more step. A step up drops the name on top ;
it is kept on an empty stack and has no effect on any other. -/
def push : List PathComponent → PathComponent → List PathComponent
  | name _ :: stack, up => stack
  | [], up => [up]
  | stack, up => stack
  | stack, c => c :: stack

end PathComponent

namespace Path

/-- Whether the path starts at the root. -/
def isAbsolute (p : Path) : Bool :=
  p.text.toList.head? == some '/'

/-- The pieces of the path between slashes. -/
def pieces (p : Path) : List (List Char) :=
  splitOn '/' p.text.toList

/-- The steps of the path. -/
def components (p : Path) : List PathComponent :=
  (if p.isAbsolute then [.root] else []) ++ p.pieces.filterMap PathComponent.ofPiece

/-- The path with the given steps. -/
def ofComponents : List PathComponent → Path
  | .root :: cs => ⟨"/" ++ "/".intercalate (cs.map PathComponent.text)⟩
  | cs => ⟨"/".intercalate (cs.map PathComponent.text)⟩

/-- The path with single dots dropped and steps up carried out, without a look at any
file. -/
def normalise (p : Path) : Path :=
  ofComponents (p.components.foldl PathComponent.push []).reverse

/-- The path `q` seen from the directory `p` : an absolute `q` stands for itself. -/
def join (p q : Path) : Path :=
  if q.isAbsolute then q
  else if p.text.isEmpty || p.text.toList.getLast? == some '/' then ⟨p.text ++ q.text⟩
  else ⟨p.text ++ "/" ++ q.text⟩

/-- The pieces up to the last that is a step. -/
def dropIdle (pieces : List (List Char)) : List (List Char) :=
  (pieces.reverse.dropWhile fun piece => (PathComponent.ofPiece piece).isNone).reverse

/-- The directory that holds what the path names : the text before its last step, without the
slashes and single dots that end it. A path without a step has the empty one. -/
def parent (p : Path) : Path :=
  let chars := p.text.toList
  let lead :=
    match chars with
    | '/' :: _ => ['/']
    | ['.'] | '.' :: '/' :: _ => ['.']
    | _ => []
  match dropIdle (splitOn '/' (chars.drop lead.length)) with
  | [] => ⟨""⟩
  | steps => ⟨String.ofList (lead ++ ['/'].intercalate (dropIdle steps.dropLast))⟩

/-- The path that a script writes as `written` : backslashes are slashes, and slashes at the
beginning do not count. -/
def ofScript (written : String) : Path :=
  let unified := written.toList.map fun c => if c = '\\' then '/' else c
  ⟨String.ofList (unified.dropWhile (· == '/'))⟩

end Path

end SqfCheck
