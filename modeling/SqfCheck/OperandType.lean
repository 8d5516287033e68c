import SqfCheck.Text

/-!
# Operand types

The types that a command catalogue names, sets of them (`TypeSet`), and the number of operands
a command is used with (`Arity`). A type name that is not known stands for any type.

A set accepts a type unless both say something definite and disagree (`TypeSet.accepts`) : the
type `any` passes everywhere, and an empty set or one that holds `any` lets everything pass.
-/

namespace SqfCheck

open Text

/-- The type of an operand. -/
inductive OperandType where
  /-- Every value ; also what is not known. -/
  | any
  | number
  | boolean
  | string
  | array
  | hashMap
  | code
  | object
  | group
  | side
  | config
  | control
  | display
  | location
  | nameSpace
  | script
  | task
  | text
  | structuredText
  | teamMember
  | diaryRecord
  | netObject
  /-- What a condition makes, for its branches to follow. -/
  | ifType
  /-- What a counting loop is built from. -/
  | forType
  | switchType
  | whileType
  | withType
  | exceptionType
deriving DecidableEq, Repr, Inhabited

namespace OperandType

/-- All types, in the order in which sets of them are listed. -/
def all : List OperandType :=
  [any, number, boolean, string, array, hashMap, code, object, group, side, config, control,
    display, location, nameSpace, script, task, text, structuredText, teamMember, diaryRecord,
    netObject, ifType, forType, switchType, whileType, withType, exceptionType]

theorem mem_all (t : OperandType) : t ∈ all := by
  cases t <;> decide

/-- How messages name the type. -/
def name : OperandType → String
  | any => "Any"
  | number => "Number"
  | boolean => "Boolean"
  | string => "String"
  | array => "Array"
  | hashMap => "HashMap"
  | code => "Code"
  | object => "Object"
  | group => "Group"
  | side => "Side"
  | config => "Config"
  | control => "Control"
  | display => "Display"
  | location => "Location"
  | nameSpace => "Namespace"
  | script => "Script"
  | task => "Task"
  | text => "Text"
  | structuredText => "Structured Text"
  | teamMember => "Team Member"
  | diaryRecord => "Diary Record"
  | netObject => "NetObject"
  | ifType => "If Type"
  | forType => "For Type"
  | switchType => "Switch Type"
  | whileType => "While Type"
  | withType => "With Type"
  | exceptionType => "Exception Type"

/-- The spellings a catalogue may use, with case folded. -/
def spellings : List (String × OperandType) :=
  [("scalar", number), ("number", number), ("nan", number), ("bool", boolean),
    ("boolean", boolean), ("string", string), ("array", array), ("hashmap", hashMap),
    ("code", code), ("object", object), ("group", group), ("side", side), ("config", config),
    ("control", control), ("display", display), ("location", location),
    ("namespace", nameSpace), ("script", script), ("task", task), ("text", text),
    ("structuredtext", structuredText), ("structured_text", structuredText),
    ("team_member", teamMember), ("teammember", teamMember), ("diary_record", diaryRecord),
    ("diaryrecord", diaryRecord), ("netobject", netObject), ("if", ifType),
    ("if_type", ifType), ("for", forType), ("for_type", forType), ("switch", switchType),
    ("switch_type", switchType), ("while", whileType), ("while_type", whileType),
    ("with", withType), ("with_type", withType), ("exception", exceptionType),
    ("exception_handle", exceptionType)]

/-- The type that a catalogue means by `word`. A word it does not know means any type. -/
def ofWord (word : List Char) : OperandType :=
  (spellings.lookup (foldCase (String.ofList (trim word)))).getD any

end OperandType

/-- A set of operand types, listed in the order of `OperandType.all` without repetition. -/
structure TypeSet where
  /-- The members in order. -/
  members : List OperandType := []
deriving DecidableEq, Repr, Inhabited

namespace TypeSet

/-- The set with the types of a list added. -/
def insertAll (s : TypeSet) (types : List OperandType) : TypeSet :=
  ⟨OperandType.all.filter fun t => t ∈ s.members ∨ t ∈ types⟩

@[simp]
theorem mem_insertAll (s : TypeSet) (types : List OperandType) (t : OperandType) :
    t ∈ (s.insertAll types).members ↔ t ∈ s.members ∨ t ∈ types := by
  simp [insertAll, OperandType.mem_all]

/-- Whether an operand of type `t` fits the set. -/
def accepts (s : TypeSet) (t : OperandType) : Bool :=
  t = .any || s.members.isEmpty || s.members.contains .any || s.members.contains t

/-- How messages list the set. -/
def describe (s : TypeSet) : String :=
  ", ".intercalate (s.members.map OperandType.name)

end TypeSet

/-- How many operands a command is used with, and on which sides. -/
inductive Arity where
  /-- No operand. -/
  | nullary
  /-- One operand, to the right. -/
  | unary
  /-- An operand on either side. -/
  | binary
deriving DecidableEq, Repr, Inhabited

end SqfCheck
