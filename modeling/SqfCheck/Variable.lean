import SqfCheck.Token

/-!
# Variables

A `VariableTable` keeps a record for each variable of a script, in the order in which the
variables first appear : the tokens that use it, those that define it, and the comments of these.
Records are kept and found under the folded name.
-/

namespace SqfCheck

/-- Whether a name is that of a local variable. -/
def isLocalName (name : String) : Bool :=
  name.toList.head? == some '_'

/-- The names that the engine itself defines, case folded. Uses of them are never recorded. -/
def magicNames : List String :=
  ["_this", "_x", "_foreachindex", "_exception"]

/-- A variable with the places where it is used and defined. -/
structure Variable where
  /-- The name, case folded. -/
  name : String
  /-- The tokens that use it. -/
  usages : List Token := []
  /-- The tokens that define it. -/
  definitions : List Token := []
  /-- The comments of the definitions, in the same order. -/
  comments : List (Option Comment) := []
deriving DecidableEq, Repr, Inhabited

namespace Variable

/-- Whether the variable is local. -/
def isLocal (v : Variable) : Bool :=
  isLocalName v.name

/-- The comment of the first definition. -/
def comment (v : Variable) : Option Comment :=
  v.comments.head?.join

/-- The variable with one more use. -/
def addUsage (t : Token) (v : Variable) : Variable :=
  { v with usages := v.usages ++ [t] }

/-- The variable with one more definition. -/
def addDefinition (t : Token) (v : Variable) : Variable :=
  { v with definitions := v.definitions ++ [t], comments := v.comments ++ [t.comment] }

end Variable

/-- The variables of a script in the order of first appearance. -/
structure VariableTable where
  /-- The records, each with the name that it is kept under. -/
  byName : List (String × Variable) := []
deriving DecidableEq, Repr, Inhabited

namespace VariableTable

/-- The records. -/
def records (table : VariableTable) : List Variable :=
  table.byName.map Prod.snd

/-- The records with the one that is kept under exactly the given name changed, or a new one of
that name at the end. -/
def updateRecords (name : String) (change : Variable → Variable) :
    List (String × Variable) → List (String × Variable)
  | [] => [(name, change { name })]
  | (key, v) :: rest =>
    if key = name then (key, change v) :: rest else (key, v) :: updateRecords name change rest

/-- The table with the record that is kept under exactly the given name changed, or a new one of
that name at the end. -/
def update (table : VariableTable) (name : String) (change : Variable → Variable) :
    VariableTable :=
  ⟨updateRecords name change table.byName⟩

/-- The record of a name, case folded. -/
def find? (table : VariableTable) (name : String) : Option Variable :=
  table.byName.lookup (foldCase name)

end VariableTable

end SqfCheck
