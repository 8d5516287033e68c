import SqfCheck.Path
import SqfCheck.Span

/-!
# Macros and inclusions

A `Ledger` lists the macros a script can use, each with all its definitions, and the
inclusions met on the way, both in the order in which they were met. Macro names are compared
with case folded ; a macro keeps the spelling and the arguments of its first definition.
-/

namespace SqfCheck

/-- One definition of a macro. -/
structure MacroDefinition where
  /-- The file that holds the definition. -/
  file : Path
  /-- Where the name stands in it. -/
  span : Span
  /-- The replacement text. -/
  value : String
deriving DecidableEq, Repr, Inhabited

/-- A macro with all its definitions. -/
structure MacroRecord where
  /-- The name as first written. -/
  name : String
  /-- The arguments as first written, if the macro takes any. -/
  arguments : Option String
  /-- The definitions in the order they were met. -/
  definitions : List MacroDefinition
deriving DecidableEq, Repr, Inhabited

/-- An inclusion of a file. -/
structure Inclusion where
  /-- The included path as written. -/
  file : String
  /-- The file that includes it. -/
  source : Path
deriving DecidableEq, Repr, Inhabited

/-- The macros and inclusions of a script. -/
structure Ledger where
  /-- The macros in the order of their first definitions. -/
  macros : List MacroRecord := []
  /-- The inclusions in the order they were met. -/
  inclusions : List Inclusion := []
deriving DecidableEq, Repr, Inhabited

namespace Ledger

/-- The macro of the given name, case folded. -/
def find? (l : Ledger) (name : String) : Option MacroRecord :=
  l.macros.find? fun m => foldCase m.name == foldCase name

/-- Whether there is a macro of the given name, case folded. -/
def contains (l : Ledger) (name : String) : Bool :=
  (l.find? name).isSome

/-- The macros with one more definition of `name`. -/
def addDefinition (name : String) (arguments : Option String) (d : MacroDefinition) :
    List MacroRecord → List MacroRecord
  | [] => [⟨name, arguments, [d]⟩]
  | m :: ms =>
    if foldCase m.name = foldCase name then
      { m with definitions := m.definitions ++ [d] } :: ms
    else m :: addDefinition name arguments d ms

/-- The ledger with one more definition of `name`. -/
def define (l : Ledger) (name : String) (arguments : Option String) (d : MacroDefinition) :
    Ledger :=
  { l with macros := addDefinition name arguments d l.macros }

/-- The ledger with one more inclusion. -/
def addInclusion (l : Ledger) (file : String) (source : Path) : Ledger :=
  { l with inclusions := l.inclusions ++ [⟨file, source⟩] }

end Ledger

end SqfCheck
