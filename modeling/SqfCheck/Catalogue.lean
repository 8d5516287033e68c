import Std.Data.TreeMap
import SqfCheck.OperandType

/-!
# The command catalogue

A catalogue is a text with one overload of a command on a line : its form, a colon, and the
operand types on either side of the name. `CatalogueLine.read?` reads a line ; lines that are
no overload are passed over.

A `Catalogue` holds two maps : for each command, the arities of its overloads (`Overloads`), and for
each name what an application of it is checked against, its rule and the union of the types on
either side (`Operator`). Names are folded when lines are read, and looked up as they are.

Eight commands have rules of their own, which are in the second map from the start (`Rule.fixed`) ;
every other command only has its operand types checked. Lines are added to both maps, and a
catalogue carries the proof that they go together (`Catalogue.rules`).
-/

namespace SqfCheck

open Text

/-! ## Lines -/

/-- One overload of a command. -/
structure CatalogueLine where
  /-- The name, case folded. -/
  name : String
  /-- How many operands the overload takes. -/
  arity : Arity
  /-- The types of the left operand. -/
  left : List OperandType
  /-- The types of the right operand. -/
  right : List OperandType
deriving DecidableEq, Repr, Inhabited

namespace CatalogueLine

/-- The types in a list that is separated by commas. -/
def readTypes (list : List Char) : List OperandType :=
  ((splitOn ',' list).filter (!·.isEmpty)).map OperandType.ofWord

/-- The arity that a form stands for. -/
def readForm (form : List Char) : Option Arity :=
  [("b", Arity.binary), ("binary", .binary), ("u", .unary), ("unary", .unary),
    ("n", .nullary), ("noarg", .nullary), ("nular", .nullary)].lookup
    (foldCase (String.ofList form))

/-- The overload on a line, if the line has one. -/
def read? (line : List Char) : Option CatalogueLine := do
  let (form, rest) ← splitAtFirst ':' (trim line)
  match ← readForm form, words rest with
  | .binary, [left, name, right] =>
    some ⟨foldCase (String.ofList name), .binary, readTypes left, readTypes right⟩
  | .unary, [name, right] =>
    some ⟨foldCase (String.ofList name), .unary, [], readTypes right⟩
  | .nullary, [name] => some ⟨foldCase (String.ofList name), .nullary, [], []⟩
  | _, _ => none

/-- The overloads in a text, in order. -/
def readAll (text : String) : List CatalogueLine :=
  (splitOn '\n' text.toList).filterMap read?

end CatalogueLine

/-! ## Commands -/

/-- The arities of the overloads of one command. -/
structure Overloads where
  /-- Whether some overload takes no operand. -/
  nullary : Bool := false
  /-- Whether some overload takes an operand to the right only. -/
  unary : Bool := false
  /-- Whether some overload takes an operand on either side. -/
  binary : Bool := false
deriving DecidableEq, Repr, Inhabited

namespace Overloads

/-- Whether some overload has the given arity. -/
def supports (o : Overloads) : Arity → Bool
  | .nullary => o.nullary
  | .unary => o.unary
  | .binary => o.binary

/-- One more overload. -/
def add (o : Overloads) (line : CatalogueLine) : Overloads where
  nullary := o.nullary || line.arity = .nullary
  unary := o.unary || line.arity = .unary
  binary := o.binary || line.arity = .binary

/-- The command takes the operand after it when nothing stands before it. A command that needs
both operands takes it too, so that only the left one is missing. -/
def takesOperand (o : Overloads) : Bool :=
  o.unary || (o.binary && !o.nullary)

end Overloads

/-! ## Rules -/

/-- How the operands of a command are checked. -/
inductive Rule where
  /-- Operand types against the catalogue. -/
  | types
  /-- A condition : the operand is a boolean. -/
  | condition
  /-- What follows a condition : code, or one or two branches of code. -/
  | branches
  /-- What leaves a scope on a condition : code. -/
  | leaves
  /-- Operand types, and a list of parameters that become local variables. -/
  | parameters
  /-- Operand types, and a file that has to exist. -/
  | loader
deriving DecidableEq, Repr, Inhabited

/-- The commands with rules of their own, case folded. -/
def Rule.fixed : List (String × Rule) :=
  [("params", .parameters), ("execvm", .loader), ("preprocessfile", .loader),
    ("preprocessfilelinenumbers", .loader), ("loadfile", .loader), ("if", .condition),
    ("then", .branches), ("exitwith", .leaves)]

/-- The rule that a command has of its own. -/
def Rule.fixed? (name : String) : Option Rule :=
  Rule.fixed.lookup name

/-- What an application of a command is checked against. -/
structure Operator where
  /-- The rule of the command. -/
  rule : Rule
  /-- The types to the left. -/
  left : TypeSet := {}
  /-- The types to the right. -/
  right : TypeSet := {}
deriving DecidableEq, Repr, Inhabited

namespace Operator

/-- One more overload. The rule stays. -/
def add (o : Operator) (line : CatalogueLine) : Operator where
  rule := o.rule
  left := o.left.insertAll line.left
  right := o.right.insertAll line.right

/-- The operators with the given rules, without types. -/
def ofRules (rules : List (String × Rule)) : Std.TreeMap String Operator :=
  rules.foldr (fun p operators => operators.insert p.1 { rule := p.2 }) {}

theorem getElem?_ofRules (rules : List (String × Rule)) (name : String) :
    (ofRules rules)[name]? = (rules.lookup name).map fun rule => { rule } := by
  induction rules with
  | nil => exact Std.TreeMap.getElem?_emptyc
  | cons p rules ih =>
    rw [ofRules, List.foldr_cons, Std.TreeMap.getElem?_insert]
    by_cases h : p.1 = name
    · subst h
      rw [if_pos Std.ReflCmp.compare_self, List.lookup_cons, beq_self_eq_true]
      rfl
    · have hne : (name == p.1) = false := beq_eq_false_iff_ne.2 (Ne.symm h)
      rw [if_neg (mt Std.LawfulEqCmp.compare_eq_iff_eq.1 h), List.lookup_cons, hne]
      exact ih

end Operator

/-- The commands of a catalogue, and what is checked of their applications. -/
structure Catalogue where
  /-- The overloads of each command. -/
  commands : Std.TreeMap String Overloads := {}
  /-- What applications of each name are checked against. -/
  operators : Std.TreeMap String Operator := Operator.ofRules Rule.fixed
  /-- Applications are checked of the names with rules of their own, by these, and of the commands,
  by their types. -/
  rules : ∀ name : String, operators[name]?.map Operator.rule =
    (Rule.fixed? name).or (commands[name]?.map fun _ => .types) := by
      intro name
      simp [Operator.getElem?_ofRules, Rule.fixed?, Function.comp_def]

namespace Catalogue

/-- The catalogue with one more line. -/
def add (c : Catalogue) (line : CatalogueLine) : Catalogue where
  commands := c.commands.alter line.name fun o => some ((o.getD {}).add line)
  operators := c.operators.alter line.name fun o => some ((o.getD { rule := .types }).add line)
  rules name := by
    have hrules := c.rules name
    rw [Std.TreeMap.getElem?_alter, Std.TreeMap.getElem?_alter]
    simp only [Std.LawfulEqCmp.compare_eq_iff_eq]
    split
    · next h =>
      subst h
      cases hold : c.operators[line.name]? with
      | none =>
        -- a name that is new to the operators has no rule of its own
        rw [hold] at hrules
        have hnone := (Option.or_eq_none_iff.1 hrules.symm).1
        simp [hnone, Operator.add]
      | some o =>
        rw [hold, Option.map_some] at hrules
        cases hfixed : Rule.fixed? line.name with
        | none =>
          rw [hfixed, Option.none_or] at hrules
          obtain ⟨_, -, hrule⟩ := Option.map_eq_some_iff.1 hrules.symm
          simp [hrule, Operator.add]
        | some rule =>
          rw [hfixed, Option.some_or] at hrules
          simp [Option.some.inj hrules, Operator.add]
    · exact hrules

/-- The catalogue of the given lines. -/
def ofLines (lines : List CatalogueLine) : Catalogue :=
  lines.foldl add {}

/-- The catalogue in a text. -/
def ofText (text : String) : Catalogue :=
  ofLines (CatalogueLine.readAll text)

/-- The overloads of the command of exactly this name. -/
def command? (c : Catalogue) (name : String) : Option Overloads :=
  c.commands[name]?

/-- Whether there is a command of exactly this name. -/
def isCommand (c : Catalogue) (name : String) : Bool :=
  (c.command? name).isSome

/-- Whether the command of this name has an overload of the given arity. -/
def supports (c : Catalogue) (name : String) (arity : Arity) : Bool :=
  (c.command? name).any (·.supports arity)

/-- What an application of exactly this name is checked against, if anything. -/
def operator? (c : Catalogue) (name : String) : Option Operator :=
  c.operators[name]?

/-- In every catalogue a name is checked by its own rule, or else by types. -/
theorem rule_of_operator? (c : Catalogue) {name : String} {o : Operator}
    (h : c.operator? name = some o) : o.rule = (Rule.fixed? name).getD .types := by
  have hrules := c.rules name
  rw [show c.operators[name]? = some o from h, Option.map_some] at hrules
  cases hfixed : Rule.fixed? name with
  | some rule =>
    rw [hfixed, Option.some_or] at hrules
    exact Option.some.inj hrules
  | none =>
    rw [hfixed, Option.none_or] at hrules
    obtain ⟨_, -, hrule⟩ := Option.map_eq_some_iff.1 hrules.symm
    exact hrule.symm

theorem isSome_operator? (c : Catalogue) (name : String) : (c.operator? name).isSome = true ↔
    (c.command? name).isSome = true ∨ (Rule.fixed? name).isSome = true := by
  have hrules := congrArg Option.isSome (c.rules name)
  rw [Option.isSome_map, Option.isSome_or, Option.isSome_map] at hrules
  rw [operator?, command?, hrules, Bool.or_eq_true, or_comm]

/-- The number of commands. -/
def size (c : Catalogue) : Nat :=
  c.commands.size

end Catalogue

end SqfCheck
