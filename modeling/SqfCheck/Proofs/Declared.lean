import SqfCheck.Proofs.Binding
import SqfCheck.Proofs.Walk

/-!
# Definitions that are no assignments

A local variable can also be defined by a string literal : as a parameter of `params` or as the
counter of a `for`. `Expr.declares` says which nodes of a tree define a variable like that. A list
of parameters may have parentheses around it and around its elements, an element may be an array
that starts with the name, and the command has to have operands in places where it takes them.

The walk over a tree writes definitions down while it checks operands. It finds a definition of a
local variable just if some node of the tree declares it (`exists_defines_entriesOfStatements`).
-/

namespace SqfCheck

/-! ## Nodes that define -/

/-- Whether the command takes operands in the given places, as far as the catalogue knows it. -/
def Catalogue.admits (c : Catalogue) (name : String) (arity : Arity) : Bool :=
  (c.command? name).all (·.supports arity)

namespace Expr

/-- Whether the expression is a string literal that says `name`, case folded. -/
def isLiteral (e : Expr) (name : String) : Bool :=
  (e.stringToken?.bind Token.stringValue).any (foldCase · = name)

/-- Whether the element of a list of parameters names the variable `name`. -/
def namesParameter (e : Expr) (name : String) : Bool :=
  e.isLiteral name || (e.elements?.bind List.head?).any (·.isLiteral name)

/-- Whether the expression is a list of parameters with the variable `name` among them. -/
def listsParameter (e : Expr) (name : String) : Bool :=
  e.elements?.any (·.any (·.namesParameter name))

/-- Whether the node defines the variable `name`, as a parameter or as the counter of a loop. -/
def declares (c : Catalogue) (name : String) : Expr → Bool
  | unary op right => c.admits op.name .unary &&
      ((op.name = "params" && right.listsParameter name) ||
        (op.name = "for" && right.isLiteral name))
  | binary _ op right =>
    c.admits op.name .binary && op.name = "params" && right.listsParameter name
  | _ => false

end Expr

/-! ## Folded names -/

/-- Folding case makes no other character an underscore. -/
theorem toLower_eq_underscore {c : Char} : c.toLower = '_' ↔ c = '_' := by
  have hunderscore : '_'.val.toNat = 95 := by decide
  unfold Char.toLower
  split
  · next h =>
    have hge : 65 ≤ c.val.toNat := h.1
    have hle : c.val.toNat ≤ 90 := h.2
    have hshift : ('a'.val - 'A'.val).toNat = 32 := by decide
    have hadd : (c.val + ('a'.val - 'A'.val)).toNat = c.val.toNat + 32 := by
      rw [UInt32.toNat_add]
      omega
    constructor
    · intro hc
      have hval := congrArg (fun c : Char => c.val.toNat) hc
      simp only [hadd] at hval
      omega
    · rintro rfl
      omega
  · rfl

theorem isLocalName_foldCase (name : String) :
    isLocalName (foldCase name) = isLocalName name := by
  rw [Bool.eq_iff_iff]
  simp only [isLocalName, toList_foldCase, List.head?_map, beq_iff_eq, Option.map_eq_some_iff,
    toLower_eq_underscore]
  exact ⟨fun ⟨c, hc, hu⟩ => hu ▸ hc, fun h => ⟨'_', h, rfl⟩⟩

/-! ## Entries that define -/

/-- Whether the entry is a definition of the variable `name` that is no assignment. -/
def Entry.Defines (name : String) : Entry → Prop
  | definition written _ => foldCase written = name
  | _ => False

theorem Entry.IsComplaint.not_defines {e : Entry} {name : String} (h : e.IsComplaint) :
    ¬e.Defines name := by
  cases e with
  | definition written t => exact absurd h id
  | _ => exact id

section

variable {name : String} (hlocal : isLocalName name = true)
include hlocal

namespace Operator

theorem exists_defines_parameterName {t : Token} :
    (∃ e ∈ parameterName t, e.Defines name) ↔ t.stringValue.any (foldCase · = name) = true := by
  unfold parameterName
  cases ht : t.stringValue with
  | none => simp
  | some written =>
    have hwritten : foldCase written = name → isLocalName written = true := by
      rintro rfl
      rwa [isLocalName_foldCase] at hlocal
    dsimp only
    split_ifs with hempty hl
    · subst hempty
      simpa using fun h => absurd (hwritten h) (by decide)
    · simp [Entry.Defines]
    · simpa [Entry.Defines, Entry.typeMismatch] using fun h => hl (hwritten h)

theorem exists_defines_parameter {x : Expr} :
    (∃ e ∈ parameter x, e.Defines name) ↔ x.namesParameter name = true := by
  have hcomplaint : ∀ {span message}, ¬∃ e ∈ [Entry.typeMismatch span message],
      e.Defines name := by
    simp [Entry.Defines, Entry.typeMismatch]
  unfold parameter Expr.namesParameter Expr.isLiteral Expr.stringToken? Expr.elements?
  cases x.bare with
  | string t => simpa using exists_defines_parameterName hlocal
  | array elements span =>
    cases elements with
    | nil => simpa using hcomplaint
    | cons y ys =>
      simp only [List.head?_cons, Option.map_some]
      cases hy : y.bare with
      | string t => simpa [hy] using exists_defines_parameterName hlocal
      | expansion _ _ => simp [hy]
      | _ => simpa [hy] using hcomplaint
  | expansion _ _ => simp
  | _ => simpa using hcomplaint

theorem exists_defines_checkParameters {a : Application} :
    (∃ e ∈ checkParameters a, e.Defines name) ↔
      a.right.any (·.expr.listsParameter name) = true := by
  unfold checkParameters
  cases a.right with
  | none => simp
  | some o =>
    simp only [Option.bind_some, Option.any_some, Expr.listsParameter]
    cases o.expr.elements? with
    | none => simp
    | some list =>
      simp only [List.mem_flatMap, Option.any_some, List.any_eq_true]
      constructor
      · rintro ⟨e, ⟨x, hx, he⟩, hd⟩
        exact ⟨x, hx, (exists_defines_parameter hlocal).1 ⟨e, he, hd⟩⟩
      · rintro ⟨x, hx, hn⟩
        obtain ⟨e, he, hd⟩ := (exists_defines_parameter hlocal).2 hn
        exact ⟨e, ⟨x, hx, he⟩, hd⟩

end Operator

theorem exists_defines_loopCounter {a : Application} :
    (∃ e ∈ loopCounter a, e.Defines name) ↔ a.op.name = "for" ∧ a.left.isNone = true ∧
      a.right.any (·.expr.isLiteral name) = true := by
  unfold loopCounter
  split_ifs with hfor
  · simp only [hfor, true_and]
    cases a.right with
    | none => simp
    | some o =>
      simp only [Option.bind_some, Option.any_some, Expr.isLiteral]
      cases o.expr.stringToken? with
      | none => simp
      | some t =>
        simp only [Option.bind_some]
        cases t.stringValue with
        | none => simp
        | some written =>
          dsimp only
          split_ifs with hl
          · simp [Entry.Defines]
          · have hne : foldCase written ≠ name := by
              rintro rfl
              rw [isLocalName_foldCase] at hlocal
              exact hl hlocal
            simp [hne]
  · refine iff_of_false (by simp) ?_
    rintro ⟨hname, hnone, -⟩
    exact hfor ⟨hname, hnone⟩

namespace Checker

/-- What an application defines, said of the command and its operands. -/
theorem exists_defines_checkApplication {c : Checker} {a : Application} :
    (∃ e ∈ c.checkApplication a, e.Defines name) ↔
      (c.catalogue.command? a.op.name).all a.fits = true ∧
        (a.op.name = "params" ∧ a.right.any (·.expr.listsParameter name) = true ∨
          a.op.name = "for" ∧ a.left.isNone = true ∧
            a.right.any (·.expr.isLiteral name) = true) := by
  rw [← Operator.exists_defines_checkParameters hlocal, ← exists_defines_loopCounter hlocal]
  constructor
  · rintro ⟨e, he, hd⟩
    rcases mem_checkApplication he with hc | ⟨hfits, ⟨hname, he⟩ | he⟩
    · exact absurd hd hc.not_defines
    · exact ⟨hfits, .inl ⟨hname, e, he, hd⟩⟩
    · exact ⟨hfits, .inr ⟨e, he, hd⟩⟩
  · rintro ⟨hfits, ⟨hname, e, he, hd⟩ | ⟨e, he, hd⟩⟩
    · exact ⟨e, mem_checkApplication_of_fits hfits (.inl ⟨hname, he⟩), hd⟩
    · exact ⟨e, mem_checkApplication_of_fits hfits (.inr he), hd⟩

theorem exists_defines_nullary {c : Checker} {op : Token} :
    ¬∃ e ∈ c.checkApplication ⟨op, none, none⟩, e.Defines name := by
  rw [exists_defines_checkApplication hlocal]
  simp

theorem exists_defines_unary {c : Checker} {op : Token} {right : Operand} :
    (∃ e ∈ c.checkApplication ⟨op, none, some right⟩, e.Defines name) ↔
      (Expr.unary op right.expr).declares c.catalogue name = true := by
  have hfits : Application.fits ⟨op, none, some right⟩ = fun o => o.supports .unary := by
    funext o
    simp [Application.fits, Application.arity]
  rw [exists_defines_checkApplication hlocal, hfits]
  simp [Expr.declares, Catalogue.admits]

theorem exists_defines_binary {c : Checker} {op : Token} {left right : Operand} :
    (∃ e ∈ c.checkApplication ⟨op, some left, some right⟩, e.Defines name) ↔
      (Expr.binary left.expr op right.expr).declares c.catalogue name = true := by
  have hfits : Application.fits ⟨op, some left, some right⟩ = fun o => o.supports .binary := by
    funext o
    simp [Application.fits, Application.arity]
  rw [exists_defines_checkApplication hlocal, hfits]
  simp [Expr.declares, Catalogue.admits, and_assoc]

theorem exists_defines_dangling {c : Checker} {op : Token} {left : Operand} :
    ¬∃ e ∈ c.checkApplication ⟨op, some left, none⟩, e.Defines name := by
  rw [exists_defines_checkApplication hlocal]
  simp

end Checker

end

/-! ## Trees -/

section

variable {v : Vocabulary} {c : Checker} {name : String}

mutual

theorem exists_defines_typed (hlocal : isLocalName name = true) :
    ∀ (x : Expr), x.AllBuilt v → ((∃ e ∈ (x.typed c).entries, e.Defines name) ↔
      ∃ n ∈ x.nodes, n.declares c.catalogue name = true)
  | .number _, _ => by simp [Expr.typed, Expr.nodes, Expr.declares]
  | .string _, _ => by simp [Expr.typed, Expr.nodes, Expr.declares]
  | .reference _, _ => by simp [Expr.typed, Expr.nodes, Expr.declares]
  | .expansion _ _, _ => by simp [Expr.typed, Expr.nodes, Expr.declares]
  | .invalid _, _ => by simp [Expr.typed, Expr.nodes, Expr.declares]
  | .array elements _, h => by
    have hparts : ∀ e ∈ elements, e.AllBuilt v := fun e he => h.mono fun n hn => by
      rw [Expr.nodes, List.mem_cons, mem_nodesOfExprs]
      exact .inr ⟨e, he, hn⟩
    have helements := exists_defines_entriesOfExprs hlocal elements hparts
    simpa [Expr.typed, Expr.nodes, Expr.declares] using helements
  | .code body span, h => by
    have hassigns : (Expr.code body span).Built v := h _ (by simp [Expr.nodes])
    have hparts : ∀ st ∈ body, st.AllBuilt v := by
      refine fun st hst => ⟨hassigns st hst, fun n hn => h n ?_⟩
      rw [Expr.nodes, List.mem_cons, mem_nodesOfStatements]
      exact .inr ⟨st, hst, hn⟩
    have hbody := exists_defines_entriesOfStatements hlocal body hparts
    simpa [Expr.typed, Expr.nodes, Expr.declares] using hbody
  | .paren inner _, h => by
    have hinner := exists_defines_typed hlocal inner (h.mono fun n hn => by simp [Expr.nodes, hn])
    simpa [Expr.typed, Expr.nodes, Expr.declares] using hinner
  | .nullary op, _ => by
    simpa [Expr.typed, Expr.nodes, Expr.declares, Checker.applied] using
      Checker.exists_defines_nullary hlocal
  | .unary op right, h => by
    have hright := exists_defines_typed hlocal right (h.mono fun n hn => by simp [Expr.nodes, hn])
    have happlied : (∃ e ∈ c.checkApplication ⟨op, none, some ⟨(right.typed c).type, right⟩⟩,
        e.Defines name) ↔ _ := Checker.exists_defines_unary hlocal
    simp only [Expr.typed, Typed.after, Checker.applied, Expr.nodes, List.mem_append,
      List.mem_cons, or_and_right, exists_or, exists_eq_left, hright, happlied]
    exact or_comm
  | .binary left op right, h => by
    have hleft := exists_defines_typed hlocal left (h.mono fun n hn => by simp [Expr.nodes, hn])
    have hright := exists_defines_typed hlocal right (h.mono fun n hn => by simp [Expr.nodes, hn])
    have happlied : (∃ e ∈ c.checkApplication ⟨op, some ⟨(left.typed c).type, left⟩,
        some ⟨(right.typed c).type, right⟩⟩, e.Defines name) ↔ _ :=
      Checker.exists_defines_binary hlocal
    simp only [Expr.typed, Typed.after, Checker.applied, Expr.nodes, List.mem_append,
      List.mem_cons, or_and_right, exists_or, exists_eq_left, hleft, hright, happlied]
    exact or_comm
  | .dangling left op, h => by
    have hleft := exists_defines_typed hlocal left (h.mono fun n hn => by simp [Expr.nodes, hn])
    have happlied : ¬∃ e ∈ c.checkApplication ⟨op, some ⟨(left.typed c).type, left⟩, none⟩,
        e.Defines name := Checker.exists_defines_dangling hlocal
    simp only [Expr.typed, Typed.after, Checker.applied, Expr.nodes, List.mem_append,
      List.mem_cons, or_and_right, exists_or, exists_eq_left, hleft, happlied, Expr.declares,
      or_false, false_or, Bool.false_eq_true]

theorem exists_defines_entriesOfExprs (hlocal : isLocalName name = true) :
    ∀ (es : List Expr), (∀ e ∈ es, e.AllBuilt v) →
      ((∃ e ∈ entriesOfExprs c es, e.Defines name) ↔
        ∃ n ∈ nodesOfExprs es, n.declares c.catalogue name = true)
  | [], _ => by simp [entriesOfExprs, nodesOfExprs]
  | x :: xs, h => by
    obtain ⟨hx, hxs⟩ := List.forall_mem_cons.1 h
    simp only [entriesOfExprs, nodesOfExprs, List.mem_append, or_and_right, exists_or,
      exists_defines_typed hlocal x hx, exists_defines_entriesOfExprs hlocal xs hxs]

theorem exists_defines_entries (hlocal : isLocalName name = true) :
    ∀ (st : Statement), st.AllBuilt v → ((∃ e ∈ st.entries c, e.Defines name) ↔
      ∃ n ∈ st.nodes, n.declares c.catalogue name = true)
  | .expression value, h => by
    rw [Statement.entries, Statement.nodes]
    exact exists_defines_typed hlocal value h.built
  | .assignment _ target value, h => by
    have hvalue := exists_defines_typed hlocal value fun n hn =>
      h.built n (by simp [Statement.nodes, hn])
    have htarget : ¬∃ n ∈ target.nodes, n.declares c.catalogue name = true := by
      have hname := h.assignsName
      cases target with
      | reference t => simp [Expr.nodes, Expr.declares]
      | expansion t span => simp [Expr.nodes, Expr.declares]
      | _ => exact absurd hname id
    simp only [Statement.entries, Statement.nodes, List.mem_append, or_and_right, exists_or,
      hvalue, htarget, false_or]

/-- The walk over statements finds a definition of a local variable that is no assignment just if
some node declares the variable. -/
theorem exists_defines_entriesOfStatements (hlocal : isLocalName name = true) :
    ∀ (ss : List Statement), (∀ st ∈ ss, st.AllBuilt v) →
      ((∃ e ∈ entriesOfStatements c ss, e.Defines name) ↔
        ∃ n ∈ nodesOfStatements ss, n.declares c.catalogue name = true)
  | [], _ => by simp [entriesOfStatements, nodesOfStatements]
  | st :: ss, h => by
    obtain ⟨hst, hss⟩ := List.forall_mem_cons.1 h
    simp only [entriesOfStatements, nodesOfStatements, List.mem_append, or_and_right, exists_or,
      exists_defines_entries hlocal st hst, exists_defines_entriesOfStatements hlocal ss hss]

end

end

end SqfCheck
