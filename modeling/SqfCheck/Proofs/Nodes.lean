import SqfCheck.Expr

/-!
# Nodes of a tree

`Expr.nodes` lists an expression with everything in it, at any depth : operands, elements, what
stands between parentheses and the statements of code. What is said of every node of a script is
said of `Script.nodes`.
-/

namespace SqfCheck

mutual

/-- The expression and all that stands in it, from left to right. -/
def Expr.nodes : Expr → List Expr
  | .number t => [.number t]
  | .string t => [.string t]
  | .reference t => [.reference t]
  | .expansion name span => [.expansion name span]
  | .array elements span => .array elements span :: nodesOfExprs elements
  | .code body span => .code body span :: nodesOfStatements body
  | .paren inner span => .paren inner span :: inner.nodes
  | .nullary op => [.nullary op]
  | .unary op right => .unary op right :: right.nodes
  | .binary left op right => .binary left op right :: (left.nodes ++ right.nodes)
  | .dangling left op => .dangling left op :: left.nodes
  | .invalid span => [.invalid span]

/-- The nodes of expressions, one after the other. -/
def nodesOfExprs : List Expr → List Expr
  | [] => []
  | e :: es => e.nodes ++ nodesOfExprs es

/-- The nodes of a statement. -/
def Statement.nodes : Statement → List Expr
  | .assignment _ target value => target.nodes ++ value.nodes
  | .expression value => value.nodes

/-- The nodes of statements, one after the other. -/
def nodesOfStatements : List Statement → List Expr
  | [] => []
  | s :: ss => s.nodes ++ nodesOfStatements ss

end

theorem mem_nodesOfExprs {n : Expr} :
    ∀ {es : List Expr}, n ∈ nodesOfExprs es ↔ ∃ e ∈ es, n ∈ e.nodes
  | [] => by simp [nodesOfExprs]
  | e :: es => by simp [nodesOfExprs, mem_nodesOfExprs]

theorem mem_nodesOfStatements {n : Expr} :
    ∀ {ss : List Statement}, n ∈ nodesOfStatements ss ↔ ∃ s ∈ ss, n ∈ s.nodes
  | [] => by simp [nodesOfStatements]
  | s :: ss => by simp [nodesOfStatements, mem_nodesOfStatements]

namespace Expr

theorem self_mem_nodes (e : Expr) : e ∈ e.nodes := by
  cases e <;> simp [nodes]

/-- What stands between parentheses is in the expression with them. -/
theorem nodes_bare : ∀ e : Expr, e.bare.nodes ⊆ e.nodes
  | paren inner _ => List.Subset.trans (nodes_bare inner) (List.subset_cons_self _ _)
  | number _ | string _ | reference _ | expansion _ _ | array _ _ | code _ _ | nullary _
  | unary _ _ | binary _ _ _ | dangling _ _ | invalid _ => List.Subset.refl _

theorem bare_mem_nodes (e : Expr) : e.bare ∈ e.nodes :=
  e.nodes_bare e.bare.self_mem_nodes

theorem nodes_of_mem_elements? {e x : Expr} {elements : List Expr}
    (h : e.elements? = some elements) (hx : x ∈ elements) : x.nodes ⊆ e.nodes := by
  unfold elements? at h
  split at h
  · next es span hbare =>
    obtain rfl := Option.some.inj h
    intro n hn
    refine e.nodes_bare ?_
    rw [hbare, nodes]
    exact List.mem_cons_of_mem _ (mem_nodesOfExprs.2 ⟨x, hx, hn⟩)
  · cases h

end Expr

/-- The nodes of a script. -/
def Script.nodes (script : Script) : List Expr :=
  nodesOfStatements script.statements

end SqfCheck
