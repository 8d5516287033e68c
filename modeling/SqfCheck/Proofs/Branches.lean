import SqfCheck.Typing

/-!
# Types of branches

What follows a condition may be an array of one or two branches, and each of them should be code.
The walk over a tree finds a type for every branch (`Expr.typed`), but the check asks for the type
that a branch has as a literal (`Expr.literalType`). The two are the same but for commands, which
are no literals (`Expr.literalType_eq`). So the branches that are complained of are those of a known
type other than code, less the ones that are commands (`check_then_branches`). A sum of numbers is
let through as a branch (`not_check_then_typed`), though it is complained of where it follows the
condition without an array around it.
-/

namespace SqfCheck

namespace Expr

/-- Whether the expression is a command, with the operands it has. -/
def isCommand : Expr → Bool
  | nullary _ | unary _ _ | binary _ _ _ | dangling _ _ => true
  | _ => false

/-- Whether the type found for the expression is known and is not code. -/
def isMistyped (c : Checker) (branch : Expr) : Bool :=
  (branch.typed c).type ≠ .code && (branch.typed c).type ≠ .any

/-- What an expression is as a literal is the type that is found for it, unless it is a command with
or without parentheses around it. -/
theorem literalType_eq (c : Checker) : ∀ e : Expr,
    e.literalType = if e.bare.isCommand then .any else (e.typed c).type
  | paren inner _ => by
    rw [bare, typed]
    exact literalType_eq c inner
  | number _ | string _ | reference _ | expansion _ _ | array _ _ | code _ _ | invalid _ => by
    rw [typed]
    rfl
  | nullary _ | unary _ _ | binary _ _ _ | dangling _ _ => rfl

/-- An array literal has the type of arrays, with or without parentheses around it. -/
theorem type_of_elements? (c : Checker) : ∀ {e : Expr} {elements : List Expr},
    e.elements? = some elements → (e.typed c).type = .array
  | paren inner _, _, h => by
    rw [typed]
    exact type_of_elements? c (e := inner) h
  | array _ _, _, _ => by rw [typed]

end Expr

namespace Operator

/-- The complaint about a branch, by the type that is found for it. -/
def branchComplaint (c : Checker) (op : Token) (branch : Expr) : Entry :=
  .typeMismatch branch.span (branchMessage op (branch.typed c).type)

variable (c : Checker) (op : Token)

theorem checkBranch_eq (branch : Expr) : checkBranch op branch =
    if branch.bare.isCommand = false ∧ branch.isMistyped c = true then
      [branchComplaint c op branch]
    else [] := by
  rw [checkBranch, branch.literalType_eq c]
  cases branch.bare.isCommand with
  | true => simp
  | false =>
    by_cases hcode : (branch.typed c).type = .code ∨ (branch.typed c).type = .any
    · have hmay : branch.isMistyped c = false := by
        rcases hcode with h | h <;> simp [Expr.isMistyped, h]
      simp [hcode, hmay]
    · have hnot : branch.isMistyped c = true := by
        simpa [Expr.isMistyped] using hcode
      simp [hcode, hnot, branchComplaint]

theorem flatMap_checkBranch (branches : List Expr) : branches.flatMap (checkBranch op) =
    ((branches.filter (·.isMistyped c)).filter (!·.bare.isCommand)).map (branchComplaint c op) := by
  induction branches with
  | nil => rfl
  | cons branch branches ih =>
    rw [List.flatMap_cons, ih, checkBranch_eq c, List.filter_cons]
    cases hmistyped : branch.isMistyped c with
    | false => simp
    | true => cases hcommand : branch.bare.isCommand <;> simp [hcommand]

/-- One or two branches are checked one by one. -/
theorem checkThen_eq (left : Option Operand) {body : Expr} {branches : List Expr}
    (hbranches : body.elements? = some branches)
    (hlength : branches.length = 1 ∨ branches.length = 2) :
    checkThen ⟨op, left, some ⟨(body.typed c).type, body⟩⟩ =
      checkFollows ⟨op, left, some ⟨(body.typed c).type, body⟩⟩ ++
        branches.flatMap (checkBranch op) := by
  have hcount : (branches.isEmpty || decide (branches.length > 2)) = false := by
    cases branches with
    | nil => simp at hlength
    | cons branch branches =>
      rcases hlength with h | h <;> simp [h]
  rw [checkThen, body.type_of_elements? c hbranches]
  simp only [checkBranches, hbranches, hcount]
  rfl

end Operator

/-- The operator check of an array of one or two branches after a condition. Besides what it has to
say about the condition, it complains of just those branches, in order, for which a known type other
than code is found and which are no commands, each by the type found for it. So all branches of such
a type are complained of just if none of them is a command. -/
theorem check_then_branches (c : Checker) {op : Token} (left : Option Operand) {body : Expr}
    {branches : List Expr} (hop : op.name = "then") (hbranches : body.elements? = some branches)
    (hlength : branches.length = 1 ∨ branches.length = 2) :
    let a : Application := ⟨op, left, some ⟨(body.typed c).type, body⟩⟩
    let mistyped := branches.filter (·.isMistyped c)
    ∃ o, c.catalogue.operator? op.name = some o ∧
      o.check c.paths a = Operator.checkFollows a ++
        (mistyped.filter (!·.bare.isCommand)).map (Operator.branchComplaint c op) ∧
      (o.check c.paths a = Operator.checkFollows a ++
          mistyped.map (Operator.branchComplaint c op) ↔
        ∀ b ∈ mistyped, b.bare.isCommand = false) := by
  intro a mistyped
  obtain ⟨o, ho, hrule⟩ : ∃ o, c.catalogue.operator? "then" = some o ∧ o.rule = .branches :=
    Option.map_eq_some_iff.1 (c.catalogue.rules "then")
  have hcheck : Operator.checkThen a = Operator.checkFollows a ++
      (mistyped.filter (!·.bare.isCommand)).map (Operator.branchComplaint c op) := by
    rw [Operator.checkThen_eq c op left hbranches hlength, Operator.flatMap_checkBranch c]
  have hsame : o.check c.paths a = Operator.checkThen a := by rw [Operator.check, hrule]
  refine ⟨o, hop ▸ ho, hsame.trans hcheck, ?_⟩
  rw [hsame, hcheck, List.append_cancel_left_eq]
  constructor
  · intro h b hb
    have hlength := congrArg List.length h
    rw [List.length_map, List.length_map, List.length_filter_eq_length_iff] at hlength
    simpa using hlength b hb
  · intro h
    rw [List.filter_eq_self.2 fun b hb => by simp [h b hb]]

/-- A number is complained of as a branch, and code is not. -/
theorem check_then_branches_number :
    let c : Checker := {}
    let op : Token := ⟨.identifier, "then", ⟨⟨1, 4⟩, ⟨1, 7⟩⟩, none⟩
    let five : Expr := .number ⟨.number, "5", ⟨⟨1, 10⟩, ⟨1, 10⟩⟩, none⟩
    let branches : List Expr := [five, .code [] ⟨⟨1, 13⟩, ⟨1, 14⟩⟩]
    let body : Expr := .array branches ⟨⟨1, 9⟩, ⟨1, 15⟩⟩
    let a : Application := ⟨op, none, some ⟨(body.typed c).type, body⟩⟩
    op.name = "then" ∧ body.elements? = some branches ∧
      ∃ o, c.catalogue.operator? op.name = some o ∧ o.check c.paths a =
        [.typeMismatch five.span "Branch of 'then' must be Code, got Number"] := by
  intro c op five branches body a
  have hop : op.name = "then" := by decide
  have hbranches : body.elements? = some branches := rfl
  obtain ⟨o, ho, hcheck, -⟩ := check_then_branches c none hop hbranches (.inr rfl)
  exact ⟨hop, hbranches, o, ho, hcheck⟩

/-- Branches are not checked by the types found for them. The sum of two numbers is a number, and
nothing is said about it as a branch. -/
theorem not_check_then_typed : ¬∀ (c : Checker) (op : Token) (left : Option Operand) (body : Expr)
    (branches : List Expr) (o : Operator), op.name = "then" → body.elements? = some branches →
      branches.length = 1 ∨ branches.length = 2 → c.catalogue.operator? op.name = some o →
        ∀ b ∈ branches, b.isMistyped c = true →
          Operator.branchComplaint c op b ∈
            o.check c.paths ⟨op, left, some ⟨(body.typed c).type, body⟩⟩ := by
  intro h
  let one : Expr := .number ⟨.number, "1", ⟨⟨1, 17⟩, ⟨1, 17⟩⟩, none⟩
  let two : Expr := .number ⟨.number, "2", ⟨⟨1, 21⟩, ⟨1, 21⟩⟩, none⟩
  let sum : Expr := .binary one ⟨.operator, "+", ⟨⟨1, 19⟩, ⟨1, 19⟩⟩, none⟩ two
  let op : Token := ⟨.identifier, "then", ⟨⟨1, 11⟩, ⟨1, 14⟩⟩, none⟩
  have ho : ({} : Checker).catalogue.operator? op.name = some ⟨.branches, {}, {}⟩ := by
    decide +kernel
  have hnumber : sum.isMistyped {} = true := by decide +kernel
  have hmem := h {} op none (.array [sum] ⟨⟨1, 16⟩, ⟨1, 22⟩⟩) [sum] _ (by decide) rfl (.inl rfl) ho
    sum (List.mem_singleton_self _) hnumber
  revert hmem
  decide +kernel

end SqfCheck
