import Mathlib.Tactic.SplitIfs
import SqfCheck.Proofs.Nodes
import SqfCheck.Typing

/-!
# What the walk over a tree writes down

The walk over a tree adds two sorts of entries : errors about the operands of commands, each at
some node of the tree (`Entry.IsComplaintAt`), and definitions of local variables. It never
reports a use of a variable and has nothing to say about the order of tokens. Definitions only
come from a list of parameters or from the counter of a loop (`Checker.mem_checkApplication`) ;
everything else is a complaint.

All of it is found where a command is applied. The walk over a tree finds nothing but what is found
about the applications that its nodes stand for (`findsAt_entriesOfStatements`), so what holds of
one application is enough.
-/

namespace SqfCheck

namespace Entry

/-- An entry that is an error about operands. -/
def IsComplaint : Entry → Prop
  | diagnostic d => d.isError = true ∧
    (d.kind = .typeMismatch ∨ d.kind = .arityMismatch ∨ d.kind = .missingFile)
  | _ => False

/-- An entry that the walk over a tree may add : an error about operands, or a definition. -/
def IsFinding : Entry → Prop
  | definition _ _ => True
  | e => e.IsComplaint

/-- An error of the given kind at one of the expressions. -/
def IsComplaintAt (kind : DiagnosticKind) (nodes : List Expr) (e : Entry) : Prop :=
  ∃ n ∈ nodes, ∃ message, e = diagnostic (.error kind n.span message)

/-- What the walk over a tree with the given nodes may add : an error about operands at one of the
nodes, or a definition. -/
def IsFoundAt (nodes : List Expr) : Entry → Prop
  | definition _ _ => True
  | e => ∃ kind, (kind = .typeMismatch ∨ kind = .arityMismatch ∨ kind = .missingFile) ∧
    e.IsComplaintAt kind nodes

variable {e : Entry} {kind : DiagnosticKind} {nodes more : List Expr}

theorem isComplaintAt_typeMismatch {n : Expr} (hn : n ∈ nodes) (message : String) :
    (typeMismatch n.span message).IsComplaintAt .typeMismatch nodes :=
  ⟨n, hn, message, rfl⟩

theorem IsComplaintAt.mono (h : e.IsComplaintAt kind nodes) (hsub : nodes ⊆ more) :
    e.IsComplaintAt kind more := by
  obtain ⟨n, hn, message, rfl⟩ := h
  exact ⟨n, hsub hn, message, rfl⟩

theorem IsComplaintAt.isComplaint (h : e.IsComplaintAt kind nodes)
    (hk : kind = .typeMismatch ∨ kind = .arityMismatch ∨ kind = .missingFile) :
    e.IsComplaint := by
  obtain ⟨n, -, message, rfl⟩ := h
  exact ⟨rfl, hk⟩

theorem IsComplaintAt.isFoundAt (h : e.IsComplaintAt kind nodes)
    (hk : kind = .typeMismatch ∨ kind = .arityMismatch ∨ kind = .missingFile) :
    e.IsFoundAt nodes := by
  obtain ⟨n, hn, message, rfl⟩ := h
  exact ⟨kind, hk, n, hn, message, rfl⟩

theorem IsFoundAt.mono (h : e.IsFoundAt nodes) (hsub : nodes ⊆ more) : e.IsFoundAt more := by
  cases e with
  | definition name t => trivial
  | _ =>
    obtain ⟨kind, hk, he⟩ := h
    exact (he.mono hsub).isFoundAt hk

theorem IsFoundAt.isFinding (h : e.IsFoundAt nodes) : e.IsFinding := by
  cases e with
  | definition name t => trivial
  | _ =>
    obtain ⟨kind, hk, he⟩ := h
    exact he.isComplaint hk

end Entry

/-! ## Rules -/

theorem Rule.name_of_fixed? {name : String} (h : Rule.fixed? name = some .parameters) :
    name = "params" := by
  unfold Rule.fixed? at h
  obtain ⟨before, after, hlist, -⟩ := List.lookup_eq_some_iff.1 h
  have hmem : (name, Rule.parameters) ∈ before ++ (name, .parameters) :: after := by simp
  rw [← hlist] at hmem
  simpa [Rule.fixed] using hmem

namespace Catalogue

/-- Parameters are defined by one command. -/
theorem rule_operator? (c : Catalogue) {name : String} {o : Operator}
    (h : c.operator? name = some o) : o.rule = .parameters ↔ name = "params" := by
  rw [c.rule_of_operator? h]
  cases hfixed : Rule.fixed? name with
  | some rule =>
    refine ⟨fun hr => Rule.name_of_fixed? (hfixed.trans (congrArg some hr)), ?_⟩
    rintro rfl
    exact (Option.some.inj hfixed).symm
  | none =>
    refine ⟨by simp, ?_⟩
    rintro rfl
    cases hfixed

theorem exists_operator?_params (c : Catalogue) :
    ∃ o, c.operator? "params" = some o ∧ o.rule = .parameters :=
  Option.map_eq_some_iff.1 (c.rules "params")

end Catalogue

/-! ## Applications -/

/-- The nodes of the operands. -/
def Application.nodes (a : Application) : List Expr :=
  a.left.elim [] (·.expr.nodes) ++ a.right.elim [] (·.expr.nodes)

theorem Application.nodes_left {a : Application} {o : Operand} (h : a.left = some o) :
    o.expr.nodes ⊆ a.nodes := by
  simp [nodes, h]

theorem Application.nodes_right {a : Application} {o : Operand} (h : a.right = some o) :
    o.expr.nodes ⊆ a.nodes := by
  simp [nodes, h]

namespace Operator

open Entry

theorem isComplaintAt_checkSide {types : TypeSet} {side : String} {op : Token}
    {o : Option Operand} :
    ∀ e ∈ checkSide types side op o,
      e.IsComplaintAt .typeMismatch (o.elim [] (·.expr.nodes)) := by
  cases o with
  | none => simp [checkSide]
  | some o =>
    rw [checkSide]
    split_ifs
    · simp
    · exact List.forall_mem_singleton.2 (isComplaintAt_typeMismatch o.expr.self_mem_nodes _)

theorem isComplaintAt_checkTypes {o : Operator} {a : Application} :
    ∀ e ∈ o.checkTypes a, e.IsComplaintAt .typeMismatch a.nodes := by
  intro e he
  rcases List.mem_append.1 he with he | he
  · exact (isComplaintAt_checkSide e he).mono (List.subset_append_left _ _)
  · exact (isComplaintAt_checkSide e he).mono (List.subset_append_right _ _)

theorem isComplaintAt_checkCondition {a : Application} :
    ∀ e ∈ checkCondition a, e.IsComplaintAt .typeMismatch a.nodes := by
  unfold checkCondition
  split
  · simp
  next o ho =>
  split_ifs
  · simp
  · have hnode := a.nodes_right ho o.expr.self_mem_nodes
    exact List.forall_mem_singleton.2 (isComplaintAt_typeMismatch hnode _)

theorem isComplaintAt_checkFollows {a : Application} :
    ∀ e ∈ checkFollows a, e.IsComplaintAt .typeMismatch a.nodes := by
  unfold checkFollows
  split
  · simp
  next o ho =>
  split_ifs
  · simp
  · have hnode := a.nodes_left ho o.expr.self_mem_nodes
    exact List.forall_mem_singleton.2 (isComplaintAt_typeMismatch hnode _)

theorem isComplaintAt_checkBranches {op : Token} {body : Operand} :
    ∀ e ∈ checkBranches op body, e.IsComplaintAt .typeMismatch body.expr.nodes := by
  unfold checkBranches
  split
  · simp
  next branches hbranches =>
  split_ifs
  · exact List.forall_mem_singleton.2 (isComplaintAt_typeMismatch body.expr.self_mem_nodes _)
  · intro e he
    obtain ⟨branch, hbranch, he⟩ := List.mem_flatMap.1 he
    unfold checkBranch at he
    split_ifs at he
    · simp at he
    · obtain rfl := List.mem_singleton.1 he
      have hnode := Expr.nodes_of_mem_elements? hbranches hbranch branch.self_mem_nodes
      exact isComplaintAt_typeMismatch hnode _

theorem isComplaintAt_checkThen {a : Application} :
    ∀ e ∈ checkThen a, e.IsComplaintAt .typeMismatch a.nodes := by
  intro e he
  refine (List.mem_append.1 he).elim (isComplaintAt_checkFollows e) fun he => ?_
  split at he
  · simp at he
  next o ho =>
  split at he
  · simp at he
  · simp at he
  · exact (isComplaintAt_checkBranches e he).mono (a.nodes_right ho)
  · obtain rfl := List.mem_singleton.1 he
    exact isComplaintAt_typeMismatch (a.nodes_right ho o.expr.self_mem_nodes) _

theorem isComplaintAt_checkLeave {a : Application} :
    ∀ e ∈ checkLeave a, e.IsComplaintAt .typeMismatch a.nodes := by
  intro e he
  refine (List.mem_append.1 he).elim (isComplaintAt_checkFollows e) fun he => ?_
  split at he
  · simp at he
  next o ho =>
  split_ifs at he
  · simp at he
  · obtain rfl := List.mem_singleton.1 he
    exact isComplaintAt_typeMismatch (a.nodes_right ho o.expr.self_mem_nodes) _

/-- The name of a parameter is defined, or is no name of a local variable. -/
theorem mem_parameterName {t : Token} {e : Entry} (he : e ∈ parameterName t) :
    (∃ name, e = .definition name t) ∨ e.IsComplaintAt .typeMismatch [.string t] := by
  unfold parameterName at he
  split at he
  · simp at he
  split_ifs at he
  · simp at he
  · exact .inl ⟨_, List.mem_singleton.1 he⟩
  · obtain rfl := List.mem_singleton.1 he
    exact .inr (isComplaintAt_typeMismatch (List.mem_singleton_self (Expr.string t)) _)

theorem mem_parameter {x : Expr} {e : Entry} (he : e ∈ parameter x) :
    (∃ name t, e = .definition name t) ∨ e.IsComplaintAt .typeMismatch x.nodes := by
  have hname : ∀ {t : Token}, e ∈ parameterName t → Expr.string t ∈ x.nodes →
      (∃ name t, e = .definition name t) ∨ e.IsComplaintAt .typeMismatch x.nodes := by
    intro t he ht
    refine (mem_parameterName he).imp (fun ⟨name, h⟩ => ⟨name, t, h⟩) fun h => h.mono ?_
    simpa using ht
  have hbare := x.bare_mem_nodes
  unfold parameter at he
  split at he
  · next t ht => exact hname he (ht ▸ hbare)
  · next elements span harray =>
    split at he
    · next t ht =>
      obtain ⟨first, hfirst, hstring⟩ := Option.map_eq_some_iff.1 ht
      have hfirst' : first ∈ elements := List.mem_of_head? hfirst
      have helements : x.elements? = some elements := by rw [Expr.elements?, harray]
      exact hname he (hstring ▸ Expr.nodes_of_mem_elements? helements hfirst' first.bare_mem_nodes)
    · simp at he
    · obtain rfl := List.mem_singleton.1 he
      exact .inr (isComplaintAt_typeMismatch (harray ▸ hbare) _)
  · simp at he
  · obtain rfl := List.mem_singleton.1 he
    exact .inr (isComplaintAt_typeMismatch hbare _)

theorem mem_checkParameters {a : Application} {e : Entry} (he : e ∈ checkParameters a) :
    (∃ name t, e = .definition name t) ∨ e.IsComplaintAt .typeMismatch a.nodes := by
  unfold checkParameters at he
  split at he
  · simp at he
  next list hlist =>
  obtain ⟨o, ho, helements⟩ := Option.bind_eq_some_iff.1 hlist
  obtain ⟨x, hx, he⟩ := List.mem_flatMap.1 he
  refine (mem_parameter he).imp_right fun h => h.mono fun n hn => ?_
  exact a.nodes_right ho (Expr.nodes_of_mem_elements? helements hx hn)

theorem isComplaintAt_checkFile {paths : Option PathCheck} {a : Application} :
    ∀ e ∈ checkFile paths a, e.IsComplaintAt .missingFile a.nodes := by
  unfold checkFile
  split
  · next _ _ check o ho =>
    split
    · simp
    split_ifs
    · simp
    · intro e he
      exact ⟨o.expr, a.nodes_right ho o.expr.self_mem_nodes, _, List.mem_singleton.1 he⟩
  · simp

/-- A rule complains about the types of operands, unless it is the one that defines parameters or
one that looks for files. -/
theorem mem_check_cases {o : Operator} {paths : Option PathCheck} {a : Application} {e : Entry}
    (he : e ∈ o.check paths a) : e.IsComplaintAt .typeMismatch a.nodes ∨
      o.rule = .parameters ∧ e ∈ checkParameters a ∨ o.rule = .loader ∧ e ∈ checkFile paths a := by
  unfold check at he
  split at he
  · exact .inl (isComplaintAt_checkTypes e he)
  · exact .inl (isComplaintAt_checkCondition e he)
  · exact .inl (isComplaintAt_checkThen e he)
  · exact .inl (isComplaintAt_checkLeave e he)
  · next hr =>
    exact (List.mem_append.1 he).imp (isComplaintAt_checkTypes e) fun he => .inl ⟨hr, he⟩
  · next hr =>
    exact (List.mem_append.1 he).imp (isComplaintAt_checkTypes e) fun he => .inr ⟨hr, he⟩

/-- A rule complains about operands, unless it is the one that defines parameters. -/
theorem mem_check {o : Operator} {paths : Option PathCheck} {a : Application} {e : Entry}
    (he : e ∈ o.check paths a) :
    e.IsComplaint ∨ o.rule = .parameters ∧ e ∈ checkParameters a := by
  rcases mem_check_cases he with he | he | ⟨-, he⟩
  · exact .inl (he.isComplaint (.inl rfl))
  · exact .inr he
  · exact .inl ((isComplaintAt_checkFile e he).isComplaint (.inr (.inr rfl)))

theorem isFoundAt_check {o : Operator} {paths : Option PathCheck} {a : Application} :
    ∀ e ∈ o.check paths a, e.IsFoundAt a.nodes := by
  intro e he
  rcases mem_check_cases he with he | ⟨-, he⟩ | ⟨-, he⟩
  · exact he.isFoundAt (.inl rfl)
  · rcases mem_checkParameters he with ⟨name, t, rfl⟩ | he
    · trivial
    · exact he.isFoundAt (.inl rfl)
  · exact (isComplaintAt_checkFile e he).isFoundAt (.inr (.inr rfl))

theorem mem_check_of_parameters {o : Operator} {paths : Option PathCheck} {a : Application}
    {e : Entry} (hr : o.rule = .parameters) (he : e ∈ checkParameters a) :
    e ∈ o.check paths a := by
  unfold check
  rw [hr]
  exact List.mem_append_right _ he

end Operator

theorem exists_of_mem_loopCounter {a : Application} {e : Entry} (he : e ∈ loopCounter a) :
    ∃ name t, e = .definition name t := by
  unfold loopCounter at he
  split_ifs at he
  · split at he
    · simp at he
    split at he
    · simp at he
    split_ifs at he
    · exact ⟨_, _, List.mem_singleton.1 he⟩
    · simp at he
  · simp at he

theorem all_fits_iff {a : Application} {o : Option Overloads} :
    o.all a.fits = true ↔ o.bind a.arityComplaint = none := by
  cases o with
  | none => simp
  | some o => simp [Application.arityComplaint]

namespace Checker

variable {c : Checker} {a : Application} {e : Entry}

/-- What is found about an application are complaints about operands and, if the command takes
operands in these places, the parameters or the loop counter that it defines. -/
theorem mem_checkApplication (he : e ∈ c.checkApplication a) :
    e.IsComplaint ∨ (c.catalogue.command? a.op.name).all a.fits = true ∧
      (a.op.name = "params" ∧ e ∈ Operator.checkParameters a ∨ e ∈ loopCounter a) := by
  unfold checkApplication at he
  split at he
  · next d hd =>
    obtain ⟨o, -, ho⟩ := Option.bind_eq_some_iff.1 hd
    unfold Application.arityComplaint at ho
    split_ifs at ho
    obtain rfl := Option.some.inj ho
    obtain rfl := List.mem_singleton.1 he
    exact .inl ⟨rfl, .inr (.inl rfl)⟩
  · next hnone =>
    have hfits := all_fits_iff.2 hnone
    rcases List.mem_append.1 he with he | he
    · split at he
      · next o ho =>
        refine (Operator.mem_check he).imp_right fun h => ⟨hfits, .inl ⟨?_, h.2⟩⟩
        exact (c.catalogue.rule_operator? ho).1 h.1
      · simp at he
    · exact .inr ⟨hfits, .inr he⟩

theorem mem_checkApplication_of_fits
    (hfits : (c.catalogue.command? a.op.name).all a.fits = true)
    (he : a.op.name = "params" ∧ e ∈ Operator.checkParameters a ∨ e ∈ loopCounter a) :
    e ∈ c.checkApplication a := by
  unfold checkApplication
  rw [all_fits_iff.1 hfits]
  refine List.mem_append.2 (he.imp ?_ id)
  rintro ⟨hname, he⟩
  obtain ⟨o, ho, hr⟩ := c.catalogue.exists_operator?_params
  rw [hname, ho]
  exact Operator.mem_check_of_parameters hr he

/-- What is found about the application that the node `x` stands for is found at `x` or at a node
of an operand. -/
theorem isFoundAt_checkApplication {x : Expr} {nodes : List Expr} (hx : x ∈ nodes)
    (hspan : x.span = a.span) (hsub : a.nodes ⊆ nodes) :
    ∀ e ∈ c.checkApplication a, e.IsFoundAt nodes := by
  intro e he
  unfold checkApplication at he
  split at he
  · next d hd =>
    obtain ⟨o, -, ho⟩ := Option.bind_eq_some_iff.1 hd
    unfold Application.arityComplaint at ho
    split_ifs at ho
    obtain rfl := Option.some.inj ho
    obtain rfl := List.mem_singleton.1 he
    exact ⟨.arityMismatch, .inr (.inl rfl), x, hx, _, by rw [hspan]⟩
  · rcases List.mem_append.1 he with he | he
    · split at he
      · exact (Operator.isFoundAt_check e he).mono hsub
      · simp at he
    · obtain ⟨name, t, rfl⟩ := exists_of_mem_loopCounter he
      trivial

end Checker

/-! ## Trees -/

namespace Expr

/-- The application that a node stands for, with the types that its operands are found to
have. -/
def application? (c : Checker) : Expr → Option Application
  | nullary op => some ⟨op, none, none⟩
  | unary op right => some ⟨op, none, some ⟨(right.typed c).type, right⟩⟩
  | binary left op right =>
    some ⟨op, some ⟨(left.typed c).type, left⟩, some ⟨(right.typed c).type, right⟩⟩
  | dangling left op => some ⟨op, some ⟨(left.typed c).type, left⟩, none⟩
  | _ => none

/-- An application stands where its node stands, and its operands stand in the node. -/
theorem span_and_nodes_of_application? {c : Checker} {x : Expr} {a : Application}
    (h : x.application? c = some a) : x.span = a.span ∧ a.nodes ⊆ x.nodes := by
  cases x with
  | nullary op =>
    obtain rfl := Option.some.inj h
    exact ⟨rfl, List.nil_subset _⟩
  | unary op right =>
    obtain rfl := Option.some.inj h
    exact ⟨rfl, List.subset_cons_self _ _⟩
  | binary left op right =>
    obtain rfl := Option.some.inj h
    refine ⟨rfl, ?_⟩
    rw [nodes]
    exact List.subset_cons_self _ _
  | dangling left op =>
    obtain rfl := Option.some.inj h
    refine ⟨rfl, ?_⟩
    rw [Application.nodes, nodes]
    simp
  | _ => cases h

end Expr

namespace Checker

/-- The entry is found about an application that stands, with its operands, among the nodes. -/
def FindsAt (c : Checker) (nodes : List Expr) (e : Entry) : Prop :=
  ∃ (n : Expr) (a : Application), n.nodes ⊆ nodes ∧ n.application? c = some a ∧
    e ∈ c.checkApplication a

variable {c : Checker} {nodes more : List Expr} {e : Entry}

theorem FindsAt.mono (h : c.FindsAt nodes e) (hsub : nodes ⊆ more) : c.FindsAt more e := by
  obtain ⟨n, a, hn, ha, he⟩ := h
  exact ⟨n, a, List.Subset.trans hn hsub, ha, he⟩

theorem findsAt_self {x : Expr} {a : Application} (ha : x.application? c = some a)
    (he : e ∈ c.checkApplication a) : c.FindsAt x.nodes e :=
  ⟨x, a, List.Subset.refl _, ha, he⟩

theorem FindsAt.isFoundAt (h : c.FindsAt nodes e) : e.IsFoundAt nodes := by
  obtain ⟨n, a, hn, ha, he⟩ := h
  obtain ⟨hspan, hsub⟩ := Expr.span_and_nodes_of_application? ha
  exact (isFoundAt_checkApplication n.self_mem_nodes hspan hsub e he).mono hn

end Checker

mutual

theorem findsAt_typed (c : Checker) :
    ∀ (x : Expr), ∀ e ∈ (x.typed c).entries, c.FindsAt x.nodes e
  | .number _ => by simp [Expr.typed]
  | .string _ => by simp [Expr.typed]
  | .reference _ => by simp [Expr.typed]
  | .expansion _ _ => by simp [Expr.typed]
  | .invalid _ => by simp [Expr.typed]
  | .array elements _ => by
    intro e he
    rw [Expr.typed] at he
    exact (findsAt_entriesOfExprs c elements e he).mono (List.subset_cons_self _ _)
  | .code body _ => by
    intro e he
    rw [Expr.typed] at he
    exact (findsAt_entriesOfStatements c body e he).mono (List.subset_cons_self _ _)
  | .paren inner _ => by
    intro e he
    rw [Expr.typed] at he
    exact (findsAt_typed c inner e he).mono (List.subset_cons_self _ _)
  | .nullary op => by
    rw [Expr.typed]
    exact fun e he => Checker.findsAt_self rfl he
  | .unary op right => by
    intro e he
    simp only [Expr.typed, Typed.after, List.mem_append] at he
    rcases he with he | he
    · exact (findsAt_typed c right e he).mono (List.subset_cons_self _ _)
    · exact Checker.findsAt_self rfl he
  | .binary left op right => by
    intro e he
    simp only [Expr.typed, Typed.after, List.mem_append] at he
    have hsub : left.nodes ++ right.nodes ⊆ (Expr.binary left op right).nodes := by
      rw [Expr.nodes]
      exact List.subset_cons_self _ _
    rcases he with (he | he) | he
    · exact (findsAt_typed c left e he).mono
        (List.Subset.trans (List.subset_append_left _ _) hsub)
    · exact (findsAt_typed c right e he).mono
        (List.Subset.trans (List.subset_append_right _ _) hsub)
    · exact Checker.findsAt_self rfl he
  | .dangling left op => by
    intro e he
    simp only [Expr.typed, Typed.after, List.mem_append] at he
    rcases he with he | he
    · exact (findsAt_typed c left e he).mono (List.subset_cons_self _ _)
    · exact Checker.findsAt_self rfl he

theorem findsAt_entriesOfExprs (c : Checker) :
    ∀ (xs : List Expr), ∀ e ∈ entriesOfExprs c xs, c.FindsAt (nodesOfExprs xs) e
  | [] => by simp [entriesOfExprs]
  | x :: xs => by
    intro e he
    rw [entriesOfExprs, List.mem_append] at he
    rw [nodesOfExprs]
    rcases he with he | he
    · exact (findsAt_typed c x e he).mono (List.subset_append_left _ _)
    · exact (findsAt_entriesOfExprs c xs e he).mono (List.subset_append_right _ _)

theorem findsAt_entries (c : Checker) :
    ∀ (s : Statement), ∀ e ∈ s.entries c, c.FindsAt s.nodes e
  | .assignment _ _ value => by
    intro e he
    rw [Statement.entries] at he
    exact (findsAt_typed c value e he).mono (List.subset_append_right _ _)
  | .expression value => by
    rw [Statement.entries]
    exact findsAt_typed c value

/-- Whatever the walk finds, it finds about a node that applies a command. -/
theorem findsAt_entriesOfStatements (c : Checker) :
    ∀ (ss : List Statement), ∀ e ∈ entriesOfStatements c ss, c.FindsAt (nodesOfStatements ss) e
  | [] => by simp [entriesOfStatements]
  | s :: ss => by
    intro e he
    rw [entriesOfStatements, List.mem_append] at he
    rw [nodesOfStatements]
    rcases he with he | he
    · exact (findsAt_entries c s e he).mono (List.subset_append_left _ _)
    · exact (findsAt_entriesOfStatements c ss e he).mono (List.subset_append_right _ _)

end

theorem isFoundAt_typed (c : Checker) (x : Expr) :
    ∀ e ∈ (x.typed c).entries, e.IsFoundAt x.nodes :=
  fun e he => (findsAt_typed c x e he).isFoundAt

/-- The walk over statements only adds errors about operands, at nodes of the statements, and
definitions. -/
theorem isFoundAt_entriesOfStatements (c : Checker) (ss : List Statement) :
    ∀ e ∈ entriesOfStatements c ss, e.IsFoundAt (nodesOfStatements ss) :=
  fun e he => (findsAt_entriesOfStatements c ss e he).isFoundAt

/-- The walk over statements only adds errors about operands, and definitions. -/
theorem isFinding_entriesOfStatements (c : Checker) (ss : List Statement) :
    ∀ e ∈ entriesOfStatements c ss, e.IsFinding :=
  fun e he => (isFoundAt_entriesOfStatements c ss e he).isFinding

end SqfCheck
