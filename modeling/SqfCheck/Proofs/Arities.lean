import SqfCheck.Proofs.Binding
import SqfCheck.Proofs.Walk

/-!
# Commands and the operands they are given

The grammar decides which operands a command gets while it reads, and the walk over the tree checks
later that some overload of the command has them. The two agree (`arities_of_read`) : a command that
is a name only gets an operand on its left if it has an overload between two operands, and only gets
an operand on its right alone if it can do with one, or has no other use for it
(`Expr.WellApplied`). So whatever the walk has to say about the number of operands of such a command
is that some of them are missing (`Application.Lacks`), and never that there are too many.

The commands that are symbols are left out. They stand where the grammar expects a symbol, whatever
the catalogue has to say about them.
-/

namespace SqfCheck

/-- The node, if it applies a command that is a name, has its operands in places where the
overloads of the command ask for them. -/
def Expr.WellApplied (c : Catalogue) : Expr → Prop
  | binary _ op _ => op.kind = .identifier → c.supports op.name .binary = true
  | unary op _ => op.kind = .identifier → c.supports op.name .unary = true ∨
      c.supports op.name .binary = true ∧ c.supports op.name .nullary = false
  | dangling _ _ => False
  | _ => True

namespace Application

/-- The message says which operands an application of a command with these overloads lacks. -/
inductive Lacks (a : Application) (o : Overloads) : String → Prop where
  | right (hleft : a.left = none) (hright : a.right = none) (ho : o.unary = true) :
    Lacks a o ("'" ++ a.op.text ++ "'" ++ " requires an argument")
  | both (hleft : a.left = none) (hright : a.right = none) (ho : o.unary = false) :
    Lacks a o ("'" ++ a.op.text ++ "'" ++ " requires left and right arguments")
  | left (hleft : a.left = none) (hright : a.right.isSome = true) (ho : o.binary = true) :
    Lacks a o ("'" ++ a.op.text ++ "'" ++ " requires a left argument")

/-- What is said about too many operands, or about one on the left only. -/
def excesses (a : Application) : List String :=
  ["'" ++ a.op.text ++ "'" ++ " does not take arguments",
    "'" ++ a.op.text ++ "'" ++ " does not take a left argument",
    "'" ++ a.op.text ++ "'" ++ " requires a right argument"]

variable {a : Application} {o : Overloads} {message : String}

/-- A message about missing operands is none about too many. -/
theorem Lacks.not_mem_excesses (h : a.Lacks o message) : message ∉ a.excesses := by
  have hne : ∀ {s t : String}, s ≠ t →
      "'" ++ a.op.text ++ "'" ++ s ≠ "'" ++ a.op.text ++ "'" ++ t :=
    fun hst heq => hst ((String.append_right_inj _).1 heq)
  simp only [excesses, List.mem_cons, List.not_mem_nil, or_false, not_or]
  cases h with
  | right => exact ⟨hne (by decide), hne (by decide), hne (by decide)⟩
  | both => exact ⟨hne (by decide), hne (by decide), hne (by decide)⟩
  | left => exact ⟨hne (by decide), hne (by decide), hne (by decide)⟩

end Application

/-! ## What the grammar gives to a command -/

theorem Token.kind_eq_of_isSign {t : Token} (h : t.isSign = true) : t.kind = .operator := by
  simp only [isSign, isOperator, Bool.or_eq_true, Bool.and_eq_true, decide_eq_true_eq] at h
  rcases h with (h | h) | h <;> exact h.1

theorem Vocabulary.command?_of_classify {v : Vocabulary} {name : String} {o : Overloads}
    (h : v.classify name = .command o) : v.catalogue.command? name = some o := by
  unfold classify at h
  split at h
  · next found hfound => rw [hfound, Meaning.command.inj h]
  · split_ifs at h

theorem Catalogue.supports_of_command? {c : Catalogue} {name : String} {o : Overloads}
    (h : c.command? name = some o) (arity : Arity) : c.supports name arity = o.supports arity := by
  rw [supports, h]
  rfl

/-- What the grammar builds has its operands in the right places. -/
theorem Expr.Built.wellApplied {v : Vocabulary} {e : Expr} (h : e.Built v) :
    e.WellApplied v.catalogue := by
  cases e with
  | binary left op right =>
    intro hk
    have hp := h.1
    simp only [Vocabulary.precedence?, hk] at hp
    split_ifs at hp with hsupports
    exact hsupports
  | unary op right =>
    intro hk
    rcases h.2 with hsign | ⟨-, o, hclass, htakes⟩
    · rw [Token.kind_eq_of_isSign hsign] at hk
      cases hk
    · have hcommand := Vocabulary.command?_of_classify hclass
      simp only [Catalogue.supports_of_command? hcommand, Overloads.supports]
      simpa [Overloads.takesOperand] using htakes
  | dangling left op => exact h
  | _ => trivial

/-! ## What the walk says about it -/

/-- A command that is a name and has its operands in the right places may lack some of them, and
nothing else is wrong with their number. -/
theorem Expr.WellApplied.lacks {c : Checker} {n : Expr} {a : Application} {o : Overloads}
    {d : Diagnostic} (h : n.WellApplied c.catalogue) (ha : n.application? c = some a)
    (hk : a.op.kind = .identifier) (ho : c.catalogue.command? a.op.name = some o)
    (hd : a.arityComplaint o = some d) : a.Lacks o d.message := by
  unfold Application.arityComplaint at hd
  split_ifs at hd with hfits
  obtain rfl := Option.some.inj hd
  show a.Lacks o (a.arityMessage o)
  cases n with
  | nullary op =>
    obtain rfl := Option.some.inj ha
    cases hunary : o.unary with
    | true =>
      simpa [Application.arityMessage, Application.arity, hunary] using .right rfl rfl hunary
    | false =>
      simpa [Application.arityMessage, Application.arity, hunary] using .both rfl rfl hunary
  | unary op right =>
    obtain rfl := Option.some.inj ha
    have hbinary : o.binary = true := by
      have hplaces := h hk
      simp only [Catalogue.supports_of_command? ho, Overloads.supports] at hplaces
      rcases hplaces with hunary | ⟨hbinary, -⟩
      · simp [Application.fits, Application.arity, Overloads.supports, hunary] at hfits
      · exact hbinary
    simpa [Application.arityMessage, Application.arity, hbinary] using .left rfl rfl hbinary
  | binary left op right =>
    obtain rfl := Option.some.inj ha
    have hbinary := h hk
    rw [Catalogue.supports_of_command? ho] at hbinary
    simp [Application.fits, Application.arity, hbinary] at hfits
  | dangling left op => exact h.elim
  | _ => cases ha

/-- No rule for operands has anything to say about their number. -/
theorem Operator.kind_of_mem_check {o : Operator} {paths : Option PathCheck} {a : Application}
    {d : Diagnostic} (h : .diagnostic d ∈ o.check paths a) : d.kind ≠ .arityMismatch := by
  have hkind : ∀ {kind}, (Entry.diagnostic d).IsComplaintAt kind a.nodes → d.kind = kind := by
    rintro kind ⟨n, -, message, he⟩
    rw [Entry.diagnostic.inj he]
    rfl
  rcases mem_check_cases h with h | ⟨-, h⟩ | ⟨-, h⟩
  · rw [hkind h]
    decide
  · rcases mem_checkParameters h with ⟨name, t, he⟩ | h
    · cases he
    · rw [hkind h]
      decide
  · rw [hkind (isComplaintAt_checkFile _ h)]
    decide

/-- Only the check of the number of operands has something to say about it. -/
theorem Checker.arityComplaint_of_mem {c : Checker} {a : Application} {d : Diagnostic}
    (h : .diagnostic d ∈ c.checkApplication a) (hd : d.kind = .arityMismatch) :
    ∃ o, c.catalogue.command? a.op.name = some o ∧ a.arityComplaint o = some d := by
  unfold checkApplication at h
  split at h
  · next complaint hcomplaint =>
    obtain rfl := Entry.diagnostic.inj (List.mem_singleton.1 h)
    exact Option.bind_eq_some_iff.1 hcomplaint
  · rcases List.mem_append.1 h with h | h
    · split at h
      · exact absurd hd (Operator.kind_of_mem_check h)
      · simp at h
    · obtain ⟨name, t, he⟩ := exists_of_mem_loopCounter h
      cases he

/-- The grammar and the walk over the tree agree on how many operands a command has. In every script
that is read, no command has an operand on its left only. A command that is a name has operands on
both sides only if it has an overload with both, and an operand on its right alone only if it has an
overload with that one, or has one with both and none without operands. So each error about the
number of operands is one about the application of a command in the script, and says, if that
command is a name, which operands are missing, and nothing else. -/
theorem arities_of_read {v : Vocabulary} {strict : Bool} {source : String} {j : Journal}
    {script : Script} (h : (Script.read v strict (Token.scan source) j).1 = .ok script) :
    (∀ n ∈ script.nodes, n.WellApplied v.catalogue) ∧
    ∀ c : Checker, c.catalogue = v.catalogue →
      ∀ d, .diagnostic d ∈ entriesOfStatements c script.statements → d.kind = .arityMismatch →
        ∃ n ∈ script.nodes, ∃ a o, n.application? c = some a ∧
          v.catalogue.command? a.op.name = some o ∧ a.arityComplaint o = some d ∧
          (a.op.kind = .identifier → a.Lacks o d.message ∧ d.message ∉ a.excesses) := by
  have hwell : ∀ n ∈ script.nodes, n.WellApplied v.catalogue := by
    intro n hn
    obtain ⟨st, hst, hn⟩ := mem_nodesOfStatements.1 hn
    exact ((allBuilt_of_read h st hst).built n hn).wellApplied
  refine ⟨hwell, fun c hc d hmem hd => ?_⟩
  obtain ⟨n, a, hnodes, ha, he⟩ := findsAt_entriesOfStatements c script.statements _ hmem
  obtain ⟨o, ho, hcomplaint⟩ := Checker.arityComplaint_of_mem he hd
  have hn : n ∈ script.nodes := hnodes n.self_mem_nodes
  refine ⟨n, hn, a, o, ha, hc ▸ ho, hcomplaint, fun hk => ?_⟩
  have hlacks := (hc ▸ hwell n hn : n.WellApplied c.catalogue).lacks ha hk ho hcomplaint
  exact ⟨hlacks, hlacks.not_mem_excesses⟩

/-- A command without the operand it needs, one without the left and one without both of its
operands are complained about, and the one that needs none is not. The first complaint is about the
application of a command that is a name, and says what is missing. -/
theorem arities_of_read_missing :
    let catalogue := Catalogue.ofLines [⟨"hint", .unary, [], [.string]⟩,
      ⟨"setpos", .binary, [.object], [.array]⟩, ⟨"player", .nullary, [], []⟩]
    let c : Checker := { catalogue }
    let complaint (first last : Nat) (message : String) : Diagnostic :=
      .error .arityMismatch ⟨⟨1, first⟩, ⟨1, last⟩⟩ message
    let d := complaint 1 4 "'hint' requires an argument"
    ∃ script : Script, (Script.read ⟨catalogue, {}⟩ false
        (Token.scan "hint; setPos [0]; setPos; player") {}).1 = .ok script ∧
      entriesOfStatements c script.statements = [.diagnostic d,
        .diagnostic (complaint 7 16 "'setPos' requires a left argument"),
        .diagnostic (complaint 19 24 "'setPos' requires left and right arguments")] ∧
      (∀ n ∈ script.nodes, n.WellApplied catalogue) ∧
      ∃ n ∈ script.nodes, ∃ a o, n.application? c = some a ∧ a.arityComplaint o = some d ∧
        (a.op.kind = .identifier → a.Lacks o d.message ∧ d.message ∉ a.excesses) := by
  intro catalogue c complaint d
  have hentries : (Script.read ⟨catalogue, {}⟩ false
      (Token.scan "hint; setPos [0]; setPos; player") {}).1.toOption.map
        (fun script => entriesOfStatements c script.statements) = some [.diagnostic d,
          .diagnostic (complaint 7 16 "'setPos' requires a left argument"),
          .diagnostic (complaint 19 24 "'setPos' requires left and right arguments")] := by
    decide +kernel
  cases h : (Script.read ⟨catalogue, {}⟩ false
      (Token.scan "hint; setPos [0]; setPos; player") {}).1 with
  | error failure => rw [h] at hentries; cases hentries
  | ok script =>
    rw [h] at hentries
    have hwalk : entriesOfStatements c script.statements = _ := Option.some.inj hentries
    obtain ⟨hwell, hcomplaints⟩ := arities_of_read h
    obtain ⟨n, hn, a, o, ha, -, hd, hlacks⟩ :=
      hcomplaints c rfl d (by rw [hwalk]; exact List.mem_cons_self) rfl
    exact ⟨script, rfl, hwalk, hwell, n, hn, a, o, ha, hd, hlacks⟩

end SqfCheck
