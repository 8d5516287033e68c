import Mathlib
import SqfCheck.Lint
import SqfCheck.Proofs.Findings
import SqfCheck.Proofs.Lockstep

/-!
# Layout and case

What is found in a script does not depend on where its tokens stand, nor on the comments between
them, nor on the case of the letters in its names. Two lists of tokens that differ in nothing else
(`Token.Alike`) make the same tree up to these things, and give the same errors, the same warnings
and the same variables (`lintTokens_layout`).

Everything that is compared is compared in its plain form : tokens without place and comment and
with the case of names folded (`Token.plain`), diagnostics without place and with the case of
their messages folded (`Diagnostic.plain`), for a message may quote a name. Reading is in lockstep
under these views (`Likeness.plain`), the walk over a tree finds the same in the plain form of the
tree (`entriesOfStatements_plain`), and so does the search for variables without a definition
(`undefinedLocals_plain`).
-/

namespace SqfCheck

/-! ## Plain forms -/

theorem foldCase_foldCase (s : String) : foldCase (foldCase s) = foldCase s := by
  apply String.toList_injective
  simp

namespace Token

/-- The tokens have one kind and one text, up to the case of letters if they are names. -/
def Alike (t u : Token) : Prop :=
  t.kind = u.kind ∧
    (t.text = u.text ∨ t.kind = .identifier ∧ foldCase t.text = foldCase u.text)

instance (t u : Token) : Decidable (Alike t u) :=
  inferInstanceAs (Decidable (_ ∧ _))

/-- The token without its place and its comment, with case folded if it is a name. -/
def plain (t : Token) : Token where
  kind := t.kind
  text := if t.kind = .identifier then foldCase t.text else t.text
  span := default
  comment := none

variable {t u : Token}

theorem Alike.plain_eq (h : Alike t u) : t.plain = u.plain := by
  obtain ⟨hk, htext⟩ := h
  unfold plain
  rw [hk] at htext ⊢
  rcases htext with htext | ⟨hname, hfold⟩
  · rw [htext]
  · rw [if_pos hname, if_pos hname, hfold]

@[simp]
theorem kind_plain (t : Token) : t.plain.kind = t.kind :=
  rfl

@[simp]
theorem foldCase_text_plain (t : Token) : foldCase t.plain.text = foldCase t.text := by
  unfold plain
  split_ifs
  · exact foldCase_foldCase t.text
  · rfl

@[simp]
theorem name_plain (t : Token) : t.plain.name = t.name :=
  t.foldCase_text_plain

theorem plain_plain (t : Token) : t.plain.plain = t.plain := by
  unfold plain
  split_ifs
  · rw [foldCase_foldCase]
  · rfl

theorem text_plain (h : t.kind ≠ .identifier) : t.plain.text = t.text :=
  if_neg h

@[simp]
theorem stringValue_plain (t : Token) : t.plain.stringValue = t.stringValue := by
  unfold stringValue
  rw [kind_plain]
  by_cases hk : t.kind = .identifier
  · simp [hk]
  · rw [text_plain hk]

end Token

/-- The diagnostic without its place, with the case of its message folded. -/
def Diagnostic.plain (d : Diagnostic) : Diagnostic :=
  { d with span := default, message := foldCase d.message }

/-- The entry about tokens and diagnostics in their plain form. -/
def Entry.plain : Entry → Entry
  | diagnostic d => diagnostic d.plain
  | usage t assigned => usage t.plain assigned
  | definition name t => definition name t.plain

/-- The variable with its tokens in their plain form, which have no comments. -/
def Variable.plain (v : Variable) : Variable :=
  ⟨v.name, v.usages.map Token.plain, v.definitions.map Token.plain, v.comments.map fun _ => none⟩

/-- The expression without places and comments, with the case of names folded. -/
def Expr.plain (e : Expr) : Expr :=
  e.map Token.plain fun _ => default

/-- The script without places and comments, with the case of names folded. -/
def Script.plain (s : Script) : Script :=
  s.map Token.plain fun _ => default

/-- The complaint about a name quotes it as written. -/
theorem Token.plain_unexpected {t u : Token} (h : t.plain = u.plain) (expected : String) :
    (t.unexpected expected).plain = (u.unexpected expected).plain := by
  have hk : t.kind = u.kind := by rw [← t.kind_plain, h, u.kind_plain]
  have htext : foldCase t.text = foldCase u.text := by
    rw [← t.foldCase_text_plain, h, u.foldCase_text_plain]
  unfold unexpected Diagnostic.plain Diagnostic.ofSyntax Diagnostic.error
  simp only [Diagnostic.mk.injEq, true_and]
  rw [hk]
  cases hu : u.kind with
  | invalid =>
    have hsame : t.text = u.text := by
      rw [← text_plain (t := t) (by simp [hk, hu]), h, text_plain (by simp [hu])]
    simp only [invalidReason, hsame]
  | endOfInput => rfl
  | _ => simp only [foldCase_append, htext]

/-- Runs are compared in plain form. -/
def Likeness.plain : Likeness where
  token := Token.plain
  span := fun _ => default
  diagnostic := Diagnostic.plain
  Journals := fun i j => i.aborted = j.aborted ∧ i.surveyed = j.surveyed ∧
    i.entries.toList.map Entry.plain = j.entries.toList.map Entry.plain
  kind_token := Token.kind_plain
  name_token := Token.name_plain
  text_token := fun _ => Token.text_plain
  span_token := fun _ => rfl
  span_through := fun _ _ => rfl
  span_diagnostic := fun _ => rfl
  diagnostic_unexpected := fun expected h => Token.plain_unexpected h expected
  aborted_eq := fun h => h.1
  usage := fun assigned h ht => ⟨h.1, h.2.1, by simp [h.2.2, Entry.plain, ht]⟩
  report := fun h hd => ⟨h.1, h.2.1, by simp [h.2.2, Entry.plain, hd]⟩
  repaired := fun h hd => ⟨h.1, h.2.1, by simp [h.2.2, Entry.plain, hd]⟩
  abort := fun h => ⟨rfl, h.2⟩

/-! ## Literals -/

section

variable (f : Token → Token) (g : Span → Span)

theorem mapExprs_eq (es : List Expr) : mapExprs f g es = es.map (Expr.map f g) := by
  induction es with
  | nil => rfl
  | cons e es ih => rw [mapExprs, List.map_cons, ih]

namespace Expr

theorem bare_map : ∀ e : Expr, (e.map f g).bare = e.bare.map f g
  | paren inner _ => bare_map inner
  | number _ | string _ | reference _ | expansion _ _ | array _ _ | code _ _ | nullary _
  | unary _ _ | binary _ _ _ | dangling _ _ | invalid _ => rfl

theorem elements?_map (e : Expr) :
    (e.map f g).elements? = e.elements?.map (List.map (Expr.map f g)) := by
  unfold elements?
  rw [bare_map]
  cases e.bare <;> simp [Expr.map, mapExprs_eq]

theorem stringToken?_map (e : Expr) : (e.map f g).stringToken? = e.stringToken?.map f := by
  unfold stringToken?
  rw [bare_map]
  cases e.bare <;> rfl

theorem literalType_map (e : Expr) : (e.map f g).literalType = e.literalType := by
  unfold literalType
  rw [bare_map]
  cases e.bare <;> rfl

end Expr

end

/-! ## Checks of applications -/

/-- The operand in its plain form. -/
def Operand.plain (o : Operand) : Operand :=
  ⟨o.type, o.expr.plain⟩

/-- The application with its command and its operands in their plain form. -/
def Application.plain (a : Application) : Application :=
  ⟨a.op.plain, a.left.map Operand.plain, a.right.map Operand.plain⟩

@[simp]
theorem Operand.type_plain (o : Operand) : o.plain.type = o.type :=
  rfl

@[simp]
theorem Operand.mayBe_plain (o : Operand) (wanted : OperandType) :
    o.plain.mayBe wanted = o.mayBe wanted :=
  rfl

/-- Complaints that say the same are the same in their plain form, wherever they are. -/
theorem Entry.map_plain_typeMismatch {span span' : Span} {message message' : String}
    (h : foldCase message = foldCase message') :
    [Entry.typeMismatch span message].map plain =
      [Entry.typeMismatch span' message'].map plain := by
  simp [typeMismatch, plain, Diagnostic.plain, Diagnostic.error, h]

@[simp]
theorem Application.op_plain (a : Application) : a.plain.op = a.op.plain :=
  rfl

theorem Entry.map_plain_unless (p : Bool) {span span' : Span} {message message' : String}
    (h : foldCase message = foldCase message') :
    (if p then [] else [Entry.typeMismatch span message]).map plain =
      (if p then [] else [Entry.typeMismatch span' message']).map plain := by
  split_ifs
  · rfl
  · exact map_plain_typeMismatch h

namespace Application

variable (a : Application)

theorem arity_plain : a.plain.arity = a.arity := by
  rcases a with ⟨op, _ | l, _ | r⟩ <;> rfl

theorem arityMessage_plain (o : Overloads) :
    foldCase (a.plain.arityMessage o) = foldCase (a.arityMessage o) := by
  have hright : a.plain.right.isNone = a.right.isNone := by
    cases h : a.right <;> simp [plain, h]
  unfold arityMessage
  rw [arity_plain, hright]
  cases a.arity with
  | nullary => dsimp only; split_ifs <;> simp [plain, foldCase_append]
  | unary => dsimp only; split_ifs <;> simp [plain, foldCase_append]
  | binary => dsimp only; split_ifs <;> simp [plain, foldCase_append]

theorem arityComplaint_plain (o : Overloads) :
    (a.plain.arityComplaint o).map Diagnostic.plain =
      (a.arityComplaint o).map Diagnostic.plain := by
  have hfits : a.plain.fits o = a.fits o := by
    unfold fits
    rw [arity_plain]
    cases h : a.right <;> simp [plain, h]
  unfold arityComplaint
  rw [hfits]
  split_ifs
  · rfl
  · simp [Diagnostic.plain, Diagnostic.error, arityMessage_plain]

end Application

namespace Operator

variable (a : Application)

theorem checkSide_plain (types : TypeSet) (side : String) (op : Token) (o : Option Operand) :
    (checkSide types side op.plain (o.map Operand.plain)).map Entry.plain =
      (checkSide types side op o).map Entry.plain := by
  cases o with
  | none => rfl
  | some o =>
    exact Entry.map_plain_unless (types.accepts o.type)
      (by unfold sideMessage; simp [foldCase_append])

theorem checkTypes_plain (o : Operator) :
    (o.checkTypes a.plain).map Entry.plain = (o.checkTypes a).map Entry.plain := by
  simp only [checkTypes, Application.plain, List.map_append, checkSide_plain]

theorem checkCondition_plain :
    (checkCondition a.plain).map Entry.plain = (checkCondition a).map Entry.plain := by
  rcases a with ⟨op, l, _ | r⟩
  · rfl
  · exact Entry.map_plain_unless (r.mayBe .boolean)
      (by unfold conditionMessage; simp [foldCase_append])

theorem checkFollows_plain :
    (checkFollows a.plain).map Entry.plain = (checkFollows a).map Entry.plain := by
  rcases a with ⟨op, _ | l, r⟩
  · rfl
  · exact Entry.map_plain_unless (l.mayBe .ifType)
      (by unfold followsMessage; simp [foldCase_append])

theorem checkBranch_plain (op : Token) (branch : Expr) :
    (checkBranch op.plain branch.plain).map Entry.plain =
      (checkBranch op branch).map Entry.plain := by
  unfold checkBranch
  rw [Expr.plain, Expr.literalType_map]
  split_ifs
  · rfl
  · exact Entry.map_plain_typeMismatch
      (by simp only [branchMessage, foldCase_append, Token.foldCase_text_plain])

theorem checkBranches_plain (op : Token) (body : Operand) :
    (checkBranches op.plain body.plain).map Entry.plain =
      (checkBranches op body).map Entry.plain := by
  unfold checkBranches
  rw [Operand.plain, Expr.plain, Expr.elements?_map]
  cases body.expr.elements? with
  | none => rfl
  | some branches =>
    simp only [Option.map_some, List.isEmpty_map, List.length_map]
    split_ifs
    · exact Entry.map_plain_typeMismatch
        (by simp only [branchesMessage, foldCase_append, Token.foldCase_text_plain])
    · rw [List.flatMap_map, List.map_flatMap, List.map_flatMap]
      exact congrArg (List.flatMap · branches) (funext (checkBranch_plain op))

theorem checkThen_plain :
    (checkThen a.plain).map Entry.plain = (checkThen a).map Entry.plain := by
  rw [checkThen, checkThen, List.map_append, List.map_append, checkFollows_plain]
  rcases a with ⟨op, l, _ | r⟩
  · rfl
  · congr 1
    simp only [Application.plain, Option.map_some]
    rw [Operand.type_plain]
    cases r.type with
    | code => rfl
    | any => rfl
    | array => exact checkBranches_plain op r
    | _ =>
      exact Entry.map_plain_typeMismatch
        (by simp only [thenMessage, foldCase_append, Token.foldCase_text_plain])

theorem checkLeave_plain :
    (checkLeave a.plain).map Entry.plain = (checkLeave a).map Entry.plain := by
  rw [checkLeave, checkLeave, List.map_append, List.map_append, checkFollows_plain]
  rcases a with ⟨op, l, _ | r⟩
  · rfl
  · congr 1
    exact Entry.map_plain_unless (r.mayBe .code)
      (by unfold leaveMessage; simp [foldCase_append])

theorem parameterName_plain (t : Token) :
    (parameterName t.plain).map Entry.plain = (parameterName t).map Entry.plain := by
  unfold parameterName
  rw [Token.stringValue_plain]
  cases t.stringValue with
  | none => rfl
  | some name =>
    dsimp only
    split_ifs
    · rfl
    · exact congrArg (fun u => [Entry.definition name u]) (Token.plain_plain t)
    · rfl

/-- The case of names is only folded in names, so what an element of a list of parameters names
is the same in its plain form. -/
theorem parameter_plain (e : Expr) :
    (parameter e.plain).map Entry.plain = (parameter e).map Entry.plain := by
  unfold parameter
  rw [Expr.plain, Expr.bare_map]
  cases e.bare with
  | string t => exact parameterName_plain t
  | array elements span =>
    simp only [Expr.map, mapExprs_eq, List.head?_map, Option.map_map]
    cases elements.head? with
    | none => rfl
    | some first =>
      simp only [Option.map_some, Function.comp_apply, Expr.bare_map]
      cases first.bare with
      | string t => exact parameterName_plain t
      | _ => rfl
  | _ => rfl

theorem checkParameters_plain :
    (checkParameters a.plain).map Entry.plain = (checkParameters a).map Entry.plain := by
  rcases a with ⟨op, l, _ | r⟩
  · rfl
  · unfold checkParameters
    simp only [Application.plain, Option.map_some, Option.bind_some, Operand.plain, Expr.plain,
      Expr.elements?_map]
    cases r.expr.elements? with
    | none => rfl
    | some list =>
      simp only [Option.map_some, List.flatMap_map, List.map_flatMap]
      exact congrArg (List.flatMap · list) (funext parameter_plain)

theorem checkFile_plain (paths : Option PathCheck) :
    (checkFile paths a.plain).map Entry.plain = (checkFile paths a).map Entry.plain := by
  rcases a with ⟨op, l, _ | r⟩
  · cases paths <;> rfl
  · cases paths with
    | none => rfl
    | some check =>
      have hstring : r.plain.expr.stringToken?.bind Token.stringValue =
          r.expr.stringToken?.bind Token.stringValue := by
        rw [Operand.plain, Expr.plain, Expr.stringToken?_map]
        cases r.expr.stringToken? with
        | none => rfl
        | some t => exact t.stringValue_plain
      simp only [checkFile, Application.plain, Option.map_some]
      rw [hstring]
      cases r.expr.stringToken?.bind Token.stringValue with
      | none => rfl
      | some written =>
        dsimp only
        split_ifs <;> rfl

/-- What the rule of a command says is the same about the plain form of an application. -/
theorem check_plain (o : Operator) (paths : Option PathCheck) :
    (o.check paths a.plain).map Entry.plain = (o.check paths a).map Entry.plain := by
  unfold check
  cases o.rule with
  | types => exact checkTypes_plain a o
  | condition => exact checkCondition_plain a
  | branches => exact checkThen_plain a
  | leaves => exact checkLeave_plain a
  | parameters =>
    simp only [List.map_append, checkTypes_plain, checkParameters_plain]
  | loader => simp only [List.map_append, checkTypes_plain, checkFile_plain]

end Operator

/-! ## The walk -/

theorem loopCounter_plain (a : Application) :
    (loopCounter a.plain).map Entry.plain = (loopCounter a).map Entry.plain := by
  have hleft : a.plain.left.isNone = a.left.isNone := by
    cases h : a.left <;> simp [Application.plain, h]
  have hstring : a.plain.right.bind (·.expr.stringToken?) =
      (a.right.bind (·.expr.stringToken?)).map Token.plain := by
    cases h : a.right with
    | none => simp [Application.plain, h]
    | some r => simp [Application.plain, h, Operand.plain, Expr.plain, Expr.stringToken?_map]
  unfold loopCounter
  rw [hstring, hleft, Application.op_plain, Token.name_plain]
  split_ifs
  · cases a.right.bind (·.expr.stringToken?) with
    | none => rfl
    | some t =>
      simp only [Option.map_some, Token.stringValue_plain]
      cases t.stringValue with
      | none => rfl
      | some name =>
        dsimp only
        split_ifs
        · exact congrArg (fun u => [Entry.definition name u]) (Token.plain_plain t)
        · rfl
  · rfl

/-- The type with what was found in its plain form. -/
def Typed.plain (t : Typed) : Typed :=
  ⟨t.type, t.entries.map Entry.plain⟩

namespace Checker

variable (c : Checker) (a : Application)

theorem checkApplication_plain :
    (c.checkApplication a.plain).map Entry.plain = (c.checkApplication a).map Entry.plain := by
  unfold checkApplication
  rw [Application.op_plain, Token.name_plain]
  have harity : ((c.catalogue.command? a.op.name).bind a.plain.arityComplaint).map
        Diagnostic.plain =
      ((c.catalogue.command? a.op.name).bind a.arityComplaint).map Diagnostic.plain := by
    cases c.catalogue.command? a.op.name with
    | none => rfl
    | some o => exact a.arityComplaint_plain o
  revert harity
  generalize (c.catalogue.command? a.op.name).bind a.plain.arityComplaint = complaint,
    (c.catalogue.command? a.op.name).bind a.arityComplaint = complaint'
  intro harity
  cases complaint with
  | some d =>
    cases complaint' with
    | none => cases harity
    | some d' => exact congrArg (fun d => [Entry.diagnostic d]) (Option.some.inj harity)
  | none =>
    cases complaint' with
    | some d' => cases harity
    | none =>
      rw [List.map_append, List.map_append, loopCounter_plain]
      congr 1
      cases c.catalogue.operator? a.op.name with
      | none => rfl
      | some operator => exact Operator.check_plain a operator c.paths

theorem applied_plain : (c.applied a.plain).plain = (c.applied a).plain := by
  have htypes : ∀ o : Option Operand,
      (o.map Operand.plain).map Operand.type = o.map Operand.type := by
    rintro (_ | o) <;> rfl
  simp only [applied, Typed.plain, checkApplication_plain, Application.op_plain,
    Token.name_plain]
  simp only [Application.plain, htypes]

end Checker

theorem Typed.plain_eq {t u : Typed} : t.plain = u.plain ↔
    t.type = u.type ∧ t.entries.map Entry.plain = u.entries.map Entry.plain := by
  rw [plain, plain, Typed.mk.injEq]

theorem Typed.plain_after (t : Typed) (entries : List Entry) :
    (t.after entries).plain = t.plain.after (entries.map Entry.plain) := by
  simp [Typed.after, Typed.plain]

section

variable (c : Checker)

mutual

/-- An expression has the type that its plain form has, and the same is found in it. -/
theorem Expr.typed_plain : ∀ e : Expr, (e.plain.typed c).plain = (e.typed c).plain
  | .number _ | .string _ | .reference _ | .expansion _ _ | .invalid _ => rfl
  | .array elements _ => congrArg (Typed.mk .array) (entriesOfExprs_plain elements)
  | .code body _ => congrArg (Typed.mk .code) (entriesOfStatements_plain body)
  | .paren inner _ => inner.typed_plain
  | .nullary op => c.applied_plain ⟨op, none, none⟩
  | .unary op right => by
    obtain ⟨htype, hentries⟩ := Typed.plain_eq.1 right.typed_plain
    show ((c.applied ⟨op.plain, none, some ⟨(right.plain.typed c).type, right.plain⟩⟩).after
      (right.plain.typed c).entries).plain = _
    rw [Expr.typed, Typed.plain_after, Typed.plain_after, htype, hentries]
    exact congrArg (Typed.after · _) (c.applied_plain ⟨op, none, some ⟨_, right⟩⟩)
  | .binary left op right => by
    obtain ⟨hleft, hentries⟩ := Typed.plain_eq.1 left.typed_plain
    obtain ⟨hright, hentries'⟩ := Typed.plain_eq.1 right.typed_plain
    show ((c.applied ⟨op.plain, some ⟨(left.plain.typed c).type, left.plain⟩,
      some ⟨(right.plain.typed c).type, right.plain⟩⟩).after
      ((left.plain.typed c).entries ++ (right.plain.typed c).entries)).plain = _
    rw [Expr.typed, Typed.plain_after, Typed.plain_after, List.map_append, List.map_append, hleft,
      hright, hentries, hentries']
    exact congrArg (Typed.after · _) (c.applied_plain ⟨op, some ⟨_, left⟩, some ⟨_, right⟩⟩)
  | .dangling left op => by
    obtain ⟨htype, hentries⟩ := Typed.plain_eq.1 left.typed_plain
    show ((c.applied ⟨op.plain, some ⟨(left.plain.typed c).type, left.plain⟩, none⟩).after
      (left.plain.typed c).entries).plain = _
    rw [Expr.typed, Typed.plain_after, Typed.plain_after, htype, hentries]
    exact congrArg (Typed.after · _) (c.applied_plain ⟨op, some ⟨_, left⟩, none⟩)

theorem entriesOfExprs_plain : ∀ es : List Expr,
    (entriesOfExprs c (mapExprs Token.plain (fun _ => default) es)).map Entry.plain =
      (entriesOfExprs c es).map Entry.plain
  | [] => rfl
  | e :: es => by
    have he := congrArg Typed.entries e.typed_plain
    have hes := entriesOfExprs_plain es
    rw [mapExprs, entriesOfExprs, entriesOfExprs, List.map_append, List.map_append, hes]
    exact congrArg (· ++ _) he

theorem Statement.entries_plain : ∀ s : Statement,
    ((s.map Token.plain fun _ => default).entries c).map Entry.plain =
      (s.entries c).map Entry.plain
  | .assignment _ _ value => congrArg Typed.entries value.typed_plain
  | .expression value => congrArg Typed.entries value.typed_plain

theorem entriesOfStatements_plain : ∀ ss : List Statement,
    (entriesOfStatements c (mapStatements Token.plain (fun _ => default) ss)).map Entry.plain =
      (entriesOfStatements c ss).map Entry.plain
  | [] => rfl
  | s :: ss => by
    have hs := s.entries_plain
    have hss := entriesOfStatements_plain ss
    rw [mapStatements, entriesOfStatements, entriesOfStatements, List.map_append,
      List.map_append, hs, hss]

end

end

/-! ## Variables -/

namespace VariableTable

/-- The table with the tokens of its variables in their plain form. -/
def plain (table : VariableTable) : VariableTable :=
  ⟨table.byName.map (Prod.map id Variable.plain)⟩

theorem records_plain (table : VariableTable) :
    table.plain.records = table.records.map Variable.plain := by
  simp [plain, records]

theorem map_plain_updateRecords {name : String} {change change' : Variable → Variable}
    (h : ∀ v, (change v).plain = change' v.plain) : ∀ vs : List (String × Variable),
      (updateRecords name change vs).map (Prod.map id Variable.plain) =
        updateRecords name change' (vs.map (Prod.map id Variable.plain))
  | [] => congrArg (fun v => [(name, v)]) (h { name })
  | (key, v) :: vs => by
    rw [updateRecords, List.map_cons, Prod.map, id, updateRecords]
    split_ifs
    · rw [List.map_cons, Prod.map, id, h]
    · rw [List.map_cons, Prod.map, id, map_plain_updateRecords h vs]

/-- One more entry, then plain, is plain, then one more entry. -/
theorem plain_record (table : VariableTable) (e : Entry) :
    (table.record e).plain = table.plain.record e.plain := by
  have husage : ∀ t v, (Variable.addUsage t v).plain = Variable.addUsage t.plain v.plain := by
    simp [Variable.addUsage, Variable.plain]
  have hdefinition : ∀ t v,
      (Variable.addDefinition t v).plain = Variable.addDefinition t.plain v.plain := by
    simp [Variable.addDefinition, Variable.plain, Token.plain]
  rcases e with d | ⟨t, _ | _⟩ | ⟨name, t⟩
  · rfl
  · simp only [record, Entry.plain, Token.name_plain]
    exact congrArg mk (map_plain_updateRecords (husage t) _)
  · simp only [record, Entry.plain, Token.name_plain]
    refine congrArg mk (map_plain_updateRecords (fun v => ?_) _)
    rw [hdefinition, husage]
  · exact congrArg mk (map_plain_updateRecords (hdefinition t) _)

theorem plain_foldl_record : ∀ (es : List Entry) (table : VariableTable),
    (es.foldl record table).plain = (es.map Entry.plain).foldl record table.plain
  | [], _ => rfl
  | e :: es, table => by
    rw [List.foldl_cons, List.map_cons, List.foldl_cons, plain_foldl_record es, plain_record]

end VariableTable

/-- The uses that are reported are the same up to places and case. -/
theorem undefinedLocals_plain (ledger : Ledger) (table : VariableTable) :
    (undefinedLocals ledger table.plain).map Diagnostic.plain =
      (undefinedLocals ledger table).map Diagnostic.plain := by
  have huse : ∀ t : Token,
      (Diagnostic.warning .undefinedLocal t.plain.span
        ("Possibly undefined variable " ++ t.plain.text)).plain =
      (Diagnostic.warning .undefinedLocal t.span
        ("Possibly undefined variable " ++ t.text)).plain := by
    intro t
    simp [Diagnostic.warning, Diagnostic.plain, foldCase_append]
  unfold undefinedLocals
  rw [VariableTable.records_plain, List.filter_map, List.flatMap_map, List.map_flatMap,
    List.map_flatMap]
  have hkeep : (fun v : Variable => v.isLocal && v.definitions.isEmpty && !ledger.contains v.name) ∘
      Variable.plain = fun v => v.isLocal && v.definitions.isEmpty && !ledger.contains v.name := by
    funext v
    simp [Variable.plain, Variable.isLocal]
  rw [hkeep]
  refine congrArg (List.flatMap · _) (funext fun v => ?_)
  simp only [Variable.plain, List.map_map, Function.comp_def, huse]

namespace Likeness

open Journal

variable {i j : Journal} (h : plain.Journals i j)
include h

theorem table_plain_eq : i.table.plain = j.table.plain := by
  rw [table_eq_foldl, table_eq_foldl, VariableTable.plain_foldl_record,
    VariableTable.plain_foldl_record, h.2.2]

theorem writeAll_plain {es fs : List Entry} (hes : es.map Entry.plain = fs.map Entry.plain) :
    plain.Journals (i.writeAll es) (j.writeAll fs) := by
  refine ⟨?_, ?_, ?_⟩
  · rw [aborted_writeAll, aborted_writeAll, h.1]
  · rw [surveyed_writeAll, surveyed_writeAll, h.2.1]
  · simp only [toList_entries_writeAll, List.map_append, h.2.2, hes]

theorem survey_plain (options : Options) (ledger : Ledger) :
    plain.Journals (i.survey options ledger) (j.survey options ledger) := by
  have hmarked : plain.Journals { i with surveyed := true } { j with surveyed := true } :=
    ⟨h.1, rfl, h.2.2⟩
  have hfound : (undefinedLocals ledger i.table).map Diagnostic.plain =
      (undefinedLocals ledger j.table).map Diagnostic.plain := by
    rw [← undefinedLocals_plain, table_plain_eq h, undefinedLocals_plain]
  unfold survey
  rw [h.2.1]
  split_ifs
  · exact h
  · exact hmarked
  · refine writeAll_plain hmarked ?_
    have hraised := congrArg (List.map (Entry.diagnostic ∘ Diagnostic.escalate)) hfound
    simp only [List.map_map] at hraised ⊢
    exact hraised
  · refine writeAll_plain hmarked ?_
    have hentries := congrArg (List.map Entry.diagnostic) hfound
    simp only [List.map_map] at hentries ⊢
    exact hentries

theorem diagnostics_plain_eq :
    i.diagnostics.map Diagnostic.plain = j.diagnostics.map Diagnostic.plain := by
  have hcommute : ∀ es : List Entry, (es.filterMap Entry.diagnostic?).map Diagnostic.plain =
      (es.map Entry.plain).filterMap Entry.diagnostic? := by
    intro es
    rw [List.map_filterMap, List.filterMap_map]
    congr 1
    funext e
    cases e <;> rfl
  rw [diagnostics_eq_filterMap, diagnostics_eq_filterMap, hcommute, hcommute, h.2.2]

end Likeness

/-! ## Runs -/

namespace Cursor

theorem map_plain_completed {ts us : List Token} (h : List.Forall₂ Token.Alike ts us) :
    ∀ {last last' : Token}, last.Alike last' →
      (completed last ts).map Token.plain = (completed last' us).map Token.plain := by
  induction h with
  | nil =>
    intro last last' hlast
    rw [completed, completed, hlast.1]
    split_ifs
    · rfl
    · rfl
  | cons htu _ ih =>
    intro last last' _
    rw [completed, completed, List.map_cons, List.map_cons, htu.plain_eq, ih htu]

theorem map_plain_ofTokens {ts us : List Token} (h : List.Forall₂ Token.Alike ts us) :
    (ofTokens ts).map Token.plain = (ofTokens us).map Token.plain := by
  cases h with
  | nil => rfl
  | cons htu h => exact congrArg₂ Cursor.mk htu.plain_eq (map_plain_completed h htu)

end Cursor

/-- What a diagnostic says, wherever it is and up to case. -/
def Diagnostic.verdict (d : Diagnostic) : DiagnosticKind × Severity × String :=
  (d.kind, d.severity, foldCase d.message)

/-- Runs over tokens that are alike write down the same in plain form. -/
theorem Likeness.lintTokens_plain (catalogue : Catalogue) (options : Options) (files : Files)
    (ledger : Ledger) {ts us : List Token} (h : List.Forall₂ Token.Alike ts us) :
    plain.Journals (lintTokens catalogue options files ledger ts)
      (lintTokens catalogue options files ledger us) := by
  obtain ⟨htree, hjournal⟩ := Script.alike_read plain ⟨catalogue, ledger⟩ options.stopOnError
    (Cursor.map_plain_ofTokens h) (i := {}) (j := {}) ⟨rfl, rfl, rfl⟩
  unfold lintTokens
  simp only [Run.journal_walk]
  revert htree hjournal
  generalize Script.read ⟨catalogue, ledger⟩ options.stopOnError ts {} = r,
    Script.read ⟨catalogue, ledger⟩ options.stopOnError us {} = r'
  intro htree hjournal
  rcases r with ⟨d | script, i⟩ <;> rcases r' with ⟨d' | script', j⟩
  · exact hjournal
  · cases htree
  · cases htree
  · have hstatements := congrArg Script.statements (Except.ok.inj htree)
    refine survey_plain (writeAll_plain hjournal ?_) options ledger
    rw [← entriesOfStatements_plain, ← entriesOfStatements_plain _ script'.statements]
    exact congrArg (fun ss => (entriesOfStatements _ ss).map Entry.plain) hstatements

/-- Layout and the case of names have no influence. Two lists of tokens of the same kinds and
texts, where names may differ in case and where places and comments are arbitrary, make trees that
are equal in plain form or fail in the same way, and the runs over them say the same in their
errors and in their warnings, are both aborted or both not, and meet the same variables in the
same order, with as many uses and definitions. -/
theorem lintTokens_layout (catalogue : Catalogue) (options : Options) (files : Files)
    (ledger : Ledger) {ts us : List Token} (h : List.Forall₂ Token.Alike ts us) :
    let tree (tokens : List Token) :=
      ((Script.read ⟨catalogue, ledger⟩ options.stopOnError tokens {}).1.map Script.plain).mapError
        Diagnostic.plain
    let run := lintTokens catalogue options files ledger
    tree ts = tree us ∧
      (run ts).errors.map Diagnostic.verdict = (run us).errors.map Diagnostic.verdict ∧
      (run ts).warnings.map Diagnostic.verdict = (run us).warnings.map Diagnostic.verdict ∧
      (run ts).aborted = (run us).aborted ∧
      (run ts).table.records.map (fun v => (v.name, v.usages.length, v.definitions.length)) =
        (run us).table.records.map (fun v => (v.name, v.usages.length, v.definitions.length)) := by
  intro tree run
  have hrun : Likeness.plain.Journals (run ts) (run us) :=
    Likeness.lintTokens_plain catalogue options files ledger h
  have hdiagnostics := Likeness.diagnostics_plain_eq hrun
  -- A selection by severity is made in plain form as well.
  have hselect : ∀ (p : Diagnostic → Bool), (∀ d, p d.plain = p d) →
      ((run ts).diagnostics.filter p).map Diagnostic.verdict =
        ((run us).diagnostics.filter p).map Diagnostic.verdict := by
    intro p hp
    have hverdict : ∀ ds : List Diagnostic, (ds.filter p).map Diagnostic.verdict =
        ((ds.map Diagnostic.plain).filter p).map fun d => (d.kind, d.severity, d.message) := by
      intro ds
      rw [List.filter_map, List.map_map, show p ∘ Diagnostic.plain = p from funext hp]
      rfl
    rw [hverdict, hdiagnostics, hverdict]
  refine ⟨?_, hselect Diagnostic.isError fun _ => rfl, hselect (!·.isError) fun _ => rfl, hrun.1,
    ?_⟩
  · exact (Script.alike_read Likeness.plain ⟨catalogue, ledger⟩ options.stopOnError
      (Cursor.map_plain_ofTokens h) ⟨rfl, rfl, rfl⟩).1
  · have htable := congrArg VariableTable.records (Likeness.table_plain_eq hrun)
    rw [VariableTable.records_plain, VariableTable.records_plain] at htable
    have hcounts := congrArg
      (List.map fun v : Variable => (v.name, v.usages.length, v.definitions.length)) htable
    simpa [Variable.plain, Function.comp_def] using hcounts

/-- A parameter, an assignment, a command with an operand of the wrong type and a variable that
is defined nowhere, written in two ways. -/
theorem lintTokens_layout_spelling :
    let catalogue := Catalogue.ofLines
      [⟨"params", .unary, [], [.array]⟩, ⟨"sleep", .unary, [], [.number]⟩]
    let ts := Token.scan "params ['_A'];\n_b = _a; // so far\nsleep '1'; _Missing + _B"
    let us := Token.scan "PARAMS['_A'];_B=_A;SLEEP '1';/* and on */_MISSING+_b"
    let run := lintTokens catalogue {} (.memory []) {}
    List.Forall₂ Token.Alike ts us ∧ ts ≠ us ∧
      (run ts).warnings.map Diagnostic.verdict =
        [(.undefinedLocal, .warning, "possibly undefined variable _missing")] ∧
      (run ts).errors.map Diagnostic.verdict = (run us).errors.map Diagnostic.verdict ∧
      (run ts).warnings.map Diagnostic.verdict = (run us).warnings.map Diagnostic.verdict := by
  intro catalogue ts us run
  have halike : List.Forall₂ Token.Alike ts us := by
    decide +kernel
  obtain ⟨-, herrors, hwarnings, -⟩ := lintTokens_layout catalogue {} (.memory []) {} halike
  exact ⟨halike, by decide +kernel, by decide +kernel, herrors, hwarnings⟩

end SqfCheck
