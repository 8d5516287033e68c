import SqfCheck.Proofs.Declared
import SqfCheck.Proofs.Reading
import SqfCheck.Proofs.Stages

/-!
# Variables without a definition

The warnings of a run are, for each use of a local variable that nothing in the script defines,
one warning at that use (`warnings_lint`). What uses a variable and what defines it is said of the
tokens and the tree (`Vocabulary.undefinedUses`) : a name outside the argument lists of macros is
a use, a sign of assignment directly after such a name is a definition, and so is a node that
declares the variable.

The table of variables is read off the journal, so the uses it reports are those of the journal
whose names have no definition in it, grouped by name (`undefinedLocals_table`). What the journal
holds after reading and after the walk over the tree is known from `entries_of_read` and
`exists_defines_entriesOfStatements`.
-/

namespace SqfCheck

/-! ## Groups -/

/-- The tokens grouped by name. A group stands where its name first appears. -/
def groupedByName (ts : List Token) : List Token :=
  (ts.map Token.name).eraseDups.flatMap fun name => ts.filter (·.name = name)

theorem groupedByName_cons (t : Token) (ts : List Token) :
    groupedByName (t :: ts) =
      (t :: ts).filter (·.name = t.name) ++ groupedByName (ts.filter (·.name ≠ t.name)) := by
  have hnames : (ts.map Token.name).filter (fun n => !n == t.name) =
      (ts.filter (·.name ≠ t.name)).map Token.name := by
    rw [List.filter_map]
    congr 1
    refine List.filter_congr fun u _ => ?_
    rw [Bool.eq_iff_iff]
    simp
  unfold groupedByName
  rw [List.map_cons, List.eraseDups_cons, List.flatMap_cons, hnames]
  congr 1
  refine List.flatMap_congr fun n hn => ?_
  obtain ⟨u, hu, rfl⟩ := List.mem_map.1 (List.mem_eraseDups.1 hn)
  have hne : u.name ≠ t.name := by simpa using (List.mem_filter.1 hu).2
  rw [List.filter_cons_of_neg (by simpa using Ne.symm hne), List.filter_filter]
  refine List.filter_congr fun w _ => ?_
  rw [Bool.eq_iff_iff]
  simp only [decide_eq_true_eq, Bool.and_eq_true]
  exact ⟨fun hw => ⟨hw, hw ▸ hne⟩, fun hw => hw.1⟩

/-- Grouping keeps all tokens. -/
theorem perm_groupedByName (ts : List Token) : (groupedByName ts).Perm ts := by
  induction hn : ts.length using Nat.strongRecOn generalizing ts with
  | ind n ih =>
    cases ts with
    | nil => exact .refl _
    | cons t ts =>
      have hlt : (ts.filter (·.name ≠ t.name)).length < n := by
        rw [← hn]
        exact Nat.lt_succ_of_le (List.length_filter_le _ _)
      have hrest : (t :: ts).filter (fun u => !decide (u.name = t.name)) =
          ts.filter (·.name ≠ t.name) := by
        rw [List.filter_cons_of_neg (by simp)]
        simp
      rw [groupedByName_cons]
      refine ((ih _ hlt _ rfl).append_left _).trans ?_
      rw [← hrest]
      exact List.filter_append_perm _ _

/-! ## Uses in a journal -/

/-- The warning about a use of a variable without a definition. -/
def undefinedWarning (t : Token) : Diagnostic :=
  .warning .undefinedLocal t.span ("Possibly undefined variable " ++ t.text)

/-- Whether the entries define no variable of this name, which is one of a local variable and of
no macro. -/
def lacksDefinition (ledger : Ledger) (es : List Entry) (name : String) : Bool :=
  isLocalName name && (es.filterMap (Entry.definitionOf? name)).isEmpty && !ledger.contains name

/-- A name that has no definition is the name of a use. -/
theorem filter_lacksDefinition (ledger : Ledger) (es : List Entry) :
    (es.filterMap Entry.name?).filter (lacksDefinition ledger es) =
      ((es.filterMap Entry.usage?).filter fun t => lacksDefinition ledger es t.name).map
        Token.name := by
  rw [List.filter_filterMap, List.filter_filterMap, List.map_filterMap]
  refine List.filterMap_congr fun e he => ?_
  cases e with
  | diagnostic d => rfl
  | usage t assigned =>
    simp only [Entry.name?, Entry.usage?, Option.filter_some]
    split_ifs <;> rfl
  | definition written t =>
    have hlacks : lacksDefinition ledger es (foldCase written) = false := by
      have hne : es.filterMap (Entry.definitionOf? (foldCase written)) ≠ [] :=
        List.ne_nil_of_mem (List.mem_filterMap.2 ⟨_, he, if_pos rfl⟩)
      simp [lacksDefinition, hne]
    simp [Entry.name?, Entry.usage?, hlacks]

/-- The uses that are reported are those in the journal without a definition in it. -/
theorem undefinedLocals_table (ledger : Ledger) (j : Journal) :
    undefinedLocals ledger j.table =
      (groupedByName ((j.entries.toList.filterMap Entry.usage?).filter fun t =>
        lacksDefinition ledger j.entries.toList t.name)).map undefinedWarning := by
  generalize hes : j.entries.toList = es
  unfold undefinedLocals groupedByName
  rw [Journal.records_table, hes, List.filter_map, List.flatMap_map, ← filter_lacksDefinition,
    ← filter_eraseDups, List.map_flatMap]
  refine List.flatMap_congr fun n hn => ?_
  have hlacks : lacksDefinition ledger es n = true := (List.mem_filter.1 hn).2
  have husages : (Variable.ofEntries es n).usages =
      ((es.filterMap Entry.usage?).filter fun t => lacksDefinition ledger es t.name).filter
        (·.name = n) := by
    rw [Variable.ofEntries, Entry.filterMap_usageOf?, List.filter_filter]
    refine List.filter_congr fun t _ => ?_
    rw [Bool.eq_iff_iff]
    simp only [decide_eq_true_eq, Bool.and_eq_true]
    exact ⟨fun ht => ⟨ht, ht ▸ hlacks⟩, fun ht => ht.1⟩
  rw [← husages]
  rfl

/-! ## Uses in a script -/

namespace Vocabulary

variable (v : Vocabulary) (tokens : List Token) (script : Script)

/-- Whether the token is the name of a variable : no command, no macro and no name of the
engine. -/
def isVariable (t : Token) : Bool :=
  t.kind = .identifier && !v.catalogue.isCommand t.name && !v.ledger.contains t.name &&
    t.name ∉ magicNames

/-- Whether the name stands directly before a sign of assignment, outside the argument lists of
macros. -/
def isAssigned (name : String) : Bool :=
  (v.outside none tokens).any fun p =>
    p.1.kind = .identifier && p.1.name = name && p.2.any (·.kind = .assign)

/-- Whether some node of the script declares the variable. -/
def isDeclared (name : String) : Bool :=
  script.nodes.any (·.declares v.catalogue name)

/-- The uses of local variables that nothing defines, in order. -/
def undefinedUses : List Token :=
  ((v.outside none tokens).map Prod.fst).filter fun t =>
    v.isVariable t && isLocalName t.name && !v.isAssigned tokens t.name &&
      !v.isDeclared script t.name

theorem isVariable_eq_true {t : Token} :
    v.isVariable t = true ↔ t.kind = .identifier ∧ v.classify t.name = .plain := by
  simp [isVariable, Catalogue.isCommand, classify_eq_plain, and_assoc]

/-- What is noted are the uses of variables. -/
theorem filterMap_usage?_noting (ps : List (Token × Option Token)) :
    (ps.filterMap v.noting).filterMap Entry.usage? = (ps.map Prod.fst).filter v.isVariable := by
  rw [List.filterMap_filterMap, List.filter_map, ← List.filterMap_eq_filter, List.map_filterMap]
  refine List.filterMap_congr fun p _ => ?_
  by_cases hv : v.isVariable p.1 = true
  · obtain ⟨hk, hplain⟩ := v.isVariable_eq_true.1 hv
    simp [noting, Parse.noted, hk, hplain, hv, Entry.usage?, Option.guard]
  · have hnone : v.noting p = none := by
      unfold noting Parse.noted
      split_ifs with hk hplain
      · exact absurd (v.isVariable_eq_true.2 ⟨hk, hplain⟩) hv
      · rfl
      · rfl
    simp [hnone, hv, Option.guard]

/-- What is noted defines a variable if it is assigned to. -/
theorem filterMap_definitionOf?_noting {name : String} (hplain : v.classify name = .plain) :
    ((v.outside none tokens).filterMap v.noting).filterMap (Entry.definitionOf? name) = [] ↔
      v.isAssigned tokens name = false := by
  have hentry : ∀ p : Token × Option Token,
      (v.noting p).bind (Entry.definitionOf? name) = none ↔
        ¬((decide (p.1.kind = .identifier) && decide (p.1.name = name) &&
          p.2.any (·.kind = .assign)) = true) := by
    intro p
    unfold noting Parse.noted
    by_cases hk : p.1.kind = .identifier
    · by_cases hn : p.1.name = name
      · subst hn
        cases p.2.any (·.kind = .assign) <;> simp [hk, hplain, Entry.definitionOf?]
      · by_cases hp : v.classify p.1.name = .plain
        · cases p.2.any (·.kind = .assign) <;> simp [hk, hp, hn, Entry.definitionOf?]
        · simp [hk, hp, hn]
    · simp [hk]
  rw [List.filterMap_filterMap, List.filterMap_eq_nil_iff, isAssigned, List.any_eq_false]
  exact forall₂_congr fun p _ => hentry p

end Vocabulary

theorem Entry.IsFinding.definitionOf?_eq_none {e : Entry} {name : String} (h : e.IsFinding) :
    e.definitionOf? name = none ↔ ¬e.Defines name := by
  cases e with
  | diagnostic d => simp [definitionOf?, Defines]
  | usage t assigned => exact absurd h id
  | definition written t => simp [definitionOf?, Defines]

/-! ## Runs -/

section

variable {catalogue : Catalogue} {options : Options} {files : Files} {ledger : Ledger}
  {source : String} {script : Script} {j : Journal}

/-- After reading and the walk over the tree, a variable lacks a definition if no token assigns to
it and no node declares it. -/
theorem lacksDefinition_walked {v : Vocabulary} {c : Checker} (hc : c.catalogue = v.catalogue)
    (hbuilt : ∀ st ∈ script.statements, st.AllBuilt v) (tokens : List Token) {t : Token}
    (ht : v.isVariable t = true) :
    lacksDefinition v.ledger ((v.outside none tokens).filterMap v.noting ++
        entriesOfStatements c script.statements) t.name =
      (isLocalName t.name && !v.isAssigned tokens t.name && !v.isDeclared script t.name) := by
  have hplain := (v.isVariable_eq_true.1 ht).2
  have hmacro : v.ledger.contains t.name = false := (v.classify_eq_plain.1 hplain).2.1
  rw [Bool.eq_iff_iff]
  simp only [lacksDefinition, hmacro, Bool.and_eq_true, List.isEmpty_iff, Bool.not_eq_true',
    Bool.not_false, and_true, List.filterMap_append, List.append_eq_nil_iff,
    v.filterMap_definitionOf?_noting tokens hplain, and_assoc]
  refine and_congr_right fun hlocal => and_congr_right fun _ => ?_
  have hwalk := exists_defines_entriesOfStatements hlocal (c := c) script.statements hbuilt
  rw [List.filterMap_eq_nil_iff, Vocabulary.isDeclared, List.any_eq_false]
  constructor
  · intro h n hn hd
    obtain ⟨e, he, hdef⟩ := hwalk.2 ⟨n, hn, by rwa [hc]⟩
    exact (isFinding_entriesOfStatements c _ e he).definitionOf?_eq_none.1 (h e he) hdef
  · intro h e he
    refine (isFinding_entriesOfStatements c _ e he).definitionOf?_eq_none.2 fun hdef => ?_
    obtain ⟨n, hn, hd⟩ := hwalk.1 ⟨e, he, hdef⟩
    exact h n hn (by rwa [hc] at hd)

/-- After reading and the walk over the tree, the uses in the journal that lack a definition are
those of variables that nothing in the script defines. -/
theorem uses_walked {v : Vocabulary} {c : Checker} (hc : c.catalogue = v.catalogue)
    (hbuilt : ∀ st ∈ script.statements, st.AllBuilt v) (tokens : List Token) :
    let es := (v.outside none tokens).filterMap v.noting ++
      entriesOfStatements c script.statements
    (es.filterMap Entry.usage?).filter (fun t => lacksDefinition v.ledger es t.name) =
      v.undefinedUses tokens script := by
  intro es
  have hwalk : (entriesOfStatements c script.statements).filterMap Entry.usage? = [] := by
    refine List.filterMap_eq_nil_iff.2 fun e he => ?_
    have hfinding := isFinding_entriesOfStatements c _ e he
    cases e with
    | usage t assigned => exact absurd hfinding id
    | _ => rfl
  rw [List.filterMap_append, hwalk, List.append_nil, v.filterMap_usage?_noting,
    List.filter_filter, Vocabulary.undefinedUses]
  refine List.filter_congr fun t _ => ?_
  by_cases ht : v.isVariable t = true
  · rw [lacksDefinition_walked hc hbuilt tokens ht, ht]
    simp
  · simp [ht]

/-- If a run finds nothing wrong in the order of tokens, reading them has nothing to say. -/
theorem diagnostics_read_eq_nil {strict : Bool} {tokens : List Token}
    (hs : options.stopOnError = strict)
    (h : ∀ d ∈ (lintTokens catalogue options files ledger tokens).errors,
      d.kind ≠ .syntaxError) :
    (Script.read ⟨catalogue, ledger⟩ strict tokens {}).2.diagnostics = [] := by
  refine List.eq_nil_iff_forall_not_mem.2 fun d hd => ?_
  obtain ⟨hk, herror⟩ := Script.mem_diagnostics_read hd
  have hmem : d ∈ (lintTokens catalogue options files ledger tokens).diagnostics :=
    (Journal.isPrefix_diagnostics (isPrefix_entries_lintTokens files hs)).subset hd
  exact h d (List.mem_filter.2 ⟨hmem, herror⟩) hk

/-- The walk over statements gives no warnings. -/
theorem warnings_entriesOfStatements (c : Checker) (ss : List Statement) :
    ((entriesOfStatements c ss).filterMap Entry.diagnostic?).filter (!·.isError) = [] := by
  rw [List.filter_eq_nil_iff]
  intro d hd
  obtain ⟨e, he, hed⟩ := List.mem_filterMap.1 hd
  have hfinding := isFinding_entriesOfStatements c ss e he
  cases e with
  | diagnostic d' =>
    obtain rfl := Option.some.inj hed
    simp [hfinding.1]
  | _ => cases hed

/-- The only warnings of a run are those about variables. -/
theorem warnings_lintTokens {strict : Bool} {tokens : List Token}
    (hs : options.stopOnError = strict) (hskip : options.skipWarnings = false)
    (hwarn : options.warningAsError = false)
    (hread : Script.read ⟨catalogue, ledger⟩ strict tokens {} = (.ok script, j))
    (hnone : j.diagnostics = []) :
    ∃ walked : Journal, walked.entries.toList = j.entries.toList ++
        entriesOfStatements (.ofOptions catalogue options files) script.statements ∧
      (lintTokens catalogue options files ledger tokens).warnings =
        undefinedLocals ledger walked.table := by
  obtain ⟨walked, hwalked, hentries⟩ := toList_entries_lintTokens files hs hread
  refine ⟨walked, hwalked, ?_⟩
  have hsurvey : surveyFindings options ledger walked.table =
      undefinedLocals ledger walked.table := by
    simp [surveyFindings, hskip, hwarn]
  have hkept : (undefinedLocals ledger walked.table).filter (!·.isError) =
      undefinedLocals ledger walked.table := by
    rw [List.filter_eq_self, undefinedLocals_table]
    intro d hd
    obtain ⟨t, -, rfl⟩ := List.mem_map.1 hd
    rfl
  rw [Journal.warnings, Journal.diagnostics_eq_filterMap, hentries, hwalked,
    List.filterMap_append, List.filterMap_append, ← Journal.diagnostics_eq_filterMap, hnone,
    hsurvey, Entry.filterMap_diagnostic?_map, List.nil_append, List.filter_append,
    warnings_entriesOfStatements, hkept, List.nil_append]

end

/-- The warnings of a run are exact. In a run that has something to say about variables and finds
nothing wrong in the order of tokens, the warnings are one at each use of a local variable that
nothing defines, with the span and the spelling of that use. They are grouped by variable in the
order in which the variables appear, and no two have the same span. -/
theorem warnings_lint (catalogue : Catalogue) (options : Options) (files : Files) (name : Path)
    (source : String) (hskip : options.skipWarnings = false)
    (hwarn : options.warningAsError = false)
    (hclean : ∀ d ∈ (lint catalogue options files name source).errors, d.kind ≠ .syntaxError) :
    let prepared := Prepared.ofSource files options.rootPath name source
    let v : Vocabulary := ⟨catalogue, prepared.ledger⟩
    let tokens := Token.scan prepared.text
    let report := lint catalogue options files name source
    ∃ script, (Script.read v options.stopOnError tokens {}).1 = .ok script ∧
      report.warnings =
        (groupedByName (v.undefinedUses tokens script)).map undefinedWarning ∧
      (report.warnings.map Diagnostic.span).Nodup := by
  intro prepared v tokens report
  have hreport : report = Report.ofJournal (lintTokens catalogue options files prepared.ledger
      tokens) prepared.ledger options.outputVariables := rfl
  replace hclean : ∀ d ∈ report.errors, d.kind ≠ .syntaxError := hclean
  clear_value report prepared
  subst hreport
  simp only [Report.errors_ofJournal, Report.warnings_ofJournal] at hclean ⊢
  have hnone := diagnostics_read_eq_nil rfl hclean
  obtain ⟨script, u, seg, hread, -⟩ := exists_passes_of_read hnone
  have hentries := entries_of_read hnone
  rw [hread] at hnone hentries
  obtain ⟨walked, hwalked, hwarnings⟩ := warnings_lintTokens rfl hskip hwarn hread hnone
  have huses : (walked.entries.toList.filterMap Entry.usage?).filter (fun t =>
      lacksDefinition prepared.ledger walked.entries.toList t.name) =
        v.undefinedUses tokens script := by
    rw [hwalked, hentries]
    exact uses_walked rfl (allBuilt_of_read (by rw [hread])) tokens
  rw [undefinedLocals_table, huses] at hwarnings
  refine ⟨script, by rw [hread], hwarnings, ?_⟩
  rw [hwarnings, List.map_map]
  have hperm := (perm_groupedByName (v.undefinedUses tokens script)).map Token.span
  refine hperm.nodup_iff.2 (List.Nodup.sublist ?_ (Token.nodup_span_scan prepared.text))
  exact (List.filter_sublist.trans (v.sublist_outside none tokens)).map Token.span

/-- Two parameters, one of them given with a default, a variable that is assigned to, a name of
the engine, and a variable that is used twice and defined nowhere. -/
theorem warnings_lint_parameters :
    let catalogue := Catalogue.ofLines [⟨"params", .unary, [], [.array]⟩]
    let source := "params ['_A', ['_b', 1]]; _c = _a + _D; _this + _b + _d + _c;"
    let report := lint catalogue {} (.memory []) ⟨"init.sqf"⟩ source
    let prepared := Prepared.ofSource (.memory []) none ⟨"init.sqf"⟩ source
    let v : Vocabulary := ⟨catalogue, prepared.ledger⟩
    let tokens := Token.scan prepared.text
    (∀ d ∈ report.errors, d.kind ≠ .syntaxError) ∧
      report.warnings.map Diagnostic.message =
        ["Possibly undefined variable _D", "Possibly undefined variable _d"] ∧
      ∃ script, (Script.read v false tokens {}).1 = .ok script ∧
        report.warnings =
          (groupedByName (v.undefinedUses tokens script)).map undefinedWarning ∧
        (report.warnings.map Diagnostic.span).Nodup := by
  intro catalogue source report prepared v tokens
  have hclean : ∀ d ∈ report.errors, d.kind ≠ .syntaxError := by
    decide +kernel
  have hmessages : report.warnings.map Diagnostic.message =
      ["Possibly undefined variable _D", "Possibly undefined variable _d"] := by
    decide +kernel
  exact ⟨hclean, hmessages,
    warnings_lint catalogue {} (.memory []) ⟨"init.sqf"⟩ source rfl rfl hclean⟩

end SqfCheck
