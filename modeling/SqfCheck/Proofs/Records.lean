import SqfCheck.Proofs.Independence
import SqfCheck.Proofs.Layout

/-!
# The records of a table

What holds of the table of variables whatever is done in a run, and in whatever order
(`table_run`) : records are kept under their names, which are in lower case and of which no two are
the same, uses are by tokens of the name, every definition has its comment beside it, and a table
only ever grows at its ends. A table that is well kept stays so with every entry
(`VariableTable.WellKept.record`), and all that can be done in a run (`Operation`) adds entries to
the end of its journal or leaves it as it is (`Run.exists_entries_perform`).

A name that is a command, a macro or a name of the engine is never recorded where it is looked up.
It is recorded all the same if a parameter or the counter of a loop has that name
(`recorded_lint`), because definitions that are no assignments are written down without a look at
what their names mean.
-/

namespace SqfCheck

/-! ## Operations -/

/-- One thing that is done in a run. -/
inductive Operation where
  /-- A name is looked up, with the token after it. -/
  | resolve (t next : Token)
  /-- A variable is defined by a token that is no assignment to it. -/
  | define (t : Token) (name : String)
  /-- A diagnostic is written down. -/
  | record (d : Diagnostic)
  /-- Reading goes on behind a failure. -/
  | recover (cursor : Cursor) (failure : Diagnostic) (boundary : TokenKind) (skip : Bool)
  /-- The run is ended early. -/
  | abort
  /-- Statements are walked over. -/
  | walk (statements : List Statement)
  /-- Variables without a definition are reported. -/
  | survey

namespace Run

/-- The run after one more operation. -/
def perform (r : Run) : Operation → Run
  | .resolve t next => { r with journal := (r.journal.resolve r.vocabulary t next).2 }
  | .define t name => r.defineLocal t name
  | .record d => r.record d
  | .recover cursor failure boundary skip =>
    let repair := Parse.recover r.options.stopOnError failure boundary skip
    { r with journal := (Parse.final (repair ⟨cursor, r.journal⟩)).journal }
  | .abort => { r with journal := r.journal.abort }
  | .walk statements => r.walk statements
  | .survey => { r with journal := r.journal.survey r.options r.ledger }

/-- An operation keeps what the run was given. -/
theorem toSurroundings_perform (r : Run) (op : Operation) :
    (r.perform op).toSurroundings = r.toSurroundings := by
  cases op with
  | walk statements => exact r.toSurroundings_walk statements
  | _ => rfl

/-- An operation adds entries to the end of the journal. -/
theorem exists_entries_perform (r : Run) (op : Operation) :
    ∃ es, (r.perform op).journal.entries.toList = r.journal.entries.toList ++ es := by
  cases op with
  | resolve t next =>
    rw [perform, Parse.journal_resolve]
    exact ⟨_, Journal.toList_entries_writeAll _ _⟩
  | define t name => exact ⟨_, Journal.toList_entries_write _ _⟩
  | record d => exact ⟨_, Journal.toList_entries_report _ _⟩
  | recover cursor failure boundary skip =>
    rw [perform, Parse.recover]
    split
    · exact ⟨[], (List.append_nil _).symm⟩
    · split <;> exact ⟨_, Journal.toList_entries_report _ _⟩
  | abort => exact ⟨[], (List.append_nil _).symm⟩
  | walk statements =>
    rw [perform, journal_walk]
    exact ⟨_, Journal.toList_entries_writeAll _ _⟩
  | survey =>
    by_cases hsurveyed : r.journal.surveyed = true
    · exact ⟨[], by simp [perform, Journal.survey, hsurveyed]⟩
    · exact ⟨_, toList_entries_survey _ _ (eq_false_of_ne_true hsurveyed)⟩

theorem toSurroundings_foldl_perform : ∀ (ops : List Operation) (r : Run),
    (ops.foldl perform r).toSurroundings = r.toSurroundings
  | [], _ => rfl
  | op :: ops, r => by
    rw [List.foldl_cons, toSurroundings_foldl_perform ops, toSurroundings_perform]

/-- What is done later only adds to the journal. -/
theorem isPrefix_entries_foldl : ∀ (ops : List Operation) (r : Run),
    r.journal.entries.toList <+: (ops.foldl perform r).journal.entries.toList
  | [], r => List.prefix_refl _
  | op :: ops, r => by
    obtain ⟨es, hes⟩ := r.exists_entries_perform op
    have hstep : r.journal.entries.toList <+: (r.perform op).journal.entries.toList :=
      ⟨es, hes.symm⟩
    exact hstep.trans (isPrefix_entries_foldl ops (r.perform op))

end Run

/-- A run in which this is done, from the start. -/
def Surroundings.run (s : Surroundings) (ops : List Operation) : Run :=
  ops.foldl Run.perform ⟨s, {}⟩

/-! ## Tables that are well kept -/

/-- What holds of every record. -/
structure Variable.WellKept (v : Variable) : Prop where
  /-- The name has no capitals. -/
  lower : ∀ c ∈ v.name.toList, c.isUpper = false
  /-- The uses are by tokens of the name. -/
  usages : ∀ t ∈ v.usages, t.name = v.name
  /-- There are as many comments as definitions. -/
  length_comments : v.comments.length = v.definitions.length
  /-- A comment is the one of the definition in its place. -/
  comments : ∀ i : Nat, v.comments[i]? = v.definitions[i]?.map Token.comment

/-- What holds of every table. -/
structure VariableTable.WellKept (table : VariableTable) : Prop where
  /-- No two records are kept under the same name. -/
  nodup : (table.byName.map Prod.fst).Nodup
  /-- A record is kept under its own name. -/
  keys : ∀ p ∈ table.byName, p.1 = p.2.name
  /-- Every record is well kept. -/
  records : ∀ v ∈ table.records, v.WellKept

/-- Folded names have no capitals. -/
theorem isUpper_of_mem_foldCase {s : String} {c : Char} (hc : c ∈ (foldCase s).toList) :
    c.isUpper = false := by
  rw [toList_foldCase] at hc
  obtain ⟨d, -, rfl⟩ := List.mem_map.1 hc
  exact d.isUpper_toLower_eq_false

theorem foldCase_eq_self {s : String} (h : ∀ c ∈ s.toList, c.isUpper = false) :
    foldCase s = s := by
  apply String.toList_injective
  rw [toList_foldCase]
  conv_rhs => rw [← List.map_id s.toList]
  refine List.map_congr_left fun c hc => ?_
  exact Char.toLower_eq_of_not_isUpper (Bool.eq_false_iff.1 (h c hc))

namespace Variable.WellKept

variable {v : Variable} {t : Token}

theorem new {name : String} (h : ∀ c ∈ name.toList, c.isUpper = false) :
    WellKept { name } :=
  ⟨h, by simp, rfl, by simp⟩

theorem addUsage (h : v.WellKept) (ht : t.name = v.name) : (v.addUsage t).WellKept where
  lower := h.lower
  usages := List.forall_mem_append.2 ⟨h.usages, List.forall_mem_singleton.2 ht⟩
  length_comments := h.length_comments
  comments := h.comments

/-- A comment is added where its definition is. -/
theorem addDefinition (h : v.WellKept) (t : Token) : (v.addDefinition t).WellKept where
  lower := h.lower
  usages := h.usages
  length_comments := by simp [Variable.addDefinition, h.length_comments]
  comments i := by
    simp only [Variable.addDefinition, List.getElem?_append, h.length_comments]
    split_ifs
    · exact h.comments i
    · cases i - v.definitions.length <;> rfl

end Variable.WellKept

namespace VariableTable

variable {name : String} {change : Variable → Variable}

/-- After a change there is a new name if there was none before. -/
theorem map_fst_updateRecords : ∀ records : List (String × Variable),
    (updateRecords name change records).map Prod.fst =
      if name ∈ records.map Prod.fst then records.map Prod.fst
      else records.map Prod.fst ++ [name]
  | [] => rfl
  | (key, v) :: records => by
    rw [updateRecords]
    by_cases hkey : key = name
    · simp [hkey]
    · have ih := map_fst_updateRecords records
      rw [if_neg hkey, List.map_cons, ih]
      by_cases hname : name ∈ records.map Prod.fst <;> simp_all [Ne.symm hkey]

/-- A record is as it was, or is the one that was changed. -/
theorem mem_updateRecords {p : String × Variable} : ∀ {records : List (String × Variable)},
    p ∈ updateRecords name change records →
      p ∈ records ∨ ∃ v, ((name, v) ∈ records ∨ v = { name }) ∧ p = (name, change v)
  | [], hp => .inr ⟨_, .inr rfl, List.mem_singleton.1 hp⟩
  | (key, v) :: records, hp => by
    rw [updateRecords] at hp
    split_ifs at hp with hkey
    · obtain rfl := hkey
      rcases List.mem_cons.1 hp with rfl | hp
      · exact .inr ⟨v, .inl List.mem_cons_self, rfl⟩
      · exact .inl (List.mem_cons_of_mem _ hp)
    · rcases List.mem_cons.1 hp with rfl | hp
      · exact .inl List.mem_cons_self
      · refine (mem_updateRecords hp).imp (List.mem_cons_of_mem _) ?_
        rintro ⟨w, hw, heq⟩
        exact ⟨w, hw.imp_left (List.mem_cons_of_mem _), heq⟩

/-- Under names of which no two are the same each record is found. -/
theorem lookup_eq_some {p : String × Variable} : ∀ {records : List (String × Variable)},
    (records.map Prod.fst).Nodup → p ∈ records → records.lookup p.1 = some p.2
  | (key, v) :: records, hnodup, hp => by
    obtain ⟨hnot, hnodup⟩ := List.nodup_cons.1 hnodup
    rcases List.mem_cons.1 hp with rfl | hlater
    · simp
    · have hne : (p.1 == key) = false := by
        rw [beq_eq_false_iff_ne]
        rintro rfl
        exact hnot (List.mem_map.2 ⟨p, hlater, rfl⟩)
      rw [List.lookup_cons, hne]
      exact lookup_eq_some hnodup hlater

namespace WellKept

variable {table : VariableTable}

theorem empty : WellKept {} :=
  ⟨.nil, by simp, by simp [VariableTable.records]⟩

/-- A change that keeps the record of its name well kept keeps the table so. -/
theorem update (h : table.WellKept) (hname : ∀ c ∈ name.toList, c.isUpper = false)
    (hchange : ∀ v : Variable, v.WellKept → v.name = name →
      (change v).WellKept ∧ (change v).name = name) :
    (table.update name change).WellKept := by
  have hrecord : ∀ p ∈ (table.update name change).byName, p.1 = p.2.name ∧ p.2.WellKept := by
    intro p hp
    rcases mem_updateRecords hp with hp | ⟨v, hv, rfl⟩
    · exact ⟨h.keys p hp, h.records p.2 (List.mem_map_of_mem hp)⟩
    · have hwas : v.WellKept ∧ v.name = name := by
        rcases hv with hv | rfl
        · exact ⟨h.records v (List.mem_map_of_mem hv), (h.keys _ hv).symm⟩
        · exact ⟨.new hname, rfl⟩
      obtain ⟨hkept, hsame⟩ := hchange v hwas.1 hwas.2
      exact ⟨hsame.symm, hkept⟩
  refine ⟨?_, fun p hp => (hrecord p hp).1, fun v hv => ?_⟩
  · rw [VariableTable.update, map_fst_updateRecords]
    split_ifs with hmem
    · exact h.nodup
    · exact List.concat_eq_append ▸ h.nodup.concat hmem
  · obtain ⟨p, hp, rfl⟩ := List.mem_map.1 hv
    exact (hrecord p hp).2

/-- One more entry keeps a table well kept. -/
theorem record (h : table.WellKept) (e : Entry) : (table.record e).WellKept := by
  rcases e with d | ⟨t, _ | _⟩ | ⟨written, t⟩
  · exact h
  · refine h.update (fun c => isUpper_of_mem_foldCase) fun v hv hname => ⟨?_, hname⟩
    exact hv.addUsage hname.symm
  · refine h.update (fun c => isUpper_of_mem_foldCase) fun v hv hname => ⟨?_, hname⟩
    exact (hv.addUsage hname.symm).addDefinition t
  · exact h.update (fun c => isUpper_of_mem_foldCase) fun v hv hname =>
      ⟨hv.addDefinition t, hname⟩

theorem foldl_record : ∀ (es : List Entry) {table : VariableTable}, table.WellKept →
    (es.foldl VariableTable.record table).WellKept
  | [], _, h => h
  | e :: es, _, h => foldl_record es (h.record e)

/-- A record is found under its name. -/
theorem find?_eq (h : table.WellKept) {v : Variable} (hv : v ∈ table.records) :
    table.find? v.name = some v := by
  obtain ⟨p, hp, rfl⟩ := List.mem_map.1 hv
  rw [find?, foldCase_eq_self (h.records _ hv).lower, ← h.keys p hp]
  exact lookup_eq_some h.nodup hp

end WellKept

end VariableTable

namespace Run

/-- What an operation does to the table it does entry by entry, so it keeps the table well kept. -/
theorem wellKept_perform {r : Run} (h : r.journal.table.WellKept) (op : Operation) :
    (r.perform op).journal.table.WellKept := by
  obtain ⟨es, hes⟩ := r.exists_entries_perform op
  rw [Journal.table_append hes]
  exact h.foldl_record es

theorem wellKept_foldl_perform : ∀ (ops : List Operation) {r : Run}, r.journal.table.WellKept →
    (ops.foldl perform r).journal.table.WellKept
  | [], _, h => h
  | op :: ops, _, h => wellKept_foldl_perform ops (wellKept_perform h op)

end Run

/-- The names that are not those of variables. -/
theorem Vocabulary.classify_ne_plain {v : Vocabulary} {name : String} : v.classify name ≠ .plain ↔
    v.catalogue.isCommand name = true ∨ v.ledger.contains name = true ∨ name ∈ magicNames := by
  rw [Ne, classify_eq_plain, Catalogue.isCommand, Option.isSome_iff_ne_none,
    ← Bool.not_eq_true]
  tauto

/-- Whatever is done in a run, its table is well kept : every record is kept under its own name,
which has no capitals, no two records have the same name, all uses are by tokens of the name, and
the comments are those of the definitions, one for each. A record is found under its name. What is
done later takes nothing away and moves nothing : names are added after those there are, and so are
the uses, the definitions and the comments of each. To look up a command, a macro or a name of the
engine changes nothing. -/
theorem table_run (s : Surroundings) (ops : List Operation) :
    let table (ops : List Operation) := (s.run ops).journal.table
    (table ops).WellKept ∧
    (∀ v ∈ (table ops).records, (table ops).find? v.name = some v) ∧
    (∀ more : List Operation, (table ops).IsPrefix (table (ops ++ more))) ∧
    ∀ t next : Token, s.catalogue.isCommand t.name = true ∨ s.ledger.contains t.name = true ∨
        t.name ∈ magicNames →
      table (ops ++ [.resolve t next]) = table ops := by
  intro table
  have hkept : (table ops).WellKept := Run.wellKept_foldl_perform ops .empty
  refine ⟨hkept, fun v => hkept.find?_eq, fun more => ?_, fun t next hname => ?_⟩
  · refine Journal.isPrefix_table ?_
    rw [Surroundings.run, Surroundings.run, List.foldl_append]
    exact Run.isPrefix_entries_foldl more _
  · have hgiven : (s.run ops).vocabulary = ⟨s.catalogue, s.ledger⟩ :=
      congrArg (fun g : Surroundings => (⟨g.catalogue, g.ledger⟩ : Vocabulary))
        (Run.toSurroundings_foldl_perform ops ⟨s, {}⟩)
    have hplain : (⟨s.catalogue, s.ledger⟩ : Vocabulary).classify t.name ≠ .plain :=
      Vocabulary.classify_ne_plain.2 hname
    show (s.run (ops ++ [.resolve t next])).journal.table = (s.run ops).journal.table
    rw [show s.run (ops ++ [.resolve t next]) = (s.run ops).perform (.resolve t next) from
      List.foldl_concat .., Run.perform, Parse.journal_resolve, hgiven, Parse.noted, if_neg hplain]
    rfl

/-- A variable is defined, with a comment, and used in two spellings, reading goes on behind a
failure, another variable is defined, and then a name of the engine is looked up. -/
theorem table_run_magic :
    let a : Token := ⟨.identifier, "_Unit", ⟨⟨1, 1⟩, ⟨1, 5⟩⟩, some ⟨"so far", ⟨⟨1, 2⟩, ⟨1, 3⟩⟩⟩⟩
    let this : Token := ⟨.identifier, "_THIS", ⟨⟨1, 7⟩, ⟨1, 11⟩⟩, none⟩
    let s : Surroundings := { files := .memory [] }
    let ops : List Operation := [.define a "_UNIT", .resolve a this,
      .recover ⟨this, []⟩ (.ofSyntax this.span "unexpected") .semicolon true, .define this "_pos"]
    let table := (s.run ops).journal.table
    table.byName.map (fun p => (p.1, p.2.comments)) = [("_unit", [a.comment]), ("_pos", [none])] ∧
      this.name ∈ magicNames ∧ table.WellKept ∧
      (s.run (ops ++ [.resolve this a])).journal.table = table := by
  intro a this s ops table
  have hmagic : this.name ∈ magicNames := by decide +kernel
  obtain ⟨hkept, -, -, hsame⟩ := table_run s ops
  exact ⟨by decide +kernel, hmagic, hkept, hsame this a (.inr (.inr hmagic))⟩

/-! ## Names that are no variables -/

/-- What reading writes down about names is about variables. -/
theorem classify_of_mem_read {v : Vocabulary} {strict : Bool} {source name : String}
    (h : name ∈ (Script.read v strict (Token.scan source) {}).2.entries.toList.filterMap
      Entry.name?) : v.classify name = .plain := by
  obtain ⟨s, hsteps, hj⟩ := Script.exists_steps_read v strict (Token.scan source) {}
  obtain ⟨uses, hnotes⟩ := Parse.exists_notes_steps (Cursor.endsOnce_ofTokens_scan source) hsteps
  have hentries : s.journal.entries.toList.filter Entry.isReference = uses.map Entry.ofUse := by
    simpa using hnotes.entries_eq
  rw [hj, ← Entry.filterMap_isReference (fun _ => rfl), hentries] at h
  obtain ⟨e, he, hname⟩ := List.mem_filterMap.1 h
  obtain ⟨p, hp, rfl⟩ := List.mem_map.1 he
  obtain rfl : p.1.name = name := Option.some.inj hname
  exact (hnotes.plain p hp).2

/-! ### Definitions that the walk finds are of local variables -/

/-- An entry that is a definition is one of a local variable. -/
def Entry.IsLocal : Entry → Prop
  | definition written _ => isLocalName written = true
  | _ => True

theorem Entry.IsComplaint.isLocal {e : Entry} (h : e.IsComplaint) : e.IsLocal := by
  cases e with
  | definition written t => exact absurd h id
  | _ => trivial

theorem isLocal_parameterName {t : Token} : ∀ e ∈ Operator.parameterName t, e.IsLocal := by
  unfold Operator.parameterName
  split
  · simp
  split_ifs with hempty hlocal
  · simp
  · exact List.forall_mem_singleton.2 hlocal
  · exact List.forall_mem_singleton.2 trivial

theorem isLocal_checkParameters {a : Application} :
    ∀ e ∈ Operator.checkParameters a, e.IsLocal := by
  unfold Operator.checkParameters
  split
  · simp
  intro e he
  obtain ⟨x, -, he⟩ := List.mem_flatMap.1 he
  unfold Operator.parameter at he
  split at he
  · exact isLocal_parameterName e he
  · split at he
    · exact isLocal_parameterName e he
    · simp at he
    · rw [List.mem_singleton.1 he]
      trivial
  · simp at he
  · rw [List.mem_singleton.1 he]
    trivial

theorem isLocal_loopCounter {a : Application} : ∀ e ∈ loopCounter a, e.IsLocal := by
  unfold loopCounter
  split_ifs
  · split
    · simp
    split
    · simp
    split_ifs with hlocal
    · exact List.forall_mem_singleton.2 hlocal
    · simp
  · simp

theorem Checker.isLocal_checkApplication {c : Checker} {a : Application} :
    ∀ e ∈ c.checkApplication a, e.IsLocal := by
  intro e he
  rcases mem_checkApplication he with he | ⟨-, ⟨-, he⟩ | he⟩
  · exact he.isLocal
  · exact isLocal_checkParameters e he
  · exact isLocal_loopCounter e he

/-- The walk finds something about a name just if the name is that of a local variable and some
node declares it. -/
theorem mem_names_entriesOfStatements {v : Vocabulary} {c : Checker}
    (hc : c.catalogue = v.catalogue) {script : Script}
    (hbuilt : ∀ st ∈ script.statements, st.AllBuilt v) {name : String} :
    name ∈ (entriesOfStatements c script.statements).filterMap Entry.name? ↔
      isLocalName name = true ∧ v.isDeclared script name = true := by
  have hname : ∀ e ∈ entriesOfStatements c script.statements,
      e.name? = some name ↔ e.Defines name := by
    intro e he
    have hfinding := isFinding_entriesOfStatements c _ e he
    cases e with
    | diagnostic d => simp [Entry.name?, Entry.Defines]
    | usage t assigned => exact absurd hfinding id
    | definition written t => simp [Entry.name?, Entry.Defines]
  have hlocal : ∀ e ∈ entriesOfStatements c script.statements, e.Defines name →
      isLocalName name = true := by
    intro e he hdef
    obtain ⟨n, a, -, -, ha⟩ := findsAt_entriesOfStatements c _ e he
    have hwritten := Checker.isLocal_checkApplication e ha
    cases e with
    | definition written t =>
      obtain rfl : foldCase written = name := hdef
      rwa [isLocalName_foldCase]
    | _ => exact absurd hdef id
  have hdeclared : v.isDeclared script name = true ↔
      ∃ n ∈ nodesOfStatements script.statements, n.declares c.catalogue name = true := by
    rw [Vocabulary.isDeclared, List.any_eq_true, hc]
    rfl
  rw [List.mem_filterMap, hdeclared]
  constructor
  · rintro ⟨e, he, hn⟩
    have hdef := (hname e he).1 hn
    have hl := hlocal e he hdef
    exact ⟨hl, (exists_defines_entriesOfStatements hl _ hbuilt).1 ⟨e, he, hdef⟩⟩
  · rintro ⟨hl, hn⟩
    obtain ⟨e, he, hdef⟩ := (exists_defines_entriesOfStatements hl _ hbuilt).2 hn
    exact ⟨e, he, (hname e he).2 hdef⟩

/-- The same of the walk that follows on reading, if there is one. -/
theorem mem_names_walkFindings {v : Vocabulary} {c : Checker} (hc : c.catalogue = v.catalogue)
    {strict : Bool} {source name : String} {outcome : Except Diagnostic Script}
    (hread : (Script.read v strict (Token.scan source) {}).1 = outcome) :
    name ∈ (walkFindings c outcome).filterMap Entry.name? ↔
      isLocalName name = true ∧
        ∃ script, outcome = .ok script ∧ v.isDeclared script name = true := by
  cases outcome with
  | error d => simp [walkFindings]
  | ok script =>
    rw [walkFindings, mem_names_entriesOfStatements hc (allBuilt_of_read hread)]
    simp

/-- The walk finds no uses of variables. -/
theorem usageOf?_walkFindings {c : Checker} {outcome : Except Diagnostic Script} {name : String} :
    ∀ e ∈ walkFindings c outcome, e.usageOf? name = none := by
  intro e he
  cases outcome with
  | error d => cases he
  | ok script =>
    have hfinding := isFinding_entriesOfStatements c _ e he
    cases e with
    | usage t assigned => exact absurd hfinding id
    | _ => rfl

/-- Names that are not those of variables are recorded where they are declared, and nowhere else.
A command, a macro or a name of the engine is in the table of a run just if it is a local name and
the script was read and has a node that declares it : a list of parameters or the counter of a loop.
Its record has no uses, whatever the script does with the name. -/
theorem recorded_lint (catalogue : Catalogue) (options : Options) (files : Files) (name : Path)
    (source : String) :
    let prepared := Prepared.ofSource files options.rootPath name source
    let v : Vocabulary := ⟨catalogue, prepared.ledger⟩
    let outcome := (Script.read v options.stopOnError (Token.scan prepared.text) {}).1
    let table := (lint catalogue options files name source).table
    ∀ x : String,
      catalogue.isCommand x = true ∨ prepared.ledger.contains x = true ∨ x ∈ magicNames →
      (x ∈ table.records.map Variable.name ↔ isLocalName x = true ∧
        ∃ script, outcome = .ok script ∧ v.isDeclared script x = true) ∧
      ∀ w ∈ table.records, w.name = x → w.usages = [] := by
  intro prepared v outcome table x hx
  obtain ⟨-, -, htable⟩ := report_lintTokens catalogue options files prepared.ledger
    (Token.scan prepared.text)
  replace htable : table = _ := htable
  have hread : x ∉ (Script.read v options.stopOnError (Token.scan prepared.text)
      {}).2.entries.toList.filterMap Entry.name? :=
    fun h => Vocabulary.classify_ne_plain.2 hx (classify_of_mem_read h)
  rw [htable, VariableTable.records_foldl]
  constructor
  · simp only [List.map_map, Function.comp_def, Variable.ofEntries, List.map_id',
      List.mem_eraseDups, List.filterMap_append, List.mem_append]
    rw [or_iff_right hread]
    exact mem_names_walkFindings rfl rfl
  · intro w hw hname
    obtain ⟨y, -, rfl⟩ := List.mem_map.1 hw
    obtain rfl : y = x := hname
    refine List.filterMap_eq_nil_iff.2 fun e he => ?_
    rcases List.mem_append.1 he with he | he
    · exact Entry.usageOf?_eq_none fun hy => hread (List.mem_filterMap.2 ⟨e, he, hy⟩)
    · exact usageOf?_walkFindings e he

/-- A list of parameters with a name of the engine, a macro and a command in it. -/
theorem recorded_lint_parameters :
    let catalogue := Catalogue.ofLines
      [⟨"params", .unary, [], [.array]⟩, ⟨"_unit", .nullary, [], []⟩]
    let source := "#define _max 1\nparams ['_This', '_max', ['_unit', _x]]; _x + _max + _this;"
    let prepared := Prepared.ofSource (.memory []) none ⟨"init.sqf"⟩ source
    let table := (lint catalogue {} (.memory []) ⟨"init.sqf"⟩ source).table
    "_this" ∈ magicNames ∧ prepared.ledger.contains "_max" = true ∧
      catalogue.isCommand "_unit" = true ∧
      table.records.map Variable.name = ["_this", "_max", "_unit"] ∧
      ∀ w ∈ table.records, w.name = "_this" → w.usages = [] := by
  intro catalogue source prepared table
  have hmagic : "_this" ∈ magicNames := by decide +kernel
  refine ⟨hmagic, by decide +kernel, by decide +kernel, by decide +kernel, ?_⟩
  exact (recorded_lint catalogue {} (.memory []) ⟨"init.sqf"⟩ source "_this"
    (.inr (.inr hmagic))).2

/-- So it is not true that only variables are recorded : a parameter can have the name of one that
the engine defines. -/
theorem recorded_magic :
    ¬∀ (catalogue : Catalogue) (options : Options) (files : Files) (name : Path) (source : String),
      ∀ w ∈ (lint catalogue options files name source).table.records,
        catalogue.isCommand w.name = false ∧
          (Prepared.ofSource files options.rootPath name source).ledger.contains w.name = false ∧
          w.name ∉ magicNames := by
  intro h
  have hthis := h (.ofLines [⟨"params", .unary, [], [.array]⟩]) {} (.memory []) ⟨"init.sqf"⟩
    "params [\"_this\"];"
    ⟨"_this", [], [⟨.string, "\"_this\"", ⟨⟨1, 9⟩, ⟨1, 15⟩⟩, none⟩], [none]⟩
  exact absurd hthis (by decide +kernel)

end SqfCheck
