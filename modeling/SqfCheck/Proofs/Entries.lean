import Mathlib.Data.List.Induction
import SqfCheck.Journal

/-!
# What entries come to

The table of variables is built up entry by entry. `records_table` says at once what it holds in
the end : a record for each name that the entries are about, in the order in which the names
first appear, with the uses and the definitions of that name in the order of the entries. So a
journal that has more entries at its end has a table that has more at its ends
(`VariableTable.isPrefix_of_entries`).
-/

namespace SqfCheck

/-! ## Names without repetition -/

/-- Dropping later copies keeps a beginning a beginning. -/
theorem isPrefix_eraseDups {l m : List String} (h : l <+: m) : l.eraseDups <+: m.eraseDups := by
  obtain ⟨r, rfl⟩ := h
  rw [List.eraseDups_append]
  exact List.prefix_append _ _

theorem eraseDups_append_singleton (l : List String) (a : String) :
    (l ++ [a]).eraseDups = if a ∈ l then l.eraseDups else l.eraseDups ++ [a] := by
  rw [List.eraseDups_append]
  split
  · next h => simp [List.removeAll, h]
  · next h => simp [List.removeAll, h, List.eraseDups_cons]

theorem nodup_eraseDups (l : List String) : l.eraseDups.Nodup := by
  induction hn : l.length using Nat.strongRecOn generalizing l with
  | ind n ih =>
    cases l with
    | nil => simp
    | cons a l =>
      rw [List.eraseDups_cons, List.nodup_cons]
      refine ⟨by simp, ih _ ?_ _ rfl⟩
      rw [← hn]
      exact Nat.lt_succ_of_le (List.length_filter_le _ _)

theorem filter_eraseDups (p : String → Bool) (l : List String) :
    l.eraseDups.filter p = (l.filter p).eraseDups := by
  induction l using List.reverseRecOn with
  | nil => rfl
  | append_singleton l a ih =>
    rw [eraseDups_append_singleton, List.filter_append]
    by_cases hp : p a = true
    · rw [List.filter_cons_of_pos hp, List.filter_nil, eraseDups_append_singleton]
      by_cases ha : a ∈ l <;> simp [ha, hp, ih]
    · rw [List.filter_cons_of_neg hp, List.filter_nil, List.append_nil]
      split <;> simp [hp, ih]

/-! ## Entries -/

namespace Entry

/-- The diagnostic that the entry is, if it is one. -/
def diagnostic? : Entry → Option Diagnostic
  | diagnostic d => some d
  | _ => none

/-- The name of the variable that the entry is about, case folded. -/
def name? : Entry → Option String
  | diagnostic _ => none
  | usage t _ => some t.name
  | definition name _ => some (foldCase name)

/-- The token, if the entry is a use of a variable. -/
def usage? : Entry → Option Token
  | usage t _ => some t
  | _ => none

/-- The token, if the entry is a use of the variable `name`. -/
def usageOf? (name : String) : Entry → Option Token
  | usage t _ => if t.name = name then some t else none
  | _ => none

/-- The token, if the entry defines the variable `name`. -/
def definitionOf? (name : String) : Entry → Option Token
  | usage t true => if t.name = name then some t else none
  | definition n t => if foldCase n = name then some t else none
  | _ => none

theorem filterMap_usageOf? (es : List Entry) (name : String) :
    es.filterMap (usageOf? name) = (es.filterMap usage?).filter (·.name = name) := by
  rw [List.filter_filterMap]
  congr 1
  funext e
  cases e <;> simp [usageOf?, usage?, Option.filter]

theorem filterMap_diagnostic?_map (ds : List Diagnostic) :
    (ds.map diagnostic).filterMap diagnostic? = ds := by
  rw [List.filterMap_map]
  exact List.filterMap_some

theorem usageOf?_eq_none {e : Entry} {name : String} (h : e.name? ≠ some name) :
    e.usageOf? name = none := by
  cases e <;> simp_all [usageOf?, name?]

theorem definitionOf?_eq_none {e : Entry} {name : String} (h : e.name? ≠ some name) :
    e.definitionOf? name = none := by
  rcases e with _ | ⟨t, _ | _⟩ | ⟨n, t⟩ <;> simp_all [definitionOf?, name?]

end Entry

namespace Journal

variable (j : Journal)

@[simp]
theorem toList_entries_write (e : Entry) :
    (j.write e).entries.toList = j.entries.toList ++ [e] := by
  simp [write]

@[simp]
theorem toList_entries_report (d : Diagnostic) :
    (j.report d).entries.toList = j.entries.toList ++ [.diagnostic d] :=
  toList_entries_write j _

@[simp]
theorem toList_entries_repaired (r : Repair) :
    (j.repaired r).entries.toList = j.entries.toList ++ [.diagnostic r.failure] :=
  toList_entries_report j _

@[simp]
theorem toList_entries_writeAll :
    ∀ (es : List Entry) (j : Journal), (j.writeAll es).entries.toList = j.entries.toList ++ es
  | [], j => by simp [writeAll]
  | e :: es, j => by
    have ih := toList_entries_writeAll es (j.write e)
    simpa [writeAll] using ih

theorem aborted_writeAll :
    ∀ (es : List Entry) (j : Journal), (j.writeAll es).aborted = j.aborted
  | [], _ => rfl
  | e :: es, j => aborted_writeAll es (j.write e)

theorem surveyed_writeAll :
    ∀ (es : List Entry) (j : Journal), (j.writeAll es).surveyed = j.surveyed
  | [], _ => rfl
  | e :: es, j => surveyed_writeAll es (j.write e)

theorem repairs_writeAll :
    ∀ (es : List Entry) (j : Journal), (j.writeAll es).repairs = j.repairs
  | [], _ => rfl
  | e :: es, j => repairs_writeAll es (j.write e)

theorem diagnostics_eq_filterMap :
    j.diagnostics = j.entries.toList.filterMap Entry.diagnostic? :=
  rfl

theorem mem_diagnostics {d : Diagnostic} :
    d ∈ j.diagnostics ↔ .diagnostic d ∈ j.entries.toList := by
  rw [diagnostics_eq_filterMap, List.mem_filterMap]
  constructor
  · rintro ⟨e, he, hd⟩
    cases e with
    | diagnostic d' =>
      obtain rfl := Option.some.inj hd
      exact he
    | _ => cases hd
  · exact fun hd => ⟨_, hd, rfl⟩

theorem diagnostics_report (d : Diagnostic) : (j.report d).diagnostics = j.diagnostics ++ [d] := by
  simp [diagnostics_eq_filterMap, Entry.diagnostic?]

theorem diagnostics_repaired (r : Repair) :
    (j.repaired r).diagnostics = j.diagnostics ++ [r.failure] :=
  diagnostics_report j _

theorem isPrefix_diagnostics {i j : Journal} (h : i.entries.toList <+: j.entries.toList) :
    i.diagnostics <+: j.diagnostics :=
  h.filterMap _

end Journal

/-! ## The table -/

namespace Variable

/-- The variable with what the entry says about the name. -/
def note (name : String) (e : Entry) (v : Variable) : Variable :=
  { v with
    usages := v.usages ++ (e.usageOf? name).toList
    definitions := v.definitions ++ (e.definitionOf? name).toList
    comments := v.comments ++ (e.definitionOf? name).toList.map Token.comment }

/-- What the entries say about the variable `name`. -/
def ofEntries (es : List Entry) (name : String) : Variable where
  name := name
  usages := es.filterMap (Entry.usageOf? name)
  definitions := es.filterMap (Entry.definitionOf? name)
  comments := (es.filterMap (Entry.definitionOf? name)).map Token.comment

theorem ofEntries_append_singleton (es : List Entry) (e : Entry) (name : String) :
    ofEntries (es ++ [e]) name = (ofEntries es name).note name e := by
  have h : ∀ f : Entry → Option Token, [e].filterMap f = (f e).toList := by
    intro f
    cases hf : f e <;> simp [hf]
  simp only [ofEntries, note, List.filterMap_append, List.map_append, h]

theorem note_of_name_ne {e : Entry} {name : String} (h : e.name? ≠ some name) (v : Variable) :
    v.note name e = v := by
  simp [note, Entry.usageOf?_eq_none h, Entry.definitionOf?_eq_none h]

theorem ofEntries_of_not_mem {es : List Entry} {name : String}
    (h : name ∉ es.filterMap Entry.name?) : ofEntries es name = { name } := by
  have hne : ∀ e ∈ es, e.name? ≠ some name := fun e he hname =>
    h (List.mem_filterMap.2 ⟨e, he, hname⟩)
  have hu : es.filterMap (Entry.usageOf? name) = [] :=
    List.filterMap_eq_nil_iff.2 fun e he => Entry.usageOf?_eq_none (hne e he)
  have hd : es.filterMap (Entry.definitionOf? name) = [] :=
    List.filterMap_eq_nil_iff.2 fun e he => Entry.definitionOf?_eq_none (hne e he)
  rw [ofEntries, hu, hd, List.map_nil]

end Variable

namespace VariableTable

/-- An entry changes the record of the variable it is about. -/
theorem byName_record {e : Entry} {name : String} (h : e.name? = some name)
    (table : VariableTable) :
    (table.record e).byName = updateRecords name (Variable.note name e) table.byName := by
  rcases e with d | ⟨t, _ | _⟩ | ⟨n, t⟩
  · simp [Entry.name?] at h
  all_goals
    obtain rfl := Option.some.inj h
    refine congrArg (updateRecords _ · table.byName) (funext fun v => ?_)
    simp [Variable.note, Variable.addUsage, Variable.addDefinition, Entry.usageOf?,
      Entry.definitionOf?]

/-- In records kept under a list of names, a change is made under its name, or in a new record at
the end. -/
theorem updateRecords_map {name : String} {change : Variable → Variable} {f : String → Variable} :
    ∀ {names : List String}, names.Nodup → updateRecords name change (names.map fun n => (n, f n)) =
      if name ∈ names then names.map fun n => (n, if n = name then change (f n) else f n)
      else (names.map fun n => (n, f n)) ++ [(name, change { name })]
  | [], _ => by simp [updateRecords]
  | n :: names, hn => by
    obtain ⟨hmem, hnodup⟩ := List.nodup_cons.1 hn
    rw [List.map_cons, updateRecords]
    by_cases h : n = name
    · subst h
      have hrest : (names.map fun m => (m, f m)) =
          names.map fun m => (m, if m = n then change (f m) else f m) := by
        refine List.map_congr_left fun m hm => ?_
        rw [if_neg]
        rintro rfl
        exact hmem hm
      simp [hrest]
    · rw [if_neg h, updateRecords_map hnodup]
      by_cases hm : name ∈ names
      · simp [hm, h]
      · simp [hm, Ne.symm h]

/-- Under each name, in the order of first appearance, a record with all that is said about it. -/
theorem byName_foldl (es : List Entry) : (es.foldl record {}).byName =
    (es.filterMap Entry.name?).eraseDups.map fun n => (n, Variable.ofEntries es n) := by
  induction es using List.reverseRecOn with
  | nil => rfl
  | append_singleton es e ih =>
    rw [List.foldl_append, List.foldl_cons, List.foldl_nil]
    have hnote : Variable.ofEntries (es ++ [e]) = fun n => (Variable.ofEntries es n).note n e :=
      funext (Variable.ofEntries_append_singleton es e)
    cases hname : e.name? with
    | none =>
      obtain ⟨d, rfl⟩ : ∃ d, e = .diagnostic d := by
        cases e <;> simp_all [Entry.name?]
      have hsame : ∀ n (v : Variable), v.note n (.diagnostic d) = v := fun n =>
        Variable.note_of_name_ne (by simp [Entry.name?])
      simp [record, ih, hnote, hsame, hname]
    | some name =>
      have hother : ∀ n, (if n = name then (Variable.ofEntries es n).note name e
          else Variable.ofEntries es n) = (Variable.ofEntries es n).note n e := by
        intro n
        split_ifs with hn
        · rw [hn]
        · exact (Variable.note_of_name_ne (by rw [hname]; simpa using Ne.symm hn) _).symm
      rw [byName_record hname, ih, updateRecords_map (nodup_eraseDups _), List.filterMap_append,
        show [e].filterMap Entry.name? = [name] by simp [hname], eraseDups_append_singleton, hnote]
      simp only [hother]
      by_cases hm : name ∈ es.filterMap Entry.name?
      · rw [if_pos (List.mem_eraseDups.2 hm), if_pos hm]
      · rw [if_neg (mt List.mem_eraseDups.1 hm), if_neg hm, List.map_append,
          List.map_singleton, Variable.ofEntries_of_not_mem hm]
        congr 1
        refine List.map_congr_left fun n hn => ?_
        rw [Variable.note_of_name_ne]
        rw [hname]
        rintro h
        obtain rfl := Option.some.inj h
        exact hm (List.mem_eraseDups.1 hn)

/-- A record for each name, in the order of first appearance, with all that is said about it. -/
theorem records_foldl (es : List Entry) : (es.foldl record {}).records =
    ((es.filterMap Entry.name?).eraseDups.map (Variable.ofEntries es)) := by
  rw [records, byName_foldl, List.map_map]
  rfl

/-- The record of a name has all that is said about it, if anything is. -/
theorem find?_foldl (es : List Entry) (name : String) : (es.foldl record {}).find? name =
    if foldCase name ∈ es.filterMap Entry.name? then some (Variable.ofEntries es (foldCase name))
    else none := by
  have hlookup : ∀ (names : List String) (f : String → Variable) (n : String),
      (names.map fun m => (m, f m)).lookup n = if n ∈ names then some (f n) else none := by
    intro names f n
    induction names with
    | nil => rfl
    | cons m names ih =>
      by_cases h : n = m
      · simp [h]
      · have hne : (n == m) = false := beq_eq_false_iff_ne.2 h
        simp [List.lookup_cons, h, hne, ih]
  rw [find?, byName_foldl, hlookup]
  simp only [List.mem_eraseDups]

/-- The names of `table` are the first names of `more`, and what `table` knows of each of them
is the beginning of what `more` knows. -/
structure IsPrefix (table more : VariableTable) : Prop where
  names : table.records.map Variable.name <+: more.records.map Variable.name
  records : ∀ (i : Nat) (v : Variable), table.records[i]? = some v →
    ∃ w, more.records[i]? = some w ∧ w.name = v.name ∧ v.usages <+: w.usages ∧
      v.definitions <+: w.definitions ∧ v.comments <+: w.comments

/-- With more entries at the end there is more at the ends of the table. -/
theorem isPrefix_of_entries {es fs : List Entry} (h : es <+: fs) :
    IsPrefix (es.foldl record {}) (fs.foldl record {}) := by
  have hnames : (es.filterMap Entry.name?).eraseDups <+: (fs.filterMap Entry.name?).eraseDups :=
    isPrefix_eraseDups (h.filterMap _)
  constructor
  · simpa [records_foldl, Function.comp_def, Variable.ofEntries] using hnames
  · intro i v hv
    rw [records_foldl, List.getElem?_map, Option.map_eq_some_iff] at hv
    obtain ⟨n, hn, rfl⟩ := hv
    refine ⟨Variable.ofEntries fs n, ?_, rfl, h.filterMap _, h.filterMap _,
      (h.filterMap _).map _⟩
    obtain ⟨r, hr⟩ := hnames
    have hlt : i < (es.filterMap Entry.name?).eraseDups.length :=
      (List.getElem?_eq_some_iff.1 hn).1
    rw [records_foldl, List.getElem?_map, ← hr, List.getElem?_append_left hlt, hn]
    rfl

end VariableTable

namespace Journal

theorem table_eq_foldl (j : Journal) :
    j.table = j.entries.toList.foldl VariableTable.record {} := by
  rw [table, Array.foldl_toList]

/-- More entries at the end are recorded in the table there was. -/
theorem table_append {j k : Journal} {es : List Entry}
    (h : k.entries.toList = j.entries.toList ++ es) :
    k.table = es.foldl VariableTable.record j.table := by
  rw [table_eq_foldl, h, List.foldl_append, ← table_eq_foldl]

theorem isPrefix_table {j k : Journal} (h : j.entries.toList <+: k.entries.toList) :
    j.table.IsPrefix k.table := by
  rw [table_eq_foldl, table_eq_foldl]
  exact VariableTable.isPrefix_of_entries h

theorem records_table (j : Journal) : j.table.records =
    (j.entries.toList.filterMap Entry.name?).eraseDups.map
      (Variable.ofEntries j.entries.toList) := by
  rw [table_eq_foldl, VariableTable.records_foldl]

end Journal

end SqfCheck
