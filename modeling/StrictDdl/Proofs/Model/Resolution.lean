import StrictDdl.Proofs.Model.Tables

/-! What the references of a model lead to.

The reference that counts for a column is the last one that its source has for it
(`TableSource.references`). One that names no column leads to the only column of the primary key
of its table. Columns found in this way are kept under the name that markers use for the
referencing column, and a column that is kept under the name of a column goes before the one that
its reference names (`Model.Drafts.becomes`). -/
namespace StrictDdl

/-! ### Sources -/

namespace TableSource

/-- The reference that counts for each column, by the name that markers use for the column. -/
def references (source : TableSource) : List (String × ForeignKey.Draft) :=
  (source.columns.filterMap Json.str?).filterMap fun column =>
    ((source.referencesOf column).getLast?).map (source.label (.str column), ·)

end TableSource

/-- The references that count, of all tables in order. -/
def ParseTree.references (statements : List Json) : List (String × ForeignKey.Draft) :=
  (ParseTree.tables statements).flatMap TableSource.references

namespace Model

/-- The only column of the primary key of a table. -/
def keyColumn? (m : Model) (table : String) : Option String :=
  (m.table? table).bind fun t =>
    match t.primaryKey with
    | [key] => some key
    | _ => none

end Model

namespace ForeignKey.Draft

/-- The only column of the primary key of the table that is referred to. -/
def key? (d : Draft) (m : Model) : Option String := d.table.str?.bind m.keyColumn?

/-- The column that is named, unless that is empty. -/
def named? (d : Draft) : Option String := if d.column.truthy then d.column.str? else none

/-- What becomes of the reference if it is to this column, or to none. -/
def Becomes (d : Draft) (column? : Option String) (key : Option ForeignKey) : Prop :=
  match column? with
  | some column => ∃ table, d.table = .str table ∧
    key = some ⟨table, column, d.onDelete, d.onUpdate⟩
  | none => key = none

end ForeignKey.Draft

namespace Model

/-- The columns that are found for references that name none, by the name that markers use for
the referencing column. -/
def foundKeys (m : Model) (statements : List Json) : List (String × String) :=
  (ParseTree.references statements).filterMap fun (label, d) =>
    if d.column.isNull then (d.key? m).map (label, ·) else none

/-- The last column that is found under a name. -/
def found? (m : Model) (statements : List Json) (label : String) : Option String :=
  (m.foundKeys statements).reverse.lookup label

/-- The column that the reference of a column leads to: the one that was found under the name of
the referencing column, or else the one that the reference names. -/
def leadsTo? (m : Model) (statements : List Json) (column : ColumnKey) (d : ForeignKey.Draft) :
    Option String :=
  (m.found? statements column.label).or d.named?

/-- The referencing columns whose references name no column and find none. -/
def lostLabels (m : Model) (statements : List Json) : List String :=
  (ParseTree.references statements).filterMap fun (label, d) =>
    if d.column.isNull && (d.key? m).isNone then some label else none

end Model

theorem Model.exists_of_found? {m : Model} {statements : List Json} {label key : String}
    (h : m.found? statements label = some key) : ∃ d,
      (label, d) ∈ ParseTree.references statements ∧ d.column.isNull = true ∧
        d.key? m = some key := by
  obtain ⟨before, after, hsplit, _⟩ := List.lookup_eq_some_iff.1 h
  have hmem : (label, key) ∈ m.foundKeys statements := by
    rw [← List.mem_reverse, hsplit]
    simp
  obtain ⟨⟨label', d⟩, hd, hentry⟩ := List.mem_filterMap.1 hmem
  dsimp only at hentry
  split at hentry
  · rename_i hnull
    obtain ⟨key', hkey', heq⟩ := Option.map_eq_some_iff.1 hentry
    cases heq
    exact ⟨d, hd, hnull, hkey'⟩
  · cases hentry

/-! ### Looking up columns -/

namespace ModelDraft

/-- Each name finds tables with the same primary key in both drafts. -/
def SameKeys (m m' : ModelDraft) : Prop :=
  ∀ name, (m'.table? name).map TableDraft.primaryKey = (m.table? name).map TableDraft.primaryKey

theorem Marked.sameKeys {m m' : ModelDraft} {markers : List Marker} (h : m.Marked m' markers) :
    m.SameKeys m' := by
  intro name
  have hfind : ∀ {tables tables'}, List.Forall₂ TableDraft.Marked tables tables' →
      (tables'.find? fun t => t.name.same name).map TableDraft.primaryKey =
        (tables.find? fun t => t.name.same name).map TableDraft.primaryKey := by
    intro tables tables' htables
    induction htables with
    | nil => rfl
    | @cons t t' tables tables' ht _ ih =>
      obtain ⟨more, rfl⟩ := ht
      rw [List.find?_cons, List.find?_cons]
      cases t.name.same name with
      | true => rfl
      | false => exact ih
  exact hfind h.tables

end ModelDraft

section Lookup

open Traced

variable {m m₀ m' : ModelDraft} {found found' : FoundColumns} {markers : List Marker}

theorem findReference_eq (h : m₀.SameKeys m) (c : ColumnDraft) :
    findReference m c = findReference m₀ c := by
  unfold findReference
  split
  · rfl
  · rename_i draft _
    split
    · rfl
    · have hkeys := h draft.table
      dsimp only
      cases htable : m.table? draft.table with
      | none =>
        rw [htable, Option.map_none, eq_comm, Option.map_eq_none_iff] at hkeys
        rw [hkeys]
      | some t =>
        rw [htable, Option.map_some] at hkeys
        obtain ⟨t₀, ht₀, hkey⟩ := Option.map_eq_some_iff.1 hkeys.symm
        rw [ht₀]
        simp only [hkey]

/-- The column that is found for the reference of a column that names none. -/
def ColumnDraft.foundIn? (m : ModelDraft) (c : ColumnDraft) : Option (String × Json) :=
  match findReference m c with
  | some (.ok key) => some (c.entity, key)
  | _ => none

/-- The marker that the reference of a column leads nowhere. -/
def ColumnDraft.lostIn? (m : ModelDraft) (c : ColumnDraft) : Option Marker :=
  match findReference m c with
  | some (.error reason) => some (.unresolved "REFERENCES" c.entity reason)
  | _ => none

theorem findReferences_found {table : Json} {columns : List ColumnDraft} (hm : m₀.SameKeys m)
    (h : (findReferences table m found columns).Sets (m', found') markers) :
    m₀.SameKeys m' ∧ found' = (columns.filterMap (·.foundIn? m₀)).reverse ++ found ∧
      markers = columns.filterMap (·.lostIn? m₀) := by
  induction columns generalizing m found markers with
  | nil =>
    obtain ⟨heq, rfl⟩ := pure_sets_iff.1 h
    cases heq
    exact ⟨hm, rfl, rfl⟩
  | cons c columns ih =>
    unfold findReferences at h
    rw [findReference_eq hm] at h
    rw [List.filterMap_cons, List.filterMap_cons, ColumnDraft.foundIn?, ColumnDraft.lostIn?]
    split at h
    · rename_i hnone
      rw [hnone]
      exact ih hm h
    · rename_i key hkey
      rw [hkey]
      obtain ⟨hm', rfl, rfl⟩ := ih hm h
      exact ⟨hm', by simp, rfl⟩
    · rename_i reason hreason
      rw [hreason]
      obtain ⟨m₁, first, rest, hmark, hrest, rfl⟩ := bind_sets_iff.1 h
      obtain ⟨hmarked, rfl⟩ := ModelDraft.marked_of_markTable hmark
      have hm₁ : m₀.SameKeys m₁ := fun name => (hmarked.sameKeys name).trans (hm name)
      obtain ⟨hm', rfl, rfl⟩ := ih hm₁ hrest
      exact ⟨hm', rfl, rfl⟩

theorem findAllReferences_found {tables : List TableDraft} (hm : m₀.SameKeys m)
    (h : (findAllReferences m found tables).Sets (m', found') markers) :
    found' = ((tables.flatMap TableDraft.columns).filterMap (·.foundIn? m₀)).reverse ++ found ∧
      markers = (tables.flatMap TableDraft.columns).filterMap (·.lostIn? m₀) := by
  induction tables generalizing m found markers with
  | nil =>
    obtain ⟨heq, rfl⟩ := pure_sets_iff.1 h
    cases heq
    exact ⟨rfl, rfl⟩
  | cons t tables ih =>
    obtain ⟨⟨m₁, found₁⟩, first, rest, hfirst, hrest, rfl⟩ := bind_sets_iff.1 h
    obtain ⟨hm₁, rfl, rfl⟩ := findReferences_found hm hfirst
    obtain ⟨rfl, rfl⟩ := ih hm₁ hrest
    rw [List.flatMap_cons, List.filterMap_append, List.filterMap_append, List.reverse_append,
      List.append_assoc]
    exact ⟨rfl, rfl⟩

theorem ColumnDraft.foundIn?_eq (h : m₀.SameKeys m) (c : ColumnDraft) :
    c.foundIn? m = c.foundIn? m₀ := by
  rw [foundIn?, foundIn?, findReference_eq h]

theorem ColumnDraft.lostIn?_eq (h : m₀.SameKeys m) (c : ColumnDraft) :
    c.lostIn? m = c.lostIn? m₀ := by
  rw [lostIn?, lostIn?, findReference_eq h]

end Lookup

/-- Whether the marker is for a reference of a column. -/
def Marker.isDangling (m : Marker) : Bool := m.isUnresolved && m.construct = "REFERENCES"

theorem Marker.isUnresolved_of_isDangling (m : Marker) (h : m.isDangling = true) :
    m.isUnresolved = true :=
  (Bool.and_eq_true_iff.1 h).1

section Markers

open Traced

variable {settings : Settings} {enums : EnumRegistry}

theorem readTable_avoids (m : ModelDraft) (position : Nat) (body : Members) :
    (readTable settings enums m position body).Avoids Marker.isDangling := by
  refine Avoids.mono (q := Marker.isUnresolved) ?_ Marker.isUnresolved_of_isDangling
  refine (avoids_liftM _).bind fun relation => (avoids_liftM _).bind fun name => ?_
  exact .ite (avoids_ofRead _) (Avoids.bind readParts_avoids fun _ => avoids_pure _)

theorem readStatements_avoids (m : ModelDraft) (position : Nat) (statements : List Json) :
    (readStatements settings enums m position statements).Avoids Marker.isDangling := by
  induction statements generalizing m position with
  | nil => exact avoids_pure _
  | cons statement statements ih =>
    refine Avoids.bind ?_ fun _ => ih _ _
    refine (avoids_liftM _).bind fun node => ?_
    dsimp only
    split
    · exact readTable_avoids ..
    · exact readIndex_avoids (fun _ _ => rfl) (fun _ _ => rfl) (fun _ _ => rfl) (fun _ _ _ => rfl) ..
    · exact (avoids_record rfl).bind fun _ => avoids_pure _
    · exact (avoids_liftM _).bind fun _ => passOver_avoids (fun _ => rfl) ..

end Markers

/-! ### Finished tables -/

/-- A finished table has the primary key of its draft. -/
theorem TableDraft.Finishes.primaryKey_eq {found : String → Json} {t : TableDraft} {t' : Table}
    (h : t.Finishes found t') : t.primaryKey = t'.primaryKey.map .str := by
  unfold TableDraft.primaryKey Table.primaryKey
  rw [h.constraints]
  cases t.constraints.find? fun c => c.isPrimary with
  | some key => rfl
  | none =>
    have hcolumns : ∀ {cs : List ColumnDraft} {cs' : List Column},
        List.Forall₂ (fun c c' => c.Finishes (found c.entity) c') cs cs' →
        (cs.filter fun c => c.isPrimaryKey).map ColumnDraft.name =
          ((cs'.filter fun c => c.isPrimaryKey).map Column.name).map .str := by
      intro cs cs' hcs
      induction hcs with
      | nil => rfl
      | @cons c c' cs cs' hc _ ih =>
        rw [List.filter_cons, List.filter_cons, hc.isPrimaryKey]
        split
        · rw [List.map_cons, List.map_cons, List.map_cons, hc.name, ih]
        · exact ih
    exact hcolumns h.columns

/-- A table that a draft finds by a name is found by the same text. -/
theorem table?_of_finishes {found : String → Json} {m : Model} {draft : ModelDraft}
    (h : List.Forall₂ (TableDraft.Finishes found) draft.tables m.tables) (name : Json) :
    (draft.table? name).map TableDraft.primaryKey =
      (name.str?.bind m.table?).map fun t => t.primaryKey.map .str := by
  unfold ModelDraft.table? Model.table?
  cases hname : name.str? with
  | none =>
    rw [Option.bind_none, Option.map_none, Option.map_eq_none_iff, List.find?_eq_none]
    intro t ht hsame
    obtain ⟨t', _, hfinishes⟩ := exists_of_forall₂ h ht
    rw [hfinishes.name] at hsame
    rw [Json.eq_str_of_same_str hsame] at hname
    cases hname
  | some s =>
    rw [Json.str?_eq_some_iff.1 hname, Option.bind_some]
    generalize draft.tables = drafts at h
    generalize m.tables = tables at h
    induction h with
    | nil => rfl
    | @cons t t' drafts tables ht _ ih =>
      have hsame : t.name.same (.str s) = decide (t'.name = s) := by
        rw [ht.name]
        simp [Json.same, Bool.beq_eq_decide_eq]
      rw [List.find?_cons, List.find?_cons, hsame]
      cases decide (t'.name = s) with
      | true => exact congrArg some ht.primaryKey_eq
      | false => exact ih

/-- A reference that names no column leads to the key of the finished table, or nowhere. -/
theorem findReference_of_finishes {found : String → Json} {m : Model} {draft : ModelDraft}
    (h : List.Forall₂ (TableDraft.Finishes found) draft.tables m.tables) {c : ColumnDraft}
    {d : ForeignKey.Draft} (hd : c.foreignKey = some d) (hnull : d.column.isNull = true) :
    match d.key? m with
    | some key => findReference draft c = some (.ok (.str key))
    | none => ∃ reason, findReference draft c = some (.error reason) := by
  have htable := table?_of_finishes h d.table
  unfold findReference ForeignKey.Draft.key? Model.keyColumn?
  simp only [hd, hnull, Bool.not_true, Bool.false_eq_true, if_false]
  cases hfound : draft.table? d.table with
  | none =>
    rw [hfound, Option.map_none, eq_comm, Option.map_eq_none_iff] at htable
    rw [← Option.bind_assoc, htable]
    exact ⟨_, rfl⟩
  | some t =>
    rw [hfound, Option.map_some, eq_comm] at htable
    obtain ⟨t', ht', hkey⟩ := Option.map_eq_some_iff.1 htable
    rw [← Option.bind_assoc, ht', Option.bind_some]
    dsimp only
    rw [← hkey]
    rcases t'.primaryKey with _ | ⟨key, _ | ⟨other, rest⟩⟩
    · exact ⟨_, rfl⟩
    · rfl
    · exact ⟨_, rfl⟩

/-- What is found for a column, or not, in terms of the finished tables. -/
theorem ColumnDraft.lookup_of_finishes {found : String → Json} {m : Model} {draft : ModelDraft}
    (h : List.Forall₂ (TableDraft.Finishes found) draft.tables m.tables) (c : ColumnDraft) :
    c.foundIn? draft = ((c.foreignKey.map (c.entity, ·)).bind fun (label, d) =>
      if d.column.isNull then (d.key? m).map (label, ·) else none).map
        (fun (label, key) => (label, .str key)) ∧
    (c.lostIn? draft).map Marker.entity = (c.foreignKey.map (c.entity, ·)).bind (fun (label, d) =>
      if d.column.isNull && (d.key? m).isNone then some label else none) := by
  unfold foundIn? lostIn?
  cases hkey : c.foreignKey with
  | none => simp [findReference, hkey]
  | some d =>
    cases hnull : d.column.isNull with
    | false => simp [findReference, hkey, hnull]
    | true =>
      have hfind := findReference_of_finishes h hkey hnull
      cases hfound : d.key? m with
      | none =>
        rw [hfound] at hfind
        obtain ⟨reason, hreason⟩ := hfind
        simp [hreason, hnull, hfound, Marker.unresolved]
      | some key =>
        rw [hfound] at hfind
        simp [hfind, hnull, hfound]

/-- The references that count are those that the drafts of the columns have. -/
theorem TableDraft.ReadFrom.references_eq {source : TableSource} {t : TableDraft}
    (h : t.ReadFrom source) (htexts : ∀ c ∈ t.columns, ∃ s, c.name = .str s) :
    source.references = t.columns.filterMap fun c => c.foreignKey.map (c.entity, ·) := by
  have hcolumns : source.columns = t.columns.map ColumnDraft.name := by
    rw [← h.columns, TableDraft.parts, List.map_map]
    rfl
  rw [TableSource.references, List.filterMap_filterMap, hcolumns, List.filterMap_map]
  refine List.filterMap_congr fun c hc => ?_
  obtain ⟨s, hs⟩ := htexts c hc
  have hparts : c.parts ∈ t.parts.columns := List.mem_map_of_mem hc
  have hentity : c.entity = source.label c.name := TableParts.Reads.entity_eq h hparts
  have hkey : c.foreignKey = (source.referencesOf s).getLast? := h.references c.parts hparts s hs
  rw [Function.comp_apply, hs, hentity, hs, hkey]
  rfl

/-- A primary key is made of columns of its table. -/
theorem Table.Sound.mem_names_of_primaryKey {settings : Settings} {enums : EnumRegistry} {t : Table}
    (h : t.Sound settings enums) {key : String} (hkey : key ∈ t.primaryKey) :
    key ∈ t.columns.map Column.name := by
  unfold Table.primaryKey at hkey
  split at hkey
  · rename_i k hk
    exact h.keys k (List.mem_of_find?_eq_some hk) key hkey
  · obtain ⟨c, hc, rfl⟩ := List.mem_map.1 hkey
    exact List.mem_map_of_mem (List.mem_of_mem_filter hc)

/-- A reference with its column: the given one, or its own if that one is empty. -/
theorem ForeignKey.Draft.resolve_eq_ok {d : Draft} {column : Json} {fk : ForeignKey}
    (h : d.resolve column = .ok fk) : ∃ table name, d.table = .str table ∧
      (if column.truthy then column else d.column) = .str name ∧
      fk = ⟨table, name, d.onDelete, d.onUpdate⟩ := by
  unfold resolve at h
  obtain ⟨f, name, hf, hname, rfl⟩ := Lenient.and_eq_ok_iff.1 (Lenient.toRead_eq_ok_iff.1 h)
  obtain ⟨table, htable, rfl⟩ := Lenient.map_eq_ok_iff.1 hf
  exact ⟨table, name, Lenient.eq_str_of_fullText (Lenient.under_eq_ok_iff.1 htable),
    Lenient.eq_str_of_fullText (Lenient.under_eq_ok_iff.1 hname), rfl⟩

/-- The reference of a finished column is to what was found for it, or to what it names. -/
theorem ColumnDraft.becomes_of_finishedKey {c : ColumnDraft} {d : ForeignKey.Draft}
    {found? : Option String} {key : Option ForeignKey} (hkey : c.foreignKey = some d)
    (hfound : ∀ s ∈ found?, s ≠ "") (h : c.finishedKey (found?.elim .null .str) = .ok key) :
    d.Becomes (found?.or d.named?) key ∧
      (d.column.truthy = true → (found?.or d.named?).isSome = true) := by
  unfold finishedKey at h
  rw [hkey] at h
  dsimp only at h
  cases found? with
  | some s =>
    have hne : (Json.str s).truthy = true := by simpa [Json.truthy] using hfound s rfl
    rw [Option.elim_some, hne, Bool.or_true, if_pos rfl] at h
    obtain ⟨fk, hfk, rfl⟩ := Read.map_eq_ok_iff.1 h
    obtain ⟨table, name, htable, hname, rfl⟩ := ForeignKey.Draft.resolve_eq_ok hfk
    rw [if_pos hne] at hname
    cases hname
    exact ⟨⟨table, htable, rfl⟩, fun _ => rfl⟩
  | none =>
    rw [Option.none_or, ForeignKey.Draft.named?]
    rw [Option.elim_none, Json.truthy, Bool.or_false] at h
    split at h
    · rename_i htruthy
      obtain ⟨fk, hfk, rfl⟩ := Read.map_eq_ok_iff.1 h
      obtain ⟨table, name, htable, hname, rfl⟩ := ForeignKey.Draft.resolve_eq_ok hfk
      have hname : d.column = .str name := hname
      rw [if_pos htruthy, hname]
      exact ⟨⟨table, htable, rfl⟩, fun _ => rfl⟩
    · rename_i htruthy
      cases h
      rw [if_neg htruthy]
      exact ⟨rfl, fun hyes => absurd hyes htruthy⟩

namespace Model.Drafts

variable {settings : Settings} {m : Model} {statements : List Json}

theorem resolved_readFrom (d : m.Drafts settings statements) :
    d.resolved.ReadFrom settings statements (d.lost ++ d.unresolved) :=
  d.read_readFrom.marked (findAllReferences_marked d.isResolved)

/-- The columns of all drafts. -/
def columns (d : m.Drafts settings statements) : List ColumnDraft :=
  d.resolved.tables.flatMap TableDraft.columns

theorem references_eq (d : m.Drafts settings statements) : ParseTree.references statements =
    d.columns.filterMap fun c => c.foreignKey.map (c.entity, ·) := by
  have hall : ∀ {sources : List TableSource} {drafts : List TableDraft} {tables : List Table},
      List.Forall₂ TableDraft.ReadFrom sources drafts →
      List.Forall₂ (TableDraft.Finishes d.found.get) drafts tables →
      sources.flatMap TableSource.references =
        (drafts.flatMap TableDraft.columns).filterMap fun c => c.foreignKey.map (c.entity, ·) := by
    intro sources drafts tables hreads hfinishes
    induction hreads generalizing tables with
    | nil => rfl
    | @cons source t sources drafts ht _ ih =>
      obtain ⟨t', tables', ht', hrest, rfl⟩ := List.forall₂_cons_left_iff.1 hfinishes
      have htexts : ∀ c ∈ t.columns, ∃ s, c.name = .str s := by
        intro c hc
        obtain ⟨c', _, hcc'⟩ := exists_of_forall₂ ht'.columns hc
        exact ⟨c'.name, hcc'.name⟩
      rw [List.flatMap_cons, List.flatMap_cons, List.filterMap_append, ih hrest,
        ht.references_eq htexts]
  exact hall d.resolved_readFrom.tables d.tables

/-- Which columns were found, and which references lead nowhere. -/
theorem found_eq (d : m.Drafts settings statements) :
    d.found = (d.columns.filterMap (·.foundIn? d.resolved)).reverse ∧
      d.unresolved = d.columns.filterMap (·.lostIn? d.resolved) := by
  have hmarked := findAllReferences_marked d.isResolved
  have hcolumns : d.resolved.tables.map TableDraft.columns = d.read.tables.map TableDraft.columns := by
    refine map_eq_of_forall₂ hmarked.tables fun t _ t' ht => ?_
    obtain ⟨more, rfl⟩ := ht
    rfl
  have hsame : d.read.SameKeys d.read := fun _ => rfl
  obtain ⟨hfound, hlost⟩ := findAllReferences_found hsame d.isResolved
  rw [List.append_nil] at hfound
  rw [columns, List.flatMap_def, hcolumns, ← List.flatMap_def]
  simp only [ColumnDraft.foundIn?_eq hmarked.sameKeys, ColumnDraft.lostIn?_eq hmarked.sameKeys]
  exact ⟨hfound, hlost⟩

theorem found_eq_foundKeys (d : m.Drafts settings statements) :
    d.found = (m.foundKeys statements).reverse.map fun (label, key) => (label, .str key) := by
  rw [d.found_eq.1, List.map_reverse, foundKeys, d.references_eq, List.filterMap_filterMap,
    List.map_filterMap]
  congr 1
  exact List.filterMap_congr fun c _ => (c.lookup_of_finishes d.tables).1

/-- The markers of references that lead nowhere name the columns that have them. -/
theorem unresolved_entities (d : m.Drafts settings statements) :
    d.unresolved.map Marker.entity = m.lostLabels statements := by
  rw [d.found_eq.2, lostLabels, d.references_eq, List.filterMap_filterMap, List.map_filterMap]
  exact List.filterMap_congr fun c _ => (c.lookup_of_finishes d.tables).2

/-- A column that was found has a name. -/
theorem found?_ne_empty (d : m.Drafts settings statements) (hsound : m.Sound settings)
    {label key : String} (h : m.found? statements label = some key) : key ≠ "" := by
  obtain ⟨draft, _, _, hkey⟩ := exists_of_found? h
  obtain ⟨table, _, hcolumn⟩ := Option.bind_eq_some_iff.1 hkey
  obtain ⟨t, ht, hprimary⟩ := Option.bind_eq_some_iff.1 hcolumn
  have ht : t ∈ m.tables := List.mem_of_find?_eq_some ht
  have hprimary : t.primaryKey = [key] := by
    split at hprimary
    · rename_i heq
      cases hprimary
      exact heq
    · cases hprimary
  have hname : key ∈ t.columns.map Column.name :=
    (hsound.tables t ht).mem_names_of_primaryKey (by rw [hprimary]; exact List.mem_singleton.2 rfl)
  obtain ⟨c, hc, rfl⟩ := List.mem_map.1 hname
  obtain ⟨t₀, _, hfinishes⟩ := exists_of_forall₂ d.tables.flip ht
  obtain ⟨c₀, _, hcc⟩ := exists_of_forall₂ hfinishes.columns.flip hc
  exact hcc.nonempty

/-- **What a column refers to**: of the last reference that its source has for it, the table and
the actions, with the column that was found under its name, or else the one that is named. -/
theorem becomes (d : m.Drafts settings statements) (hsound : m.Sound settings) :
    List.Forall₂ (fun source t => t.ReadFrom source ∧ ∀ c ∈ t.columns,
      match (source.referencesOf c.name).getLast? with
      | some draft => draft.Becomes (m.leadsTo? statements (t.name, c.name) draft) c.foreignKey ∧
        (draft.column.truthy = true → (m.leadsTo? statements (t.name, c.name) draft).isSome = true)
      | none => c.foreignKey = none) (ParseTree.tables statements) m.tables := by
  refine forall₂_comp d.resolved_readFrom.tables d.tables ?_
  intro source _ draft _ t hreads hfinishes
  refine ⟨hreads.finish hfinishes, fun c' hc' => ?_⟩
  obtain ⟨c, hc, hcc'⟩ := exists_of_forall₂ hfinishes.columns.flip hc'
  have hparts : c.parts ∈ draft.parts.columns := List.mem_map_of_mem hc
  have hkey : c.foreignKey = (source.referencesOf c'.name).getLast? :=
    hreads.references c.parts hparts c'.name hcc'.name
  have hentity := hreads.entity_eq hfinishes.name hc hcc'.name
  have hget : d.found.get c.entity = (m.found? statements c.entity).elim .null .str := by
    rw [FoundColumns.get, d.found_eq_foundKeys, lookup_map_values, ← found?]
    cases m.found? statements c.entity <;> rfl
  have hfinished := hcc'.foreignKey
  rw [hget] at hfinished
  rw [← hkey]
  simp only [leadsTo?, ← hentity]
  cases hlast : c.foreignKey with
  | some last =>
    exact ColumnDraft.becomes_of_finishedKey hlast (fun _ h => d.found?_ne_empty hsound h) hfinished
  | none =>
    rw [ColumnDraft.finishedKey, hlast] at hfinished
    exact (Except.ok.inj hfinished).symm

/-- The markers of references that lead nowhere are set when references are looked up. -/
theorem dangling_eq (d : m.Drafts settings statements) :
    m.markers.filter Marker.isDangling = d.unresolved := by
  have hlost : d.lost.filter Marker.isDangling = [] := d.isRead.filter_eq_nil (readStatements_avoids ..)
  have hall : ∀ marker ∈ d.unresolved, marker.isDangling = true := by
    intro marker hmarker
    rw [d.found_eq.2] at hmarker
    obtain ⟨c, _, hc⟩ := List.mem_filterMap.1 hmarker
    unfold ColumnDraft.lostIn? at hc
    split at hc
    · cases hc
      rfl
    · cases hc
  rw [d.markers, List.filter_append, hlost, List.filter_eq_self.2 hall]
  rfl

end Model.Drafts

end StrictDdl
