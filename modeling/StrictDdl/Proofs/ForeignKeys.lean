import StrictDdl.Proofs.Model.Resolution
import StrictDdl.Proofs.Conversion

/-! What becomes of the references of a parse tree.

A column refers to what the last reference that its source has for it says, unless a column was
found under the name that markers use for it. Two columns can share that name, since it only
joins the names of table and column; so the references of a column that shares it need not be
resolved to what they name (`Model.references_resolved_iff`). Earlier references of a column are
lost without a marker as far as the last one does not say the same
(`Model.references_carried_iff`). -/
namespace StrictDdl

namespace ForeignKey.Draft

/-- The column that the reference is to: the one that it names, or else the only column of the
primary key of its table. -/
def target? (d : Draft) (m : Model) : Option String :=
  if d.column.isNull then d.key? m else d.named?

/-- A reference becomes one thing only. -/
theorem Becomes.column_eq {d : Draft} {first second : Option String} {key : Option ForeignKey}
    (h : d.Becomes first key) (h' : d.Becomes second key) : first = second := by
  cases first with
  | none =>
    have hkey : key = none := h
    cases second with
    | none => rfl
    | some column =>
      obtain ⟨_, _, hsome⟩ := h'
      cases hkey.symm.trans hsome
  | some column =>
    obtain ⟨table, _, hkey⟩ := h
    cases second with
    | none => cases hkey.symm.trans h'
    | some column' =>
      obtain ⟨table', _, hkey'⟩ := h'
      cases hkey.symm.trans hkey'
      rfl

theorem named?_of_isNull {d : Draft} (h : d.column.isNull = true) : d.named? = none := by
  have hcolumn : d.column = .null := by
    cases hcolumn : d.column with
    | null => rfl
    | _ => simp [hcolumn, Json.isNull] at h
  rw [named?, hcolumn]
  rfl

end ForeignKey.Draft

namespace Model

/-- No other column has the name that markers use for this one. -/
def IsAlone (m : Model) (column : ColumnKey) : Prop :=
  ∀ other ∈ m.columnKeys, other.label = column.label → other = column

section Columns

variable {m : Model} {statements : List Json} {source : TableSource} {t : Table} {c : Column}
  {d : ForeignKey.Draft}

theorem mem_references (hsource : source ∈ ParseTree.tables statements) (ht : t.ReadFrom source)
    (hc : c ∈ t.columns) (hd : (source.referencesOf c.name).getLast? = some d) :
    (ColumnKey.label (t.name, c.name), d) ∈ ParseTree.references statements := by
  refine List.mem_flatMap.2 ⟨source, hsource, List.mem_filterMap.2 ⟨c.name, ?_, ?_⟩⟩
  · rw [ht.columns]
    exact List.mem_filterMap.2 ⟨.str c.name, List.mem_map_of_mem hc, rfl⟩
  · rw [hd, TableSource.label, ht.name]
    rfl

/-- A column is found under the name of a column whose reference names none and has one to
find. -/
theorem found?_isSome (hd : (ColumnKey.label (t.name, c.name), d) ∈ ParseTree.references statements)
    (hnull : d.column.isNull = true) (hkey : (d.key? m).isSome = true) :
    (m.found? statements (ColumnKey.label (t.name, c.name))).isSome = true := by
  obtain ⟨key, hkey⟩ := Option.isSome_iff_exists.1 hkey
  have hmem : (ColumnKey.label (t.name, c.name), key) ∈ m.foundKeys statements := by
    refine List.mem_filterMap.2 ⟨_, hd, ?_⟩
    simp [hnull, hkey]
  rw [found?, Option.isSome_iff_ne_none, ne_eq, List.lookup_eq_none_iff]
  intro hnone
  simpa using hnone _ (List.mem_reverse.2 hmem)

/-- What a reference leads to is what it is to, unless another column was found. -/
theorem leadsTo?_eq_iff
    (hd : (ColumnKey.label (t.name, c.name), d) ∈ ParseTree.references statements) :
    d.target? m = m.leadsTo? statements (t.name, c.name) d ↔
      ∀ key, m.found? statements (ColumnKey.label (t.name, c.name)) = some key →
        d.target? m = some key := by
  have hfind := found?_isSome (m := m) hd
  rw [leadsTo?, ForeignKey.Draft.target?]
  cases hfound : m.found? statements (ColumnKey.label (t.name, c.name)) with
  | some key =>
    rw [Option.some_or]
    exact ⟨fun h key' hkey' => hkey' ▸ h, fun h => h key rfl⟩
  | none =>
    refine iff_of_true ?_ (by simp)
    rw [Option.none_or]
    split
    · rename_i hnull
      rw [ForeignKey.Draft.named?_of_isNull hnull, ← Option.not_isSome_iff_eq_none]
      intro hkey
      simpa [hfound] using hfind hnull hkey
    · rfl

/-- What is found under a name that no other column has is what the reference of the column is
to. -/
theorem key?_of_found? (hsound : (m.tables.map Table.name).Nodup)
    (hall : List.Forall₂ Table.ReadFrom (ParseTree.tables statements) m.tables)
    (hsource : source ∈ ParseTree.tables statements) (ht : t.ReadFrom source)
    (hd : (source.referencesOf c.name).getLast? = some d)
    (halone : m.IsAlone (t.name, c.name)) {key : String}
    (hkey : m.found? statements (ColumnKey.label (t.name, c.name)) = some key) :
    d.column.isNull = true ∧ d.key? m = some key := by
  obtain ⟨d', hd', hnull, hfound⟩ := exists_of_found? hkey
  obtain ⟨source', hsource', hentry⟩ := List.mem_flatMap.1 hd'
  obtain ⟨column, hcolumn, hkept⟩ := List.mem_filterMap.1 hentry
  obtain ⟨last, hlast, heq⟩ := Option.map_eq_some_iff.1 hkept
  obtain ⟨hlabel, rfl⟩ := Prod.mk.inj heq
  obtain ⟨t', ht', hreads⟩ := exists_of_forall₂ hall hsource'
  rw [hreads.columns] at hcolumn
  obtain ⟨j, hj, hstr⟩ := List.mem_filterMap.1 hcolumn
  obtain ⟨c', hc', rfl⟩ := List.mem_map.1 hj
  cases hstr
  rw [TableSource.label, hreads.name] at hlabel
  have hother : (t'.name, c'.name) ∈ m.columnKeys :=
    List.mem_flatMap.2 ⟨t', ht', List.mem_map.2 ⟨c', hc', rfl⟩⟩
  obtain ⟨hname, hcname⟩ := Prod.mk.inj (halone _ hother hlabel)
  -- Tables have names of their own, and so have their sources.
  have hnames : ((ParseTree.tables statements).map TableSource.name).Nodup := by
    have heq : (m.tables.map Table.name).map .str =
        (ParseTree.tables statements).map TableSource.name := by
      rw [List.map_map]
      exact map_eq_of_forall₂ hall fun _ _ _ hread => hread.name.symm
    rw [← heq]
    exact hsound.map fun _ _ => Json.str.inj
  have hsame : source' = source :=
    List.inj_on_of_nodup_map hnames hsource' hsource (by rw [hreads.name, ht.name, hname])
  rw [hsame, hcname, hd] at hlast
  rw [Option.some.inj hlast]
  exact ⟨hnull, hfound⟩

/-- The reference of a column with a name of its own leads to what it is to. -/
theorem leadsTo?_of_isAlone (hsound : (m.tables.map Table.name).Nodup)
    (hall : List.Forall₂ Table.ReadFrom (ParseTree.tables statements) m.tables)
    (hsource : source ∈ ParseTree.tables statements) (ht : t.ReadFrom source) (hc : c ∈ t.columns)
    (hd : (source.referencesOf c.name).getLast? = some d) (halone : m.IsAlone (t.name, c.name)) :
    d.target? m = m.leadsTo? statements (t.name, c.name) d := by
  rw [leadsTo?_eq_iff (mem_references hsource ht hc hd)]
  intro key hkey
  obtain ⟨hnull, hfound⟩ := key?_of_found? hsound hall hsource ht hd halone hkey
  rw [ForeignKey.Draft.target?, if_pos hnull, hfound]

end Columns

variable {settings : Settings} {tree : Json} {m : Model}

/-- How the references of a table are resolved: that of a column becomes what its source says
exactly if every column that was found under the name that markers use is the one that it is to,
and it does so if no other column has that name. -/
structure Resolves (m : Model) (statements : List Json) (source : TableSource) (t : Table) :
    Prop where
  name : source.name = .str t.name
  columns : source.columns = t.columns.map fun c => .str c.name
  references : ∀ c ∈ t.columns, match (source.referencesOf c.name).getLast? with
    | some d =>
      (d.Becomes (d.target? m) c.foreignKey ↔ ∀ key,
        m.found? statements (ColumnKey.label (t.name, c.name)) = some key →
          d.target? m = some key) ∧
      (m.IsAlone (t.name, c.name) → d.Becomes (d.target? m) c.foreignKey)
    | none => c.foreignKey = none

/-- **Whether references are resolved to what they name.** The reference of a column becomes what
its source says (table and actions, with the column that it names, or else the only column of the
primary key of its table, or nothing) exactly if no other column was found under the name that
markers use for the column. So it does if no other column has that name. Every column with a
reference that names no column and finds none has one marker. -/
theorem references_resolved_iff (h : (build settings tree).outcome = .ok m) :
    ∃ statements, ParseTree.statements tree = .ok statements ∧
      List.Forall₂ (m.Resolves statements) (ParseTree.tables statements) m.tables ∧
      (m.markers.filter Marker.isDangling).map Marker.entity = m.lostLabels statements := by
  have hsound := build_sound h
  obtain ⟨statements, hstatements, ⟨drafts⟩⟩ := exists_drafts h
  refine ⟨statements, hstatements, ?_, ?_⟩
  · refine forall₂_imp_of_mem (drafts.becomes hsound) fun source hsource t _ hread => ?_
    obtain ⟨ht, hall⟩ := hread
    refine ⟨ht.name, ht.columns, fun c hc => ?_⟩
    have hbecomes := hall c hc
    cases hlast : (source.referencesOf c.name).getLast? with
    | none =>
      rw [hlast] at hbecomes
      exact hbecomes
    | some d =>
      rw [hlast] at hbecomes
      have hiff : d.Becomes (d.target? m) c.foreignKey ↔
          d.target? m = m.leadsTo? statements (t.name, c.name) d :=
        ⟨fun h => h.column_eq hbecomes.1, fun heq => heq ▸ hbecomes.1⟩
      refine ⟨hiff.trans (leadsTo?_eq_iff (mem_references hsource ht hc hlast)), fun halone => ?_⟩
      exact hiff.2
        (leadsTo?_of_isAlone hsound.names drafts.readFrom.tables hsource ht hc hlast halone)
  · rw [drafts.dangling_eq, drafts.unresolved_entities]

end Model

namespace Sample

/-- A reference to a table, and the columns that it names. -/
def reference (tableName : String) (columns : List String) : Json :=
  constraint "CONSTR_FOREIGN" [("pktable", .obj [("relname", .str tableName)]),
    ("pk_attrs", .arr (columns.map name))]

/-- Two referencing columns with one name in markers: one of them names no column. -/
def namesakes : Json :=
  .arr [table "item" [column "id" "int4" [constraint "CONSTR_PRIMARY" []],
      column "code" "int4" [constraint "CONSTR_UNIQUE" []]],
    table "a" [column "b.c" "int4" [reference "item" []]],
    table "a.b" [column "c" "int4" [reference "item" ["code"]],
      column "d" "int4" [reference "nowhere" []]]]

end Sample

namespace Model

/-- The column that names `code` refers to `id`, which was found for its namesake. -/
theorem namesakes_resolved : ∃ m statements, (build {} Sample.namesakes).outcome = .ok m ∧
    m.tables.map (fun t => t.columns.map Column.foreignKey) =
      [[none, none], [some ⟨"item", "id", .noAction, .noAction⟩],
        [some ⟨"item", "id", .noAction, .noAction⟩, none]] ∧
    ParseTree.statements Sample.namesakes = .ok statements ∧
    List.Forall₂ (m.Resolves statements) (ParseTree.tables statements) m.tables ∧
    (m.markers.filter Marker.isDangling).map Marker.entity = m.lostLabels statements := by
  have hview : (do
      let m ← (build {} Sample.namesakes).outcome
      return m.tables.map fun t => t.columns.map Column.foreignKey : Read _).toOption =
      some [[none, none], [some ⟨"item", "id", .noAction, .noAction⟩],
        [some ⟨"item", "id", .noAction, .noAction⟩, none]] := by
    decide +kernel
  obtain ⟨m, hm, hview⟩ := Read.bind_eq_ok_iff.1 (Read.eq_ok_of_toOption hview)
  obtain ⟨statements, hstatements, hresolves, hmarkers⟩ := references_resolved_iff hm
  exact ⟨m, statements, hm, Except.ok.inj hview, hstatements, hresolves, hmarkers⟩

end Model

/-! ### References that are carried over -/

/-- The column refers to the table of the reference, with its actions, and to the column that it
names, if it names one. -/
def Column.Represents (c : Column) (d : ForeignKey.Draft) : Prop :=
  ∃ fk, c.foreignKey = some fk ∧ d.table = .str fk.table ∧
    (d.column.isNull = true ∨ d.column = .str fk.column) ∧
    d.onDelete = fk.onDelete ∧ d.onUpdate = fk.onUpdate

/-- Both references are to the same table, with the same actions, and the first is to this column
if it names one. -/
def ForeignKey.Draft.Agrees (d last : Draft) (column : String) : Prop :=
  d.table = last.table ∧ (d.column.isNull = true ∨ d.column = .str column) ∧
    d.onDelete = last.onDelete ∧ d.onUpdate = last.onUpdate

theorem ForeignKey.Draft.Becomes.represents_iff {last : Draft} {column? : Option String}
    {c : Column} (h : last.Becomes column? c.foreignKey) (d : Draft) :
    c.Represents d ↔ ∃ column, column? = some column ∧ d.Agrees last column := by
  cases column? with
  | none =>
    have hnone : c.foreignKey = none := h
    constructor
    · rintro ⟨fk, hfk, _⟩
      cases hnone.symm.trans hfk
    · rintro ⟨_, ⟨⟩, _⟩
  | some column =>
    obtain ⟨table, htable, hkey⟩ := h
    constructor
    · rintro ⟨fk, hfk, hfkTable, hcolumn, honDelete, honUpdate⟩
      cases hkey.symm.trans hfk
      exact ⟨column, rfl, hfkTable.trans htable.symm, hcolumn, honDelete, honUpdate⟩
    · rintro ⟨_, ⟨⟩, hagree, hcolumn, honDelete, honUpdate⟩
      exact ⟨_, hkey, hagree.trans htable, hcolumn, honDelete, honUpdate⟩

/-- A marker says that the reference of the column leads nowhere. -/
def Model.Marks (m : Model) (column : Model.ColumnKey) : Prop :=
  ∃ marker ∈ m.markers, marker.isDangling = true ∧ marker.entity = column.label

namespace Model

section Carried

variable {settings : Settings} {m : Model} {statements : List Json}

theorem Drafts.marks_iff (drafts : m.Drafts settings statements) (column : ColumnKey) :
    m.Marks column ↔ column.label ∈ m.lostLabels statements := by
  rw [← drafts.unresolved_entities, ← drafts.dangling_eq, List.mem_map]
  constructor
  · rintro ⟨marker, hmarker, hdangling, hentity⟩
    exact ⟨marker, List.mem_filter.2 ⟨hmarker, hdangling⟩, hentity⟩
  · rintro ⟨marker, hmarker, hentity⟩
    obtain ⟨hmarker, hdangling⟩ := List.mem_filter.1 hmarker
    exact ⟨marker, hmarker, hdangling, hentity⟩

/-- A reference that becomes what it is to is represented or marked, unless the column that it
names is empty. -/
theorem Drafts.represents_or_marks (drafts : m.Drafts settings statements) {t : Table} {c : Column}
    {d : ForeignKey.Draft}
    (hd : (ColumnKey.label (t.name, c.name), d) ∈ ParseTree.references statements)
    (hbecomes : d.Becomes (d.target? m) c.foreignKey)
    (hleads : d.column.truthy = true → (d.target? m).isSome = true)
    (hcolumn : d.column.isNull = true ∨ d.column.truthy = true) :
    c.Represents d ∨ m.Marks (t.name, c.name) := by
  cases htarget : d.target? m with
  | some column =>
    left
    rw [hbecomes.represents_iff]
    refine ⟨column, htarget, rfl, ?_, rfl, rfl⟩
    unfold ForeignKey.Draft.target? at htarget
    split at htarget
    · rename_i hnull
      exact .inl hnull
    · right
      unfold ForeignKey.Draft.named? at htarget
      split at htarget
      · exact Json.str?_eq_some_iff.1 htarget
      · cases htarget
  | none =>
    right
    rw [htarget] at hleads
    have hnull : d.column.isNull = true := by
      rcases hcolumn with hnull | htruthy
      · exact hnull
      · cases hleads htruthy
    rw [drafts.marks_iff]
    refine List.mem_filterMap.2 ⟨_, hd, ?_⟩
    rw [ForeignKey.Draft.target?, if_pos hnull] at htarget
    simp [hnull, htarget]

end Carried

variable {settings : Settings} {tree : Json} {m : Model}

/-- How the references of a table are carried over: one of several columns together has a marker
of its own on its table or column, and any other is one of those of a column. That one is
represented exactly if the last of them agrees with it and leads to a column that it names or
leaves open, and it is marked exactly if the last of them leads nowhere. -/
structure Carries (m : Model) (statements : List Json) (source : TableSource) (t : Table) :
    Prop where
  name : source.name = .str t.name
  composites : ∃ lost,
    List.Forall₂ (Marker.LossOf (LetterCase.upper ForeignKey.composite) source.name)
      (source.constraints.filter ConstraintSource.isComposite) lost ∧ lost.Sublist t.markers
  references : ∀ k ∈ source.constraints, k.isReference = true → k.isComposite = false →
    ∃ c ∈ t.columns, ∃ d last, k.referenceOn? c.name = some d ∧
      (source.referencesOf c.name).getLast? = some last ∧
      (c.Represents d ↔ ∃ column,
        m.leadsTo? statements (t.name, c.name) last = some column ∧ d.Agrees last column) ∧
      (m.Marks (t.name, c.name) ↔
        ColumnKey.label (t.name, c.name) ∈ m.lostLabels statements) ∧
      (d = last → m.IsAlone (t.name, c.name) → d.column.isNull = true ∨ d.column.truthy = true →
        c.Represents d ∨ m.Marks (t.name, c.name))

/-- **Which references are carried over.** References of several columns together are marked. Of
the references of one column the last one is represented or marked, if no other column has the
name that markers use and the column that it names is not empty. An earlier one is represented if
the last one agrees with it, and lost otherwise. -/
theorem references_carried_iff (h : (build settings tree).outcome = .ok m) :
    ∃ statements, ParseTree.statements tree = .ok statements ∧
      List.Forall₂ (m.Carries statements) (ParseTree.tables statements) m.tables ∧
      (m.tables.flatMap Table.markers).Subperm m.markers := by
  have hsound := build_sound h
  obtain ⟨statements, hstatements, ⟨drafts⟩⟩ := exists_drafts h
  refine ⟨statements, hstatements, ?_, drafts.readFrom.among⟩
  refine forall₂_imp_of_mem (drafts.becomes hsound) fun source hsource t _ hread => ?_
  obtain ⟨ht, hall⟩ := hread
  refine ⟨ht.name, ht.composites, fun k hk hreference hsingle => ?_⟩
  obtain ⟨c, hc, d, hd⟩ : ∃ c ∈ t.columns, ∃ d, k.referenceOn? c.name = some d := by
    rcases ht.referencing k hk hreference with hcomposite | hfound
    · cases hsingle.symm.trans hcomposite
    · exact hfound
  have hmem : d ∈ source.referencesOf c.name := List.mem_filterMap.2 ⟨k, hk, hd⟩
  obtain ⟨last, hlast⟩ : ∃ last, (source.referencesOf c.name).getLast? = some last :=
    Option.isSome_iff_exists.1 (by simpa using List.ne_nil_of_mem hmem)
  have hbecomes := hall c hc
  rw [hlast] at hbecomes
  obtain ⟨hbecomes, hleads⟩ := hbecomes
  refine ⟨c, hc, d, last, hd, hlast, hbecomes.represents_iff d, drafts.marks_iff _, ?_⟩
  · rintro rfl halone hcolumn
    have hlabel := mem_references hsource ht hc hlast
    rw [← leadsTo?_of_isAlone hsound.names drafts.readFrom.tables hsource ht hc hlast halone]
      at hbecomes hleads
    exact drafts.represents_or_marks hlabel hbecomes hleads hcolumn

end Model

namespace Sample

/-- A column with two references, of which the first is lost, and a reference of two columns. -/
def rivals : Json :=
  .arr [table "author" [column "id" "int4" [constraint "CONSTR_PRIMARY" []]],
    table "editor" [column "id" "int4" [constraint "CONSTR_PRIMARY" []]],
    table "book" [column "person" "int4" [reference "author" ["id"], reference "editor" ["id"],
      reference "author" ["id", "name"]]]]

end Sample

namespace Model

/-- Of the two references of the column only the second is there, and nothing is said about the
first. -/
theorem rivals_carried : ∃ m statements, (build {} Sample.rivals).outcome = .ok m ∧
    m.tables.map (fun t => t.columns.map Column.foreignKey) =
      [[none], [none], [some ⟨"editor", "id", .noAction, .noAction⟩]] ∧
    m.markers.map (fun marker => (marker.construct, marker.entity)) =
      [("COMPOSITE FOREIGN KEY", "book.person")] ∧
    ParseTree.statements Sample.rivals = .ok statements ∧
    List.Forall₂ (m.Carries statements) (ParseTree.tables statements) m.tables ∧
    (m.tables.flatMap Table.markers).Subperm m.markers := by
  have hview : (do
      let m ← (build {} Sample.rivals).outcome
      return (m.tables.map fun t => t.columns.map Column.foreignKey,
        m.markers.map fun marker => (marker.construct, marker.entity)) : Read _).toOption =
      some ([[none], [none], [some ⟨"editor", "id", .noAction, .noAction⟩]],
        [("COMPOSITE FOREIGN KEY", "book.person")]) := by
    decide +kernel
  obtain ⟨m, hm, hview⟩ := Read.bind_eq_ok_iff.1 (Read.eq_ok_of_toOption hview)
  obtain ⟨hkeys, hmarkers⟩ := Prod.ext_iff.1 (Except.ok.inj hview)
  obtain ⟨statements, hstatements, hcarries, hamong⟩ := references_carried_iff hm
  exact ⟨m, statements, hm, hkeys, hmarkers, hstatements, hcarries, hamong⟩

end Model

end StrictDdl
