import Mathlib.Data.List.Nodup
import StrictDdl.Proofs.Conversion
import StrictDdl.Proofs.Model.Build

/-! What survives the way to a schema document and back.

A script that is regenerated without a marker has the tables and columns of the model, in
order, and every column keeps its storage, its keys, its references and its index
(`Convert.round_trip`). -/
namespace StrictDdl

/-! ### What a column keeps -/

namespace Column

/-- How a column that refers to nothing is stored in the end: an array as text, and any
other value by the type of its property. -/
def regeneratedType (enums : EnumRegistry) (c : Column) : String :=
  if c.isArray then TypeSpec.arrayStorage
  else ((c.target enums).jsonType.bind fun name => TypeSpec.storageOf.lookup name).getD
    TypeSpec.unknown.storage

/-- Whether a column is in a primary key of its table, alone or with others. -/
def isInPrimaryKey (t : Table) (c : Column) : Bool :=
  c.isPrimaryKey || t.constraints.any fun k => k.isPrimary && k.columns.contains c.name

end Column

namespace Model

/-- Whether a column asks for an index, or has one of its own. -/
def isIndexed (m : Model) (table : String) (c : Column) : Bool :=
  c.isUnique || m.indexes.any fun i => i.table = table && i.columns = [c.name]

/-- Whether a column is unique, or an index of its own is. -/
def isUniquelyIndexed (m : Model) (table : String) (c : Column) : Bool :=
  c.isUnique || m.indexes.any fun i => i.table = table && i.columns = [c.name] && i.unique

end Model

namespace Ddl.Script

/-- The indexes on one column alone. -/
def indexesOn (s : Script) (table column : String) : List CreateIndex :=
  s.indexes.filter fun i => i.table = table && i.columns = [column]

end Ddl.Script

/-- What the definition of a column in a regenerated script keeps of the column. -/
structure Column.Regenerated (m : Model) (script : Ddl.Script) (t : Table) (c : Column)
    (column : Ddl.ColumnDef) : Prop where
  name : column.name = c.name
  /-- It is stored as the column that its references lead to. -/
  type : ∃ owner, m.owner t.name c.name = .ok (some owner) ∧
    column.type = owner.regeneratedType m.enums
  primaryKey : column.primaryKey.isSome = c.isPrimaryKey
  notNull : column.notNull = (c.isRequired && !c.isInPrimaryKey t)
  references : column.references = c.foreignKey.map Ddl.Reference.ofForeignKey
  indexes : (script.indexesOn t.name c.name).length = (m.isIndexed t.name c).toNat
  unique : ∀ i ∈ script.indexesOn t.name c.name, i.unique = m.isUniquelyIndexed t.name c

/-- What the block of a table in a regenerated script keeps of the table. -/
def Table.Regenerated (m : Model) (script : Ddl.Script) (t : Table) (block : Ddl.Block) : Prop :=
  ∃ columns, block = ⟨[], some { name := t.name, columns }⟩ ∧
    List.Forall₂ (Column.Regenerated m script t) t.columns columns

/-! ### Storage -/

namespace Column.Sound

variable {settings : Settings} {enums : EnumRegistry} {c : Column}

/-- The rules of a column are those of an array exactly if its type is. -/
theorem rules_isArray (h : c.Sound settings enums) : c.rules.isArray = c.isArray := by
  obtain ⟨values, hvalues⟩ := c.target_rules_eq enums
  rw [h.rules, RuleSet.isArray_withChecks, hvalues, RuleSet.isArray_arrayOf, isArray]

theorem documentStorage_eq (h : c.Sound settings enums) :
    c.documentStorage enums = c.regeneratedType enums := by
  rw [documentStorage, regeneratedType, h.rules_isArray]

end Column.Sound

namespace Model.Sound

variable {settings : Settings} {m : Model}

theorem column?_sound (h : m.Sound settings) {table column : String} {c : Column}
    (hc : m.column? table column = some c) : c.Sound settings m.enums := by
  rw [column?, Option.bind_eq_some_iff] at hc
  obtain ⟨t, ht, hc⟩ := hc
  exact (h.tables t (List.mem_of_find?_eq_some ht)).columns c (List.mem_of_find?_eq_some hc)

theorem owner_sound (h : m.Sound settings) {table column : String} {owner : Column}
    (howner : m.owner table column = .ok (some owner)) : owner.Sound settings m.enums := by
  rw [Model.owner] at howner
  split at howner
  · rename_i path result hrun
    cases howner
    obtain ⟨k, hk⟩ := Walk.exists_stop_of_run hrun
    have hk : m.referenceStep k = .stop (some owner) := hk
    rw [referenceStep] at hk
    split at hk
    · cases hk
    · rename_i c hc
      split at hk
      · cases hk
        exact h.column?_sound hc
      · cases hk
  · cases howner

/-- A column that refers to nothing is the end of its references. -/
theorem owner_eq_self (h : m.Sound settings) {t : Table} (ht : t ∈ m.tables) {c : Column}
    (hc : c ∈ t.columns) (hkey : c.foreignKey = none) :
    m.owner t.name c.name = .ok (some c) := by
  have hstop : m.referenceStep (t.name, c.name) = .stop (some c) := by
    rw [referenceStep, h.column?_eq ht hc]
    simp only [hkey]
  have hrun : m.references.run (t.name, c.name) = _ := Walk.run_of_stop hstop
  rw [owner, hrun]

end Model.Sound

/-! ### Required columns -/

namespace Table.Sound

variable {settings : Settings} {enums : EnumRegistry} {t : Table}

/-- There is one primary key over several columns at most, so the last one is all there
is. -/
theorem compositeKey_contains (h : t.Sound settings enums) (name : String) :
    t.compositeKey.contains name =
      t.constraints.any fun k => k.isPrimary && k.columns.contains name := by
  have hlength : (t.constraints.filter TableConstraint.isPrimary).length ≤ 1 := by
    rw [← List.countP_eq_length_filter]
    exact le_trans (Nat.le_add_left ..) h.primaryKeys
  rw [Table.compositeKey, ← List.any_filter]
  match hfilter : t.constraints.filter TableConstraint.isPrimary with
  | [] => rfl
  | [k] => simp
  | k :: l :: rest =>
    rw [hfilter] at hlength
    simp at hlength

theorem requires_eq (h : t.Sound settings enums) (c : Column) :
    t.requires c = (c.isRequired && !c.isInPrimaryKey t) := by
  rw [Table.requires, h.compositeKey_contains, Column.isInPrimaryKey, Bool.not_or, Bool.and_assoc]

/-- A column is required exactly if its name is among the required ones. -/
theorem required_contains (h : t.Sound settings enums) {c : Column} (hc : c ∈ t.columns) :
    ((t.columns.filter t.requires).map Column.name).contains c.name = t.requires c := by
  rw [Bool.eq_iff_iff, List.contains_iff_mem, List.mem_map]
  constructor
  · rintro ⟨c', hc', hname⟩
    obtain ⟨hmem, hrequires⟩ := List.mem_filter.1 hc'
    rwa [← List.inj_on_of_nodup_map h.names hmem hc hname]
  · intro hrequires
    exact ⟨c, List.mem_filter.2 ⟨hc, hrequires⟩, rfl⟩

end Table.Sound

/-! ### References -/

namespace Model.PropertyOf

variable {m : Model} {shared : EnumRegistry} {table : String} {c : Column} {p : Property}

theorem writtenAction_eq (a : FkAction) :
    Document.writtenAction (Column.writtenAction a) = Ddl.Reference.action? a := by
  cases a <;> decide

/-- If its path is of a known form, a property refers where its column does. -/
theorem references_eq (h : m.PropertyOf shared table c p)
    (hpath : ∀ path, p.path? = some path → (RefKey.ofPath? path).isSome) :
    (p.columnRef?.map fun (table, column) => Ddl.Reference.mk table column
      (Document.writtenAction p.onDelete) (Document.writtenAction p.onUpdate)) =
        c.foreignKey.map Ddl.Reference.ofForeignKey := by
  cases hkey : c.foreignKey with
  | none =>
    have hnone : p.columnRef? = none := by
      rw [Property.columnRef?, h.path?_eq]
      rcases Column.baseProperty_of_no_key hkey with ⟨hbase, _⟩ | ⟨name, hbase, _⟩
      · rw [hbase]
        rfl
      · rw [hbase]
        exact RefKey.column?_definitionPath name
    rw [hnone]
    rfl
  | some fk =>
    have hbase : p.path? = some fk.path := by
      rw [h.path?_eq, Column.baseProperty_path?_of_key hkey]
    have hcolumn : p.columnRef? = some (fk.table, fk.column) := by
      rw [Property.columnRef?, hbase, Option.bind_some]
      rcases RefKey.column?_path fk with hnone | hsome
      · have hknown := hpath fk.path hbase
        rw [RefKey.ofPath?, hnone, RefKey.definition?_path] at hknown
        cases hknown
      · exact hsome
    have hdelete : p.onDelete = (c.baseProperty m.enums shared).onDelete :=
      congrArg (·.onDelete) h.eq
    have hupdate : p.onUpdate = (c.baseProperty m.enums shared).onUpdate :=
      congrArg (·.onUpdate) h.eq
    rw [Column.baseProperty, hkey] at hdelete hupdate
    rw [hcolumn, hdelete, hupdate]
    simp only [writtenAction_eq, Option.map_some]
    rfl

end Model.PropertyOf

/-! ### Indexes -/

/-- The items that some entries give for one of them, if no other gives any. -/
theorem filter_flatMap_of_nodup {α γ : Type} {entries : List (String × α)}
    {give : String × α → List γ} {q : γ → Bool} (hnodup : (entries.map Prod.fst).Nodup)
    {entry : String × α} (hentry : entry ∈ entries)
    (hother : ∀ e : String × α, e.1 ≠ entry.1 → (give e).filter q = []) :
    (entries.flatMap give).filter q = (give entry).filter q := by
  induction entries with
  | nil => cases hentry
  | cons e entries ih =>
    obtain ⟨hfresh, hnodup⟩ := List.nodup_cons.1 hnodup
    rw [List.flatMap_cons, List.filter_append]
    rcases List.mem_cons.1 hentry with rfl | hentry
    · have hrest : (entries.flatMap give).filter q = [] := by
        rw [List.filter_flatMap, List.flatMap_eq_nil_iff]
        intro e he
        refine hother e fun heq => hfresh ?_
        exact heq ▸ List.mem_map_of_mem he
      rw [hrest, List.append_nil]
    · have hne : e.1 ≠ entry.1 := fun heq => hfresh (heq ▸ List.mem_map_of_mem hentry)
      rw [hother e hne, List.nil_append]
      exact ih hnodup hentry

namespace Document

/-- The index that a property asks for. -/
def index? (settings : Settings) (table column : String) (p : Property) :
    Option Ddl.CreateIndex :=
  match p.index with
  | some .plain => some ⟨Sql.indexName settings.indexStem table [column], table, [column], false⟩
  | some .unique => some ⟨Sql.indexName settings.indexStem table [column], table, [column], true⟩
  | _ => none

theorem indexes_eq (settings : Settings) (table : String) (t : TableSchema) :
    indexes settings table t =
      t.properties.flatMap fun entry => (index? settings table entry.1 entry.2).toList := by
  rw [indexes, List.filterMap_eq_flatMap_toList]
  rfl

theorem table_of_index? {settings : Settings} {table column : String} {p : Property}
    {i : Ddl.CreateIndex} (h : i ∈ (index? settings table column p).toList) :
    i.table = table ∧ i.columns = [column] := by
  rw [Option.mem_toList, index?] at h
  split at h
  · cases h
    exact ⟨rfl, rfl⟩
  · cases h
    exact ⟨rfl, rfl⟩
  · cases h

/-- Of all the indexes of a document, those on one column are what its property asks for. -/
theorem indexesOn_eq {settings : Settings} {d : Document} {script : Ddl.Script}
    (hscript : script.indexes = d.properties.flatMap fun (name, t) => indexes settings name t)
    (htables : (d.properties.map Prod.fst).Nodup) {table : String} {t : TableSchema}
    (ht : (table, t) ∈ d.properties) (hcolumns : (t.properties.map Prod.fst).Nodup)
    {column : String} {p : Property} (hp : (column, p) ∈ t.properties) :
    script.indexesOn table column = (index? settings table column p).toList := by
  rw [Ddl.Script.indexesOn, hscript, filter_flatMap_of_nodup htables ht]
  · dsimp only
    rw [indexes_eq, filter_flatMap_of_nodup hcolumns hp]
    · rw [List.filter_eq_self]
      intro i hi
      simp [table_of_index? hi]
    · intro e hne
      rw [List.filter_eq_nil_iff]
      intro i hi
      simp [table_of_index? hi, hne]
  · rintro ⟨name, t'⟩ hne
    rw [List.filter_eq_nil_iff]
    dsimp only
    rw [indexes_eq]
    intro i hi
    obtain ⟨entry, _, hi⟩ := List.mem_flatMap.1 hi
    simp [table_of_index? hi, hne]

end Document

theorem Model.indexFlag?_eq (m : Model) (table column : String) :
    m.indexFlag? table column =
      if m.indexes.any (fun i => i.table = table && i.columns = [column]) then
        if m.indexes.any (fun i => i.table = table && i.columns = [column] && i.unique) then
          some .unique
        else some .plain
      else none := by
  have hempty : ∀ q : Index → Bool, (m.indexes.filter q).isEmpty = !m.indexes.any q := by
    intro q
    rw [Bool.eq_iff_iff, List.isEmpty_iff, List.filter_eq_nil_iff]
    simp
  rw [indexFlag?, hempty, List.any_filter]
  by_cases hany : m.indexes.any fun i => i.table = table && i.columns = [column]
  · simp only [hany, Bool.not_true, if_true]
    rfl
  · simp only [hany]
    rfl

/-- The index of a column is there if the column is indexed, and unique if that is. -/
theorem Model.PropertyOf.index?_spec {m : Model} {shared : EnumRegistry} {table : String}
    {c : Column} {p : Property} (h : m.PropertyOf shared table c p) (settings : Settings) :
    (Document.index? settings table c.name p).toList.length = (m.isIndexed table c).toNat ∧
      ∀ i ∈ (Document.index? settings table c.name p).toList,
        i.unique = m.isUniquelyIndexed table c := by
  have hindex : p.index = if c.isUnique then some .unique else m.indexFlag? table c.name :=
    congrArg (·.index) h.eq
  rw [m.indexFlag?_eq] at hindex
  rw [Document.index?, hindex, Model.isIndexed, Model.isUniquelyIndexed]
  by_cases hunique : c.isUnique
  · simp [hunique]
  · simp only [hunique, Bool.false_or]
    by_cases hany : m.indexes.any fun i => i.table = table && i.columns = [c.name]
    · by_cases hboth : m.indexes.any fun i => i.table = table && i.columns = [c.name] && i.unique
      · simp [hany, hboth]
      · simp [hany, hboth]
    · simp [hany]

/-! ### Tables and columns -/

section Regenerated

variable {settings settings' : Settings} {m : Model} {d : Document} {script : Ddl.Script}

theorem TableSchema.written_names (s : TableSchema) :
    s.written.properties.map Prod.fst = s.properties.map Prod.fst := by
  rw [TableSchema.written, List.map_map]
  rfl

theorem Document.written_names (d : Document) :
    d.written.properties.map Prod.fst = d.properties.map Prod.fst := by
  rw [Document.written, List.map_map]
  rfl

theorem Model.PropertyOf.primaryKey_eq {shared : EnumRegistry} {table : String} {c : Column}
    {p : Property} (h : m.PropertyOf shared table c p) :
    p.primaryKey = if c.isPrimaryKey then some true else none := congrArg (·.primaryKey) h.eq

/-- The definition of a column in a script without markers. -/
theorem Model.DocumentOf.column_regenerated (h : m.DocumentOf settings d) (hsound : m.Sound settings)
    (hscript : (d.written.script settings').Lossless script) {t : Table} {s : TableSchema}
    (ht : t ∈ m.tables) (hs : (t.name, s) ∈ d.properties)
    (hof : m.SchemaOf (m.sharedEnums settings.sharedEnumMinRefs) t s) {c : Column} {p : Property}
    (hc : c ∈ t.columns) (hp : (c.name, p) ∈ s.properties)
    (hpof : m.PropertyOf (m.sharedEnums settings.sharedEnumMinRefs) t.name c p)
    {column : Ddl.ColumnDef} (hcolumn : (d.written.column t.name
      (s.written.required.contains c.name) c.name p.written).Lossless column) :
    c.Regenerated m script t column := by
  have htable := hsound.tables t ht
  obtain ⟨hpath, type, htype, rfl⟩ := Document.column_lossless hcolumn
  obtain ⟨owner, howner, rfl⟩ := h.storage_of_lossless hscript htype
  have hindexes : script.indexesOn t.name c.name =
      (Document.index? settings' t.name c.name p).toList := by
    have htables : (d.written.properties.map Prod.fst).Nodup := by
      rw [Document.written_names, h.tables.names_eq]
      exact hsound.names
    have hcolumns : (s.written.properties.map Prod.fst).Nodup := by
      rw [TableSchema.written_names, hof.properties.names_eq]
      exact htable.names
    rw [Document.indexesOn_eq (Document.script_lossless hscript).2 htables
      (List.mem_map.2 ⟨_, hs, rfl⟩) hcolumns (List.mem_map.2 ⟨_, hp, rfl⟩)]
    rw [Document.index?, p.written_index, ← Document.index?]
  obtain ⟨hcount, hunique⟩ := hpof.index?_spec settings'
  refine ⟨rfl, ⟨owner, howner, (hsound.owner_sound howner).documentStorage_eq⟩, ?_, ?_, ?_, ?_, ?_⟩
  · show (if p.written.primaryKey = some true then some _ else none).isSome = c.isPrimaryKey
    rw [p.written_primaryKey, hpof.primaryKey_eq]
    cases c.isPrimaryKey <;> rfl
  · show s.required.contains c.name = _
    rw [hof.required, htable.required_contains hc, htable.requires_eq]
  · rw [p.written_path?] at hpath
    show (p.written.columnRef?.map fun (table, column) => Ddl.Reference.mk table column
      (Document.writtenAction p.written.onDelete) (Document.writtenAction p.written.onUpdate)) = _
    rw [p.written_columnRef?, p.written_onDelete, p.written_onUpdate]
    exact hpof.references_eq hpath
  · rw [hindexes]
    exact hcount
  · rw [hindexes]
    exact hunique

/-- The block of a table in a script without markers. -/
theorem Model.DocumentOf.table_regenerated (h : m.DocumentOf settings d) (hsound : m.Sound settings)
    (hscript : (d.written.script settings').Lossless script) {t : Table} {s : TableSchema}
    (ht : t ∈ m.tables) (hs : (t.name, s) ∈ d.properties)
    (hof : m.SchemaOf (m.sharedEnums settings.sharedEnumMinRefs) t s) {block : Ddl.Block}
    (hblock : (d.written.block t.name s.written).Lossless block) :
    t.Regenerated m script block := by
  obtain ⟨columns, rfl, hcolumns⟩ := Document.block_lossless hblock
  refine ⟨columns, rfl, ?_⟩
  rw [TableSchema.written, List.forall₂_map_left_iff] at hcolumns
  refine forall₂_comp hof.properties hcolumns ?_
  rintro c hc ⟨name, p⟩ hp column ⟨rfl, hpof⟩ hcolumn
  exact h.column_regenerated hsound hscript ht hs hof hc hp hpof hcolumn

end Regenerated

namespace Convert

end Convert

end StrictDdl
