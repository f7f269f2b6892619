import StrictDdl.Document.OfModel
import StrictDdl.Proofs.Outcome

/-! What a schema document holds of its model.

A document that was written has a table for every table of the model and a property for
every column, in order (`Model.document_spec`). -/
namespace StrictDdl

/-- Entries with the names of some items, in order, each related to its item. -/
def Entries {α β : Type} (name : α → String) (R : α → β → Prop) :
    List α → List (String × β) → Prop :=
  List.Forall₂ fun a entry => entry.1 = name a ∧ R a entry.2

namespace Entries

variable {α β : Type} {name : α → String} {R : α → β → Prop} {as : List α}
  {entries : List (String × β)}

theorem names_eq (h : Entries name R as entries) : entries.map Prod.fst = as.map name := by
  induction h with
  | nil => rfl
  | cons head _ ih => rw [List.map_cons, List.map_cons, head.1, ih]

/-- Every entry belongs to an item. -/
theorem exists_of_mem (h : Entries name R as entries) {entry : String × β}
    (hmem : entry ∈ entries) : ∃ a ∈ as, entry.1 = name a ∧ R a entry.2 :=
  exists_of_forall₂ h.flip hmem

/-- The first entry with a name belongs to the first item with that name. -/
theorem lookup_eq_some (h : Entries name R as entries) {key : String} {b : β}
    (hb : entries.lookup key = some b) : ∃ a, as.find? (fun a => name a = key) = some a ∧ R a b := by
  induction h with
  | nil => cases hb
  | @cons a entry as entries head _ ih =>
    obtain ⟨k, b'⟩ := entry
    obtain ⟨rfl, hR⟩ := head
    rw [List.lookup_cons] at hb
    by_cases hk : name a = key
    · simp only [hk, BEq.rfl] at hb
      cases hb
      exact ⟨a, by simp [hk], hR⟩
    · have hne : (key == name a) = false := by simpa using fun h => hk h.symm
      rw [hne] at hb
      obtain ⟨a', ha', hR'⟩ := ih hb
      exact ⟨a', by simp [hk, ha'], hR'⟩

theorem lookup_eq_none (h : Entries name R as entries) {key : String}
    (hnone : entries.lookup key = none) : as.find? (fun a => name a = key) = none := by
  induction h with
  | nil => rfl
  | @cons a entry as entries head _ ih =>
    obtain ⟨k, b'⟩ := entry
    obtain ⟨rfl, hR⟩ := head
    rw [List.lookup_cons] at hnone
    by_cases hk : name a = key
    · simp [hk] at hnone
    · have hne : (key == name a) = false := by simpa using fun h => hk h.symm
      rw [hne] at hnone
      simp [hk, ih hnone]

end Entries

namespace Column

/-- The property of a column before its default, key and index. -/
def baseProperty (enums shared : EnumRegistry) (c : Column) : Property :=
  match c.foreignKey with
  | some fk =>
    { ref := some fk.path
      onDelete := writtenAction fk.onDelete
      onUpdate := writtenAction fk.onUpdate }
  | none => c.ruledProperty enums shared c.rules

end Column

namespace Model

/-- What a property says of its column. -/
structure PropertyOf (m : Model) (shared : EnumRegistry) (table : String) (c : Column)
    (p : Property) : Prop where
  eq : p = { c.baseProperty m.enums shared with
    default := p.default
    computedDefault := p.computedDefault
    primaryKey := if c.isPrimaryKey then some true else none
    index := if c.isUnique then some .unique else m.indexFlag? table c.name }
  /-- The references of a referencing column were followed. -/
  owner : c.foreignKey.isSome → ∃ owner, m.owner table c.name = .ok owner

theorem property_spec {m : Model} {shared : EnumRegistry} {table : String} {c : Column}
    {p : Property} (h : (m.property shared table c).outcome = .ok p) :
    m.PropertyOf shared table c p := by
  unfold property at h
  cases hfk : c.foreignKey with
  | some fk =>
    simp only [hfk] at h
    obtain ⟨base, hbase, h⟩ := Traced.bind_eq_ok_iff.1 h
    unfold Column.referenceProperty at hbase
    obtain ⟨owner, howner, hbase⟩ := Traced.bind_eq_ok_iff.1 hbase
    refine ⟨?_, fun _ => ⟨owner, howner⟩⟩
    have hbase' : base = c.baseProperty m.enums shared := by
      rw [Column.baseProperty, hfk]
      dsimp only at hbase
      split at hbase
      · obtain ⟨_, _, hbase⟩ := Traced.bind_eq_ok_iff.1 hbase
        obtain ⟨_, _, hbase⟩ := Traced.bind_eq_ok_iff.1 hbase
        cases hbase
        rfl
      · obtain ⟨_, _, hbase⟩ := Traced.bind_eq_ok_iff.1 hbase
        cases hbase
        rfl
    cases h
    rw [hbase']
  | none =>
    simp only [hfk] at h
    obtain ⟨_, _, h⟩ := Traced.bind_eq_ok_iff.1 h
    cases h
    refine ⟨?_, by simp [hfk]⟩
    rw [Column.baseProperty, hfk]

theorem columnProperties_spec {m : Model} {shared : EnumRegistry} {table : String}
    {columns : List Column} {properties : List (String × Property)}
    (h : (m.columnProperties shared table columns).outcome = .ok properties) :
    Entries Column.name (m.PropertyOf shared table) columns properties := by
  induction columns generalizing properties with
  | nil =>
    cases h
    exact .nil
  | cons c columns ih =>
    unfold columnProperties at h
    obtain ⟨_, _, h⟩ := Traced.bind_eq_ok_iff.1 h
    obtain ⟨p, hp, h⟩ := Traced.bind_eq_ok_iff.1 h
    obtain ⟨rest, hrest, h⟩ := Traced.bind_eq_ok_iff.1 h
    cases h
    exact .cons ⟨rfl, property_spec hp⟩ (ih hrest)

end Model

namespace Table

/-- The columns that are in the last primary key over several columns. -/
def compositeKey (t : Table) : List String :=
  match (t.constraints.filter TableConstraint.isPrimary).getLast? with
  | some key => key.columns
  | none => []

/-- Whether a document requires a column of the table. -/
def requires (t : Table) (c : Column) : Bool :=
  c.isRequired && !c.isPrimaryKey && !t.compositeKey.contains c.name

end Table

namespace Model

/-- What the object of a table says of it. -/
structure SchemaOf (m : Model) (shared : EnumRegistry) (t : Table) (s : TableSchema) : Prop where
  properties : Entries Column.name (m.PropertyOf shared t.name) t.columns s.properties
  required : s.required = (t.columns.filter t.requires).map Column.name

theorem tableSchema_spec {m : Model} {shared : EnumRegistry} {t : Table} {s : TableSchema}
    (h : (m.tableSchema shared t).outcome = .ok s) : m.SchemaOf shared t s := by
  unfold tableSchema at h
  obtain ⟨_, _, h⟩ := Traced.bind_eq_ok_iff.1 h
  obtain ⟨_, _, h⟩ := Traced.bind_eq_ok_iff.1 h
  obtain ⟨properties, hproperties, h⟩ := Traced.bind_eq_ok_iff.1 h
  cases h
  exact ⟨columnProperties_spec hproperties, rfl⟩

/-- What a document says of its model. -/
structure DocumentOf (settings : Settings) (m : Model) (d : Document) : Prop where
  tables : Entries Table.name (m.SchemaOf (m.sharedEnums settings.sharedEnumMinRefs)) m.tables
    d.properties
  defs : d.defs.getD [] =
    (m.sharedEnums settings.sharedEnumMinRefs).map fun e => (e.name, .ofEnum e)
  writable : ∃ j, d.write = .ok j

/-- **A document has the tables and columns of its model, in order.** -/
theorem document_spec {settings : Settings} {m : Model} {d : Document}
    (h : (m.document settings).outcome = .ok d) : m.DocumentOf settings d := by
  unfold document at h
  obtain ⟨_, _, h⟩ := Traced.bind_eq_ok_iff.1 h
  obtain ⟨tables, htables, h⟩ := Traced.bind_eq_ok_iff.1 h
  obtain ⟨_, _, h⟩ := Traced.bind_eq_ok_iff.1 h
  obtain ⟨j, hwrite, h⟩ := Traced.bind_eq_ok_iff.1 h
  cases h
  refine ⟨?_, ?_, j, hwrite⟩
  · refine (Traced.mapM_eq_ok_iff.1 htables).imp fun t entry hentry => ?_
    obtain ⟨s, hs, hentry⟩ := Traced.bind_eq_ok_iff.1 hentry
    cases hentry
    exact ⟨rfl, tableSchema_spec hs⟩
  · simp only
    split
    · rename_i hempty
      rw [List.isEmpty_iff.1 hempty]
      rfl
    · rfl

end Model

end StrictDdl
