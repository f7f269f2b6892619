import StrictDdl.Ddl
import StrictDdl.Document
import StrictDdl.Document.Reference
import StrictDdl.Journal
import StrictDdl.Settings
import StrictDdl.SqlType
import StrictDdl.Walk

/-! The structure of a schema document as a script: tables, columns, keys, references
and indexes, without defaults and rules.

The type of a column is that of the property its references lead to. A reference to
nothing leaves the column without a type of its own and is marked. -/
namespace StrictDdl

namespace TypeSpec

/-- How values of a JSON type are stored. -/
def storageOf : List (String × String) :=
  [("string", "TEXT"), ("integer", "INTEGER"), ("number", "REAL"), ("boolean", "INTEGER"),
   ("object", "TEXT"), ("array", arrayStorage)]

end TypeSpec

namespace Property

/-- How the values of a property without a reference are stored. -/
def storage (p : Property) : String :=
  if p.items.isSome || p.scalarType? = some "array" then TypeSpec.arrayStorage
  else (p.scalarType?.bind fun name => TypeSpec.storageOf.lookup name).getD TypeSpec.unknown.storage

/-- The path a property refers to; an empty one is none. -/
def path? (p : Property) : Option String := p.ref.filter (· ≠ "")

/-- The column a property refers to. -/
def columnRef? (p : Property) : Option (String × String) := p.path?.bind RefKey.column?

end Property

namespace Document

/-! ### References -/

/-- The end of a chain of references. -/
inductive ChainEnd where
  | property (p : Property)
  | missing
  /-- A path that is of no known form. -/
  | unrecognised

def find? (d : Document) : RefKey → Option Property
  | .column table column => d.property? table column
  | .definition name => d.definition? name

def keys (d : Document) : List RefKey :=
  (d.properties.flatMap fun (table, t) => t.properties.map fun (column, _) => .column table column) ++
  (d.defs.getD []).map fun (name, _) => .definition name

theorem mem_of_lookup {α : Type} {entries : List (String × α)} {key : String} {a : α}
    (h : entries.lookup key = some a) : (key, a) ∈ entries := by
  induction entries with
  | nil => simp at h
  | cons entry rest ih =>
    obtain ⟨k, b⟩ := entry
    rw [List.lookup_cons] at h
    split at h
    · rename_i hk
      simp_all
    · exact List.mem_cons_of_mem _ (ih h)

theorem mem_keys {d : Document} {k : RefKey} {p : Property} (h : d.find? k = some p) :
    k ∈ d.keys := by
  cases k with
  | column table column =>
    simp only [find?, property?, table?, Option.bind_eq_some_iff] at h
    obtain ⟨t, ht, hp⟩ := h
    apply List.mem_append_left
    exact List.mem_flatMap.2 ⟨(table, t), mem_of_lookup ht,
      List.mem_map.2 ⟨(column, p), mem_of_lookup hp, rfl⟩⟩
  | definition name =>
    apply List.mem_append_right
    exact List.mem_map.2 ⟨(name, p), mem_of_lookup h, rfl⟩

/-- One reference. -/
def refStep (d : Document) (k : RefKey) : Step RefKey ChainEnd :=
  match d.find? k with
  | none => .stop .missing
  | some p =>
    match p.path? with
    | none => .stop (.property p)
    | some path =>
      match RefKey.ofPath? path with
      | some next => .go next
      | none => .stop .unrecognised

/-- The walk along the references of a document. -/
def references (d : Document) : Walk RefKey ChainEnd where
  step := d.refStep
  domain := d.keys
  covers := by
    intro k next h
    unfold refStep at h
    split at h
    · simp at h
    · rename_i p hp
      exact mem_keys hp

/-- How a column is stored. -/
def storage (d : Document) (table column : String) : Traced String :=
  match d.references.run (.column table column) with
  | .arrived _ (.property p) => pure p.storage
  | .arrived _ .unrecognised => pure TypeSpec.unknown.storage
  | .arrived path .missing => do
    Traced.drop (.unresolved "$ref" (table ++ "." ++ column)
      (String.intercalate " -> " (path.map RefKey.label) ++ " does not resolve"))
    return TypeSpec.unknown.storage
  | .cycle path => Traced.ofRead (.error (.cyclic (path.map RefKey.label)))

/-! ### Statements -/

/-- An action as it is written. -/
def writtenAction (a : Option String) : Option String :=
  (a.filter (· ≠ "")).map LetterCase.upper

/-- The definition of a column. -/
def column (d : Document) (table : String) (required : Bool) (name : String) (p : Property) :
    Traced Ddl.ColumnDef := do
  let type ← d.storage table name
  let reference := p.columnRef?
  match p.path? with
  | some path =>
    if (RefKey.ofPath? path).isNone then
      Traced.drop (.unresolved "$ref" (table ++ "." ++ name) ("unrecognised reference " ++ path))
  | none => pure ()
  return {
    name
    type
    primaryKey :=
      if p.primaryKey = some true then some (type = "INTEGER" && reference.isNone) else none
    notNull := required
    references := reference.map fun (table, column) =>
      ⟨table, column, writtenAction p.onDelete, writtenAction p.onUpdate⟩ }

/-- The block of a table. -/
def block (d : Document) (name : String) (t : TableSchema) : Traced Ddl.Block := do
  let missing := t.required.filter fun column => (t.properties.lookup column).isNone
  if !missing.isEmpty then
    Traced.ofRead (.error (.structural (.str name)
      ("required names unknown properties: " ++ String.intercalate ", " missing)))
  else if t.properties.isEmpty then
    Traced.drop (.unsupported "TABLE" name "SQLite tables need at least one column")
    return ⟨["TABLE " ++ name], none⟩
  else
    let columns ← t.properties.mapM fun (column, p) =>
      d.column name (t.required.contains column) column p
    return ⟨[], some { name, columns }⟩

/-- The indexes that the columns of a table ask for. -/
def indexes (settings : Settings) (name : String) (t : TableSchema) : List Ddl.CreateIndex :=
  t.properties.filterMap fun (column, p) =>
    match p.index with
    | some .plain => some ⟨Sql.indexName settings.indexStem name [column], name, [column], false⟩
    | some .unique => some ⟨Sql.indexName settings.indexStem name [column], name, [column], true⟩
    | _ => none

/-- The script of a document. -/
def script (settings : Settings) (d : Document) : Traced Ddl.Script := do
  let blocks ← d.properties.mapM fun (name, t) => d.block name t
  let indexes := d.properties.flatMap fun (name, t) => indexes settings name t
  Traced.record {} (.ddlRegenerated blocks.length indexes.length)
  return ⟨blocks, indexes⟩

end Document

end StrictDdl
