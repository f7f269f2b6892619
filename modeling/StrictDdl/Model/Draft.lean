import StrictDdl.Model

/-! Tables and columns while they are being read.

A draft keeps the names it finds as they are; only the finished column or table has
to have texts for names. A reference may still be without its column, which is
found once every table is known. -/
namespace StrictDdl

structure ColumnDraft where
  name : Json
  /-- The column as markers name it. -/
  entity : String
  target : Target
  isPrimaryKey : Bool := false
  isRequired : Bool := false
  isUnique : Bool := false
  isSerial : Bool := false
  default : Option Default := none
  rules : RuleSet
  foreignKey : Option ForeignKey.Draft := none
  checks : List CheckConstraint := []

namespace ColumnDraft

/-- The reference of the finished column: `found` is the column of the reference, if
it was looked up. -/
def finishedKey (c : ColumnDraft) (found : Json) : Read (Option ForeignKey) :=
  match c.foreignKey with
  | none => .ok none
  | some draft =>
    if draft.column.truthy || found.truthy then (draft.resolve found).map some else .ok none

def finish (c : ColumnDraft) (found : Json) : Read Column := do
  let foreignKey ← c.finishedKey found
  let name ← ((Lenient.fullText c.name).under "name").toRead
  return {
    name
    sourceType := c.target.sourceName
    family := c.target.family
    enumName := c.target.enumName
    modifiers := c.target.modifiers
    isPrimaryKey := c.isPrimaryKey
    isRequired := c.isRequired
    isUnique := c.isUnique
    isSerial := c.isSerial
    default := c.default
    rules := c.rules
    foreignKey
    checks := c.checks }

end ColumnDraft

structure TableDraft where
  name : Json
  position : Nat
  columns : List ColumnDraft := []
  constraints : List TableConstraint := []
  checks : List CheckConstraint := []
  markers : List Marker := []

namespace TableDraft

def column? (t : TableDraft) (name : Json) : Option ColumnDraft :=
  t.columns.find? fun c => c.name.same name

/-- Changes the first column of a list that has this name. -/
def modifyIn (name : Json) (change : ColumnDraft → ColumnDraft) :
    List ColumnDraft → List ColumnDraft
  | [] => []
  | c :: rest => if c.name.same name then change c :: rest else c :: modifyIn name change rest

/-- Changes a column that has to be there. -/
def modifyColumn (t : TableDraft) (name : Json) (change : ColumnDraft → ColumnDraft) :
    Read TableDraft :=
  match t.column? name with
  | some _ => .ok { t with columns := modifyIn name change t.columns }
  | none =>
    .error (.structural t.name ("constraint names unknown column '" ++ name.display ++ "'"))

/-- Refuses a name that is not that of a column. -/
def requireColumn (t : TableDraft) (name : Json) : Read Unit := do
  let _ ← t.modifyColumn name id

def hasPrimaryKey (t : TableDraft) : Bool :=
  t.columns.any (fun c => c.isPrimaryKey) || t.constraints.any (fun c => c.isPrimary)

/-- The columns of the primary key. -/
def primaryKey (t : TableDraft) : List Json :=
  match t.constraints.find? fun c => c.isPrimary with
  | some key => key.columns.map .str
  | none => (t.columns.filter fun c => c.isPrimaryKey).map ColumnDraft.name

/-- The finished table; `found` gives the looked-up columns of its references. -/
def finish (t : TableDraft) (found : String → Json) : Read Table := do
  let columns ← t.columns.mapM fun c => c.finish (found c.entity)
  let name ← ((Lenient.fullText t.name).under "name").toRead
  return {
    name
    position := t.position
    columns
    constraints := t.constraints
    checks := t.checks
    markers := t.markers }

end TableDraft

end StrictDdl
