import StrictDdl.Ddl
import StrictDdl.Model
import StrictDdl.Settings

/-! The script of a model.

Tables and the comments for statements without a counterpart come in the order of
the source, then the indexes. A default or a check that cannot be written is left
out and marked. -/
namespace StrictDdl

namespace Settings

/-- The tolerance as it is written: without a point if it is a moderate whole
number. -/
def epsilonText (s : Settings) : String :=
  match s.decimalEpsilon.toInt? with
  | some n => if n.natAbs < Nat.pow 10 15 then writeInt n else s.decimalEpsilon.write .plain
  | none => s.decimalEpsilon.write .plain

end Settings

namespace Column

/-- The guard of a decimal column with a precision. -/
def decimalGuard (settings : Settings) (c : Column) : Read (List Ddl.Guard) :=
  match c.family, c.modifiers.precision with
  | .decimal, some precision =>
    if precision = 0 then .ok []
    else
      let scale := c.modifiers.scale.getD 0
      let digits := (precision - scale).toNat
      if digits < Numeral.digitLimit then
        .ok [.decimal (Nat.pow 10 digits) scale settings.epsilonText]
      else .error (.tooManyDigits "")
  | _, _ => .ok []

/-- What the type of the column asks of its values. -/
def guards (settings : Settings) (enums : EnumRegistry) (c : Column) : Read (List Ddl.Guard) := do
  if c.isArray then return [.array]
  else
    let labels := match c.enumName with
      | some name => enums.labels name
      | none => []
    let boolean := if c.family = .boolean then [Ddl.Guard.boolean] else []
    let temporal := (c.family.temporalCheck?.map Ddl.Guard.temporal).toList
    let length := match c.family, c.modifiers.length with
      | .char, some n => if n = 0 then [] else [Ddl.Guard.maxLength n]
      | _, _ => []
    let decimal ← c.decimalGuard settings
    let json := if c.family = .json then [Ddl.Guard.json] else []
    return (if labels.isEmpty then [] else [.oneOf labels]) ++ boolean ++ temporal ++ length ++
      decimal ++ json

/-- The default clause; a default without a counterpart is marked. -/
def defaultClause (entity : String) (c : Column) : Traced (Option Ddl.DefaultClause) := do
  match c.default with
  | none => return none
  | some (.literal value) => return some (.literal (Default.stored c.family value))
  | some (.computed d) =>
    match ← d.target? with
    | some expression => return some (.computed expression)
    | none =>
      Traced.drop (.unsupported ("DEFAULT " ++ d.expression) entity
        "no SQLite equivalent; DEFAULT clause omitted")
      return none

end Column

namespace CheckConstraint

/-- The check in the target dialect; one without a form there is marked. -/
def clause (entity : String) (c : CheckConstraint) : Traced (Option Ddl.SourceCheck) := do
  match c.node.text .sqlite with
  | .ok condition => return some ⟨c.name, condition⟩
  | .error (.unrenderable kind dialect) =>
    Traced.drop (.unsupported "CHECK" entity
      (c.expression ++ " dropped: " ++ (Fault.unrenderable kind dialect).message))
    return none
  | .error fault => Traced.ofRead (.error fault)

/-- The checks that have a form in the target dialect. -/
def clauses (entity : String) : List CheckConstraint → Traced (List Ddl.SourceCheck)
  | [] => pure []
  | c :: rest => do
    let first ← c.clause entity
    return first.toList ++ (← clauses entity rest)

end CheckConstraint

namespace Column

/-- The definition of a column. -/
def definition (settings : Settings) (enums : EnumRegistry) (table : String) (c : Column) :
    Traced Ddl.ColumnDef := do
  let target := c.target enums
  let entity := table ++ "." ++ c.name
  let default ← c.defaultClause entity
  let guards ← c.guards settings enums
  let checks ← CheckConstraint.clauses entity c.checks
  return {
    name := c.name
    type := target.storage
    primaryKey := if c.isPrimaryKey then some (target.storage = "INTEGER" && c.isSerial) else none
    notNull := c.isRequired
    unique := c.isUnique && !c.isPrimaryKey
    default
    references := c.foreignKey.map Ddl.Reference.ofForeignKey
    guards
    checks }

end Column

namespace Table

/-- The labels of the constructs that the table lost when it was read. -/
def unsupportedLabels (t : Table) : List String :=
  (t.markers.filter fun m => m.kind = .unsupportedConstruct).map fun m =>
    m.construct ++ " " ++ m.entity

/-- The block of a table. There are no tables without columns in the target. -/
def block (settings : Settings) (enums : EnumRegistry) (t : Table) : Traced Ddl.Block := do
  Traced.record {} (.tableWritten t.name)
  if t.columns.isEmpty then
    Traced.drop (.unsupported "TABLE" t.name "SQLite tables need at least one column")
    return ⟨t.unsupportedLabels ++ ["TABLE " ++ t.name], none⟩
  else
    let columns ← t.columns.mapM fun c => c.definition settings enums t.name
    let checks ← CheckConstraint.clauses t.name t.checks
    return ⟨t.unsupportedLabels, some {
      name := t.name
      columns
      keys := t.constraints.map fun k => ⟨k.name, k.isPrimary, k.columns⟩
      checks }⟩

end Table

namespace Index

def create (i : Index) : Ddl.CreateIndex := ⟨i.name, i.table, i.columns, i.unique⟩

end Index

namespace Model

/-- The blocks of the tables and of the statements without a counterpart, each with
the position of its statement. -/
def blocks (settings : Settings) (m : Model) : Traced (List (Nat × Ddl.Block)) := do
  let tables ← m.tables.mapM fun t => do
    return (t.position, ← t.block settings m.enums)
  let others := m.unsupported.map fun s => (s.position, Ddl.Block.mk [s.label] none)
  return (tables ++ others).mergeSort fun a b => a.1 ≤ b.1

/-- The script of a model. -/
def script (settings : Settings) (m : Model) : Traced Ddl.Script := do
  let blocks ← m.blocks settings
  let indexes := (m.indexes.mergeSort fun a b => a.position ≤ b.position).map Index.create
  Traced.record {} (.ddlWritten m.tables.length indexes.length)
  return ⟨blocks.map Prod.snd, indexes⟩

end Model

end StrictDdl
