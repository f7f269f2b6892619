import StrictDdl.Model
import StrictDdl.RuleSet.Data

/-! Models as data: objects with the fields that are set. -/
namespace StrictDdl

namespace ForeignKey

def toJson (fk : ForeignKey) : Json :=
  .obj [("target_table", .str fk.table), ("target_column", .str fk.column),
    ("on_delete", .str fk.onDelete.name), ("on_update", .str fk.onUpdate.name)]

end ForeignKey

namespace Default

def toJson : Default → Json
  | .literal .null => .obj [("variant", .str "literal")]
  | .literal value => .obj [("variant", .str "literal"), ("value", value.toJson)]
  | .computed c =>
    .obj ([("variant", .str "computed"), ("kind", .str c.kind.name),
      ("expression", .str c.expression)] ++ Members.given "function" (c.function.map .str))

end Default

namespace CheckConstraint

def toJson (c : CheckConstraint) : Json :=
  .obj (Members.given "name" (c.name.map .str) ++
    [("expression", .str c.expression), ("columns", .arr (c.columns.map .str)),
      ("classified", .bool c.classified)])

end CheckConstraint

namespace Column

def toJson (c : Column) : Json :=
  .obj ([("name", .str c.name), ("source_type", .str c.sourceType),
      ("type_family", .str c.family.name)] ++
    Members.given "enum_name" (c.enumName.map .str) ++
    [("type_modifiers", c.modifiers.toJson), ("is_primary_key", .bool c.isPrimaryKey),
      ("is_required", .bool c.isRequired), ("is_unique", .bool c.isUnique),
      ("is_auto_increment_eligible", .bool c.isSerial)] ++
    Members.given "default" (c.default.map Default.toJson) ++
    [("validation", c.rules.toJson)] ++
    Members.given "foreign_key" (c.foreignKey.map ForeignKey.toJson) ++
    [("checks", .arr (c.checks.map CheckConstraint.toJson))])

/-- The column as a value; it takes a level of its own around its rules. -/
def write (c : Column) : Read Json := do
  Nesting.within (c.rules.levels + 1)
  return c.toJson

end Column

namespace TableConstraint

def toJson (c : TableConstraint) : Json :=
  .obj ([("kind", .str (if c.isPrimary then "primary_key" else "unique")),
      ("columns", .arr (c.columns.map .str))] ++
    Members.given "name" (c.name.map .str))

end TableConstraint

namespace Table

def toJson (t : Table) : Json :=
  .obj [("name", .str t.name), ("position", .int t.position),
    ("columns", .arr (t.columns.map Column.toJson)),
    ("constraints", .arr (t.constraints.map TableConstraint.toJson)),
    ("checks", .arr (t.checks.map CheckConstraint.toJson)),
    ("markers", .arr (t.markers.map Marker.toJson))]

/-- The table as a value, if each of its columns can be written. -/
def write (t : Table) : Read Json := do
  t.columns.forM fun c => discard c.write
  return t.toJson

end Table

namespace Index

def toJson (i : Index) : Json :=
  .obj [("name", .str i.name), ("table", .str i.table), ("columns", .arr (i.columns.map .str)),
    ("unique", .bool i.unique), ("position", .int i.position)]

end Index

namespace UnsupportedStatement

def toJson (s : UnsupportedStatement) : Json :=
  .obj ([("kind", .str s.kind)] ++ Members.given "name" (s.name.map .str) ++
    [("position", .int s.position)])

end UnsupportedStatement

end StrictDdl
