import StrictDdl.Document
import StrictDdl.Model
import StrictDdl.Settings

/-! The schema document of a model.

A referencing column is a reference and nothing more; every other column has its type
and its rules, nested once for each array dimension. An enumeration that several
columns share is a definition, and such a column refers to it unless a check admits
only some of its labels. What has no declarative form is marked. -/
namespace StrictDdl

namespace Property

/-- The path of a shared definition. -/
def definitionPath (name : String) : String := "#/$defs/" ++ name

/-- The property of an enumeration. -/
def ofEnum (e : EnumType) : Property :=
  { type := some (.one "string"), enum := some (e.labels.map .str) }

/-- What the rules on one value say; the admitted values apart. -/
def withRules (p : Property) (r : ValueRules) : Property :=
  { p with
    minimum := r.minimum
    maximum := r.maximum
    exclusiveMinimum := r.exclusiveMinimum
    exclusiveMaximum := r.exclusiveMaximum
    pattern := r.pattern
    maxLength := r.maxLength
    multipleOf := r.multipleOf }

end Property

namespace Column

/-- The enumeration of the column, if it is shared and the rules admit all its
labels. -/
def sharedEnum? (enums shared : EnumRegistry) (c : Column) (r : ValueRules) : Option String :=
  match c.enumName with
  | none => none
  | some name =>
    let narrowed := match r.enumValues with
      | some values => values ≠ (enums.labels name).map .text
      | none => false
    if shared.contains name && !narrowed then some name else none

/-- The property of one value of the column. -/
def valueProperty (enums shared : EnumRegistry) (c : Column) (r : ValueRules) : Property :=
  match c.sharedEnum? enums shared r with
  | some name => { ref := some (Property.definitionPath name) : Property }.withRules r
  | none =>
    let target := c.target enums
    { type := target.jsonType.map .one
      format := target.jsonFormat
      enum := r.enumValues.map fun values => values.map Scalar.toJson : Property }.withRules r

/-- The property of the column's values under the rules, nested once for each
dimension. -/
def ruledProperty (enums shared : EnumRegistry) (c : Column) : RuleSet → Property
  | ⟨_, true, some r⟩ => { type := some (.one "array"), items := some (c.ruledProperty enums shared r) }
  | ⟨_, true, none⟩ =>
    { type := some (.one "array"), items := some (c.valueProperty enums shared {}) }
  | ⟨values, false, _⟩ => c.valueProperty enums shared values

/-- The action as it is written; no action is left out. -/
def writtenAction (a : FkAction) : Option String := if a = .noAction then none else some a.name

/-- The property of a referencing column; what it cannot say is marked. -/
def referenceProperty (m : Model) (table : String) (c : Column) (fk : ForeignKey) :
    Traced Property := do
  let entity := table ++ "." ++ c.name
  if (← m.owner table c.name).isNone then
    Traced.drop (.unresolved "REFERENCES" entity (fk.path ++ " does not resolve to a column"))
  c.checks.forM fun check =>
    if check.classified then
      Traced.drop (.unsupported "CHECK" entity
        (check.expression ++ " dropped: a referencing column carries only its $ref"))
    else pure ()
  return {
    ref := some fk.path
    onDelete := writtenAction fk.onDelete
    onUpdate := writtenAction fk.onUpdate }

end Column

namespace Model

/-- The `$index` keyword of a column, from the indexes on it alone. -/
def indexFlag? (m : Model) (table column : String) : Option IndexFlag :=
  let own := m.indexes.filter fun i => i.table = table && i.columns = [column]
  if own.isEmpty then none else if own.any (·.unique) then some .unique else some .plain

/-- Marks the indexes over other than one column. -/
def dropIndexes (m : Model) : Traced Unit :=
  m.indexes.forM fun i =>
    if i.columns.length = 1 then pure ()
    else Traced.drop (.unsupported "composite index" i.name
      ("(" ++ String.intercalate ", " i.columns ++ ") on " ++ i.table))

/-- The property of a column. -/
def property (m : Model) (shared : EnumRegistry) (table : String) (c : Column) :
    Traced Property := do
  let p ← match c.foreignKey with
    | some fk => c.referenceProperty m table fk
    | none => do
      let p := c.ruledProperty m.enums shared c.rules
      Nesting.within p.depth
      pure p
  return { p with
    default := match c.default with
      | some (.literal value) =>
        match Default.stored c.family value with
        | .null => none
        | value => some value.toJson
      | _ => none
    computedDefault := match c.default with
      | some (.computed d) => some d.expression
      | _ => none
    primaryKey := if c.isPrimaryKey then some true else none
    index := if c.isUnique then some .unique else m.indexFlag? table c.name }

/-- The properties of a table's columns, after the marks for checks that are no
rules. -/
def columnProperties (m : Model) (shared : EnumRegistry) (table : String) :
    List Column → Traced (List (String × Property))
  | [] => pure []
  | c :: rest => do
    c.checks.forM fun check =>
      if check.classified then pure ()
      else Traced.drop
        (.miss "CHECK" (table ++ "." ++ c.name) (check.expression ++ " omitted"))
    let p ← m.property shared table c
    return (c.name, p) :: (← m.columnProperties shared table rest)

/-- The object of a table. Columns of a primary key need not be required. -/
def tableSchema (m : Model) (shared : EnumRegistry) (t : Table) : Traced TableSchema := do
  t.constraints.forM fun k =>
    Traced.drop (.unsupported (if k.isPrimary then "composite primary key" else "composite unique")
      t.name ("(" ++ String.intercalate ", " k.columns ++ ")"))
  t.checks.forM fun check =>
    Traced.drop (.unsupported "table CHECK" t.name
      (check.expression ++ " has no declarative form"))
  let properties ← m.columnProperties shared t.name t.columns
  let composite := match (t.constraints.filter TableConstraint.isPrimary).getLast? with
    | some key => key.columns
    | none => []
  let required := t.columns.filter fun c =>
    c.isRequired && !c.isPrimaryKey && !composite.contains c.name
  return { properties, required := required.map Column.name }

/-- The schema document of a model, if it can be written. -/
def document (settings : Settings) (m : Model) : Traced Document := do
  let shared := m.sharedEnums settings.sharedEnumMinRefs
  m.dropIndexes
  let tables ← m.tables.mapM fun t => do return (t.name, ← m.tableSchema shared t)
  Traced.record {} (.documentWritten tables.length shared.length)
  let d : Document := {
    schemaUri := some settings.schemaUri
    defs := if shared.isEmpty then none else some (shared.map fun e => (e.name, .ofEnum e))
    properties := tables }
  let _ ← d.write
  return d

end Model

end StrictDdl
