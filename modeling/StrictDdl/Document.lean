import StrictDdl.Json.Basic
import StrictDdl.Nesting
import StrictDdl.Numeric.Number
import StrictDdl.RuleSet.Data

/-! Schema documents: a JSON Schema whose properties are tables, and whose tables are
objects with a property for each column. Keywords that start with a dollar sign and
belong to no JSON Schema carry keys, indexes and references. -/
namespace StrictDdl

/-- The `type` keyword: one name, or several to choose from. -/
inductive TypeKeyword where
  | one (name : String)
  | several (names : List String)
  deriving DecidableEq

/-- The `$index` keyword. -/
inductive IndexFlag where
  | off
  | plain
  | unique
  deriving DecidableEq

/-- The keywords of a property, the items apart. -/
structure Keywords where
  ref : Option String := none
  type : Option TypeKeyword := none
  format : Option String := none
  enum : Option (List Json) := none
  minimum : Option Number := none
  maximum : Option Number := none
  exclusiveMinimum : Option Number := none
  exclusiveMaximum : Option Number := none
  pattern : Option String := none
  maxLength : Option Int := none
  multipleOf : Option Binary64 := none
  default : Option Json := none
  /-- The text of a computed default in the source dialect. -/
  computedDefault : Option String := none
  primaryKey : Option Bool := none
  index : Option IndexFlag := none
  onDelete : Option String := none
  onUpdate : Option String := none
  deriving Inhabited

/-- A column, the items of an array column, or a shared definition. -/
structure Property extends Keywords where
  items : Option Property := none
  deriving Inhabited

structure TableSchema where
  additionalProperties : Bool := false
  properties : List (String × Property)
  required : List String

structure Document where
  schemaUri : Option String
  defs : Option (List (String × Property))
  properties : List (String × TableSchema)

namespace TypeKeyword

/-- The type of a value that is there. -/
def scalar? : TypeKeyword → Option String
  | .one name => some name
  | .several names => names.find? (· ≠ "null")

def toJson : TypeKeyword → Json
  | .one name => .str name
  | .several names => .arr (names.map .str)

end TypeKeyword

namespace IndexFlag

def toJson : IndexFlag → Json
  | .off => .bool false
  | .plain => .bool true
  | .unique => .str "unique"

end IndexFlag

/-! ### Writing -/

namespace Json

mutual

/-- A value that JSON can carry: `null` for every number that is not finite. -/
def finite : Json → Json
  | .float x => if x.isFinite then .float x else .null
  | .arr items => .arr (finiteAll items)
  | .obj ms => .obj (finiteMembers ms)
  | j => j

def finiteAll : List Json → List Json
  | [] => []
  | j :: rest => finite j :: finiteAll rest

def finiteMembers : List (String × Json) → List (String × Json)
  | [] => []
  | (k, v) :: rest => (k, finite v) :: finiteMembers rest

end

end Json

namespace Keywords

/-- The type of a value that is there. -/
def scalarType? (p : Keywords) : Option String := p.type.bind TypeKeyword.scalar?

/-- The keywords that are set. -/
def toMembers (p : Keywords) : Members :=
  Members.given "$ref" (p.ref.map .str) ++
  Members.given "type" (p.type.map TypeKeyword.toJson) ++
  Members.given "format" (p.format.map .str) ++
  Members.given "enum" (p.enum.map fun values => (Json.arr values).finite) ++
  Members.given "minimum" (p.minimum.map Number.toJson) ++
  Members.given "maximum" (p.maximum.map Number.toJson) ++
  Members.given "exclusiveMinimum" (p.exclusiveMinimum.map Number.toJson) ++
  Members.given "exclusiveMaximum" (p.exclusiveMaximum.map Number.toJson) ++
  Members.given "pattern" (p.pattern.map .str) ++
  Members.given "maxLength" (p.maxLength.map .int) ++
  Members.given "multipleOf" (p.multipleOf.map .float) ++
  Members.given "default" (p.default.map Json.finite) ++
  Members.given "$default" (p.computedDefault.map .str) ++
  Members.given "$primaryKey" (p.primaryKey.map .bool) ++
  Members.given "$index" (p.index.map IndexFlag.toJson) ++
  Members.given "$onDelete" (p.onDelete.map .str) ++
  Members.given "$onUpdate" (p.onUpdate.map .str)

/-- The levels that the default and the admitted values open. -/
def levels (p : Keywords) : Nat :=
  max (Json.levelsAll (p.enum.getD [])) ((p.default.map Json.levels).getD 0)

end Keywords

namespace Property

def toJson : Property → Json
  | ⟨keywords, none⟩ => .obj keywords.toMembers
  | ⟨keywords, some items⟩ => .obj (keywords.toMembers ++ [("items", items.toJson)])

/-- The number of properties in one another. -/
def depth : Property → Nat
  | ⟨_, none⟩ => 1
  | ⟨_, some items⟩ => items.depth + 1

/-- The levels that a property opens: one for each property in it, and those of its
values of no particular type. -/
def levels : Property → Nat
  | ⟨keywords, none⟩ => keywords.levels + 1
  | ⟨keywords, some items⟩ => max keywords.levels items.levels + 1

end Property

namespace TableSchema

def toJson (t : TableSchema) : Json :=
  .obj [("type", .str "object"), ("additionalProperties", .bool t.additionalProperties),
    ("properties", .obj (t.properties.map fun (name, p) => (name, p.toJson))),
    ("required", .arr (t.required.map .str))]

end TableSchema

namespace Document

def toJson (d : Document) : Json :=
  .obj (Members.given "$schema" (d.schemaUri.map .str) ++ [("type", .str "object")] ++
    Members.given "$defs"
      (d.defs.map fun defs => .obj (defs.map fun (name, p) => (name, p.toJson))) ++
    [("properties", .obj (d.properties.map fun (name, t) => (name, t.toJson)))])

/-- The properties of the document, those of its columns and the shared ones. -/
def allProperties (d : Document) : List Property :=
  (d.defs.getD []).map Prod.snd ++ d.properties.flatMap fun (_, t) => t.properties.map Prod.snd

/-- The document as a value; it takes a level of its own around its properties. -/
def write (d : Document) : Read Json := do
  d.allProperties.forM fun p => Nesting.within (p.levels + 1)
  return d.toJson

def table? (d : Document) (name : String) : Option TableSchema := d.properties.lookup name

def property? (d : Document) (table column : String) : Option Property :=
  (d.table? table).bind fun t => t.properties.lookup column

def definition? (d : Document) (name : String) : Option Property :=
  (d.defs.getD []).lookup name

end Document

end StrictDdl
