import StrictDdl.EnumRegistry
import StrictDdl.ParseTree.TypeName
import StrictDdl.RuleSet
import StrictDdl.Text.Blank
import StrictDdl.Text.LetterCase

/-! Column types and what becomes of them.

A type belongs to a family; the family decides which checks a column gets and
whether its values are whole numbers. `Target.ofName` finds for every type name a
storage type of a strict table, a type and format of the schema document, and the
rules that follow from the type. A name that is in no table is stored as `ANY`
and has no type in a document; a declared enumeration wins over a built-in type of
the same name unless the name is qualified as built in. -/
namespace StrictDdl

inductive Family where
  | integer | serial | float | decimal | text | char | boolean | timestamp | date | time
  | interval | uuid | binary | json | enum | other | unknown
  deriving DecidableEq, Inhabited

namespace Family

def name : Family → String
  | .integer => "integer"
  | .serial => "serial"
  | .float => "float"
  | .decimal => "decimal"
  | .text => "text"
  | .char => "char"
  | .boolean => "boolean"
  | .timestamp => "timestamp"
  | .date => "date"
  | .time => "time"
  | .interval => "interval"
  | .uuid => "uuid"
  | .binary => "binary"
  | .json => "json"
  | .enum => "enum"
  | .other => "other"
  | .unknown => "unknown"

/-- Whether the values of the family are whole numbers. -/
def isWhole : Family → Bool
  | .integer => true
  | .serial => true
  | _ => false

/-- The function that is null on texts that are no values of a temporal family. -/
def temporalCheck? : Family → Option String
  | .timestamp => some "datetime"
  | .date => some "date"
  | .time => some "time"
  | _ => none

end Family

/-- How a type is stored and described. -/
structure TypeSpec where
  family : Family
  storage : String
  jsonType : Option String := none
  jsonFormat : Option String := none
  deriving DecidableEq

namespace TypeSpec

/-- A name in no table: any value may be stored, and no type is described. -/
def unknown : TypeSpec := { family := .unknown, storage := "ANY" }

/-- Enumerations are stored as text. -/
def enum : TypeSpec := { family := .enum, storage := "TEXT", jsonType := some "string" }

/-- Arrays are stored as text. -/
def arrayStorage : String := "TEXT"

def integer : TypeSpec := { family := .integer, storage := "INTEGER", jsonType := some "integer" }

def serial : TypeSpec := { family := .serial, storage := "INTEGER", jsonType := some "integer" }

def float : TypeSpec := { family := .float, storage := "REAL", jsonType := some "number" }

def decimal : TypeSpec := { family := .decimal, storage := "REAL", jsonType := some "number" }

def text : TypeSpec := { family := .text, storage := "TEXT", jsonType := some "string" }

def char : TypeSpec := { family := .char, storage := "TEXT", jsonType := some "string" }

def boolean : TypeSpec := { family := .boolean, storage := "INTEGER", jsonType := some "boolean" }

def timestamp : TypeSpec :=
  { family := .timestamp, storage := "TEXT", jsonType := some "string", jsonFormat := some "date-time" }

def date : TypeSpec :=
  { family := .date, storage := "TEXT", jsonType := some "string", jsonFormat := some "date" }

def time : TypeSpec :=
  { family := .time, storage := "TEXT", jsonType := some "string", jsonFormat := some "time" }

def interval : TypeSpec := { family := .interval, storage := "TEXT", jsonType := some "string" }

def uuid : TypeSpec :=
  { family := .uuid, storage := "TEXT", jsonType := some "string", jsonFormat := some "uuid" }

def binary : TypeSpec :=
  { family := .binary, storage := "BLOB", jsonType := some "string", jsonFormat := some "binary" }

def json : TypeSpec := { family := .json, storage := "TEXT", jsonType := some "object" }

def other : TypeSpec := { family := .other, storage := "TEXT", jsonType := some "string" }

/-- The built-in types by name, in lower case: the parser's own names and the
spellings of SQL. -/
def table : List (String × TypeSpec) :=
  [("int2", integer), ("smallint", integer), ("int4", integer), ("int", integer),
   ("integer", integer), ("int8", integer), ("bigint", integer), ("oid", integer),
   ("xid", integer), ("xid8", integer), ("cid", integer),
   ("serial", serial), ("serial2", serial), ("serial4", serial), ("serial8", serial),
   ("smallserial", serial), ("bigserial", serial),
   ("float4", float), ("real", float), ("float8", float), ("float", float),
   ("double precision", float), ("money", float),
   ("numeric", decimal), ("decimal", decimal),
   ("text", text), ("name", text), ("citext", text),
   ("varchar", char), ("character varying", char), ("char", char), ("character", char),
   ("bpchar", char),
   ("bool", boolean), ("boolean", boolean),
   ("timestamp", timestamp), ("timestamptz", timestamp),
   ("timestamp without time zone", timestamp), ("timestamp with time zone", timestamp),
   ("date", date),
   ("time", time), ("timetz", time), ("time without time zone", time),
   ("time with time zone", time),
   ("interval", interval),
   ("uuid", uuid), ("bytea", binary), ("json", json), ("jsonb", json),
   ("inet", other), ("cidr", other), ("macaddr", other), ("macaddr8", other), ("bit", other),
   ("varbit", other), ("bit varying", other), ("xml", other), ("tsvector", other),
   ("tsquery", other), ("point", other), ("line", other), ("lseg", other), ("box", other),
   ("path", other), ("polygon", other), ("circle", other), ("int4range", other),
   ("int8range", other), ("numrange", other), ("tsrange", other), ("tstzrange", other),
   ("daterange", other), ("pg_lsn", other)]

def find? (name : String) : Option TypeSpec := table.lookup name

def find (name : String) : TypeSpec := (find? name).getD unknown

end TypeSpec

/-- The names of the types that count up by themselves. -/
def serialNames : List String :=
  (TypeSpec.table.filter fun entry => entry.2.family = .serial).map Prod.fst

/-! ### Modifiers -/

structure Modifiers where
  length : Option Int := none
  precision : Option Int := none
  scale : Option Int := none
  arrayDepth : Nat := 0
  deriving DecidableEq, Inhabited

namespace Modifiers

/-- The modifiers a family takes from the bracketed whole numbers. -/
def ofFamily (family : Family) (given : List Int) (depth : Nat) : Modifiers :=
  match family, given with
  | .char, length :: _ => { length := some length, arrayDepth := depth }
  | .decimal, [precision] => { precision := some precision, scale := some 0, arrayDepth := depth }
  | .decimal, precision :: scale :: _ =>
    { precision := some precision, scale := some scale, arrayDepth := depth }
  | _, _ => { arrayDepth := depth }

/-- The whole numbers among the modifiers of a type name. -/
def wholes (given : List (Option Json)) : List Int :=
  given.filterMap fun m => match m with
    | some (.int n) => some n
    | _ => none

def ofTypeName (t : TypeName) (family : Family) : Read Modifiers := do
  let given ← t.modifiers
  return ofFamily family (wholes given) (← t.depth)

/-- The largest scale that has a step: twice the sum of the largest exponent of a
decimal and the number of its digits. -/
def maxScale : Int := 2 * (999999 + 28)

/-- Refuses a scale whose step is no power of ten of a decimal. -/
def admitScale (family : Family) (m : Modifiers) : Read Unit :=
  match family, m.scale with
  | .decimal, some s => if s > maxScale then .error .exponentRange else .ok ()
  | _, _ => .ok ()

end Modifiers

/-! ### Targets -/

/-- What becomes of a column type. -/
structure Target where
  sourceName : String
  family : Family
  storage : String
  jsonType : Option String
  jsonFormat : Option String
  modifiers : Modifiers
  enumName : Option String
  rules : RuleSet

namespace Target

def isKnown (t : Target) : Bool := t.family ≠ .unknown

def isArray (t : Target) : Bool := t.modifiers.arrayDepth > 0

/-- The rules on one value that follow from its type. -/
def valueRules (family : Family) (modifiers : Modifiers) (labels : List String) : ValueRules where
  maxLength := match family, modifiers.length with
    | .char, some n => if n > 0 then some n else none
    | _, _ => none
  multipleOf := match family, modifiers.scale with
    | .decimal, some s => if s > 0 then some (Binary64.ofDecimal false 1 (-s)) else none
    | _, _ => none
  enumValues := match family with
    | .enum => some (labels.map .text)
    | _ => none

/-- Assembles a target from the way its type is stored. -/
def ofSpec (spec : TypeSpec) (sourceName : String) (modifiers : Modifiers)
    (enumName : Option String) (labels : List String) : Target where
  sourceName := sourceName
  family := spec.family
  storage := if modifiers.arrayDepth > 0 then TypeSpec.arrayStorage else spec.storage
  jsonType := spec.jsonType
  jsonFormat := spec.jsonFormat
  modifiers := modifiers
  enumName := enumName
  rules := (RuleSet.ofValues (valueRules spec.family modifiers labels)).arrayOf modifiers.arrayDepth

/-- Whether a name, so qualified, is that of a declared enumeration. -/
def isEnum (enums : EnumRegistry) (qualifier : Json) (name : String) : Bool :=
  let builtin := match qualifier with
    | .str schema => schema = Sql.builtinSchema
    | _ => false
  !builtin && enums.contains name

/-- What becomes of the type with this name. -/
def ofName (name : String) (modifiers : Modifiers) (enums : EnumRegistry) (qualifier : Json) :
    Target :=
  if isEnum enums qualifier name then
    ofSpec .enum name modifiers (some name) (enums.labels name)
  else
    let sourceName := LetterCase.lower (Text.trim name)
    ofSpec (TypeSpec.find sourceName) sourceName modifiers none []

/-- What becomes of the type with this name, if its scale is admitted. -/
def find (name : String) (modifiers : Modifiers) (enums : EnumRegistry) (qualifier : Json) :
    Read Target := do
  let target := ofName name modifiers enums qualifier
  modifiers.admitScale target.family
  return target

/-- The family that decides how the modifiers of a type name are read. -/
def familyOf (name : String) (enums : EnumRegistry) (qualifier : Json) : Family :=
  if isEnum enums qualifier name then .enum else (TypeSpec.find (LetterCase.lower name)).family

/-- What becomes of the type a type name denotes. -/
def ofTypeName (t : TypeName) (enums : EnumRegistry) (entity : Json) : Read Target := do
  let (qualifier, name) ← t.parts entity
  let name ← name.text
  let modifiers ← Modifiers.ofTypeName t (familyOf name enums qualifier)
  find name modifiers enums qualifier

end Target

end StrictDdl
