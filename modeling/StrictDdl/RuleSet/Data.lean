import StrictDdl.Lenient
import StrictDdl.Nesting
import StrictDdl.RuleSet
import StrictDdl.SqlType

/-! Rule sets and type modifiers as data: read leniently from their fields and
written with the fields that are set. -/
namespace StrictDdl

namespace ValueRules

def ofMembers (ms : Members) : Lenient ValueRules :=
  let number (key : String) : Lenient (Option Number) :=
    Lenient.field ms [key] none (Lenient.optional Lenient.number)
  ((number "minimum").map ValueRules.mk)
    |>.and (number "maximum")
    |>.and (number "exclusive_minimum")
    |>.and (number "exclusive_maximum")
    |>.and (Lenient.field ms ["enum_values"] none
      (Lenient.optional (Lenient.list "tuple_type" Lenient.scalar)))
    |>.and (Lenient.field ms ["pattern"] none (Lenient.optional Lenient.text))
    |>.and (Lenient.field ms ["max_length"] none (Lenient.optional Lenient.int))
    |>.and (Lenient.field ms ["multiple_of"] none (Lenient.optional Lenient.float))

end ValueRules

/-- A number as a value. -/
def Number.toJson : Number → Json
  | .int n => .int n
  | .float x => .float x

namespace ValueRules

/-- The fields that are set. -/
def toMembers (r : ValueRules) : Members :=
  Members.given "minimum" (r.minimum.map Number.toJson) ++
  Members.given "maximum" (r.maximum.map Number.toJson) ++
  Members.given "exclusive_minimum" (r.exclusiveMinimum.map Number.toJson) ++
  Members.given "exclusive_maximum" (r.exclusiveMaximum.map Number.toJson) ++
  Members.given "enum_values" (r.enumValues.map fun vs => .arr (vs.map Scalar.toJson)) ++
  Members.given "pattern" (r.pattern.map .str) ++
  Members.given "max_length" (r.maxLength.map .int) ++
  Members.given "multiple_of" (r.multipleOf.map .float)

end ValueRules

namespace RuleSet

mutual

/-- The rule set of an object at a level. -/
def ofJson (level : Nat) : Json → Lenient RuleSet
  | .obj ms =>
    if level > Nesting.limit then Lenient.refuse Nesting.tooDeep
    else ((ValueRules.ofMembers ms).map RuleSet.mk)
      |>.and (Lenient.field ms ["is_array"] false Lenient.bool)
      |>.and (itemsOf (level + 1) ms)
  | _ => Lenient.refuse (if level > Nesting.limit then Nesting.tooDeep else "model_type")

/-- The rules of the items among the members of an object. -/
def itemsOf (level : Nat) : List (String × Json) → Lenient (Option RuleSet)
  | [] => .ok none
  | (key, j) :: rest =>
    if key = "array_item_rule" then
      match j with
      | .null => .ok none
      | j => ((ofJson level j).map some).under key
    else itemsOf level rest

end

/-- The rule set of a value that stands alone. -/
def read (j : Json) : Read RuleSet := (ofJson 1 j).toRead

/-- The levels that a rule set opens: one for each set in it. -/
def levels : RuleSet → Nat
  | ⟨_, _, none⟩ => 1
  | ⟨_, _, some r⟩ => r.levels + 1

def toJson : RuleSet → Json
  | ⟨values, isArray, none⟩ => .obj (values.toMembers ++ [("is_array", .bool isArray)])
  | ⟨values, isArray, some r⟩ =>
    .obj (values.toMembers ++ [("is_array", .bool isArray), ("array_item_rule", toJson r)])

/-- The rule set as a value that stands alone. -/
def write (r : RuleSet) : Read Json := do
  Nesting.within r.levels
  return r.toJson

end RuleSet

namespace Modifiers

def ofMembers (ms : Members) : Lenient Modifiers :=
  let number (key : String) : Lenient (Option Int) :=
    Lenient.field ms [key] none (Lenient.optional Lenient.int)
  ((number "length").map Modifiers.mk)
    |>.and (number "precision")
    |>.and (number "scale")
    |>.and (Lenient.field ms ["array_depth"] 0 Lenient.natural)

def toJson (m : Modifiers) : Json :=
  .obj (Members.given "length" (m.length.map .int) ++
    Members.given "precision" (m.precision.map .int) ++
    Members.given "scale" (m.scale.map .int) ++
    [("array_depth", .int m.arrayDepth)])

end Modifiers

namespace Target

def toJson (t : Target) : Json :=
  let orNull (s : Option String) : Json := (s.map Json.str).getD .null
  .obj [("source_name", .str t.sourceName), ("family", .str t.family.name),
    ("ddl_type", .str t.storage), ("json_type", orNull t.jsonType),
    ("json_format", orNull t.jsonFormat), ("modifiers", t.modifiers.toJson),
    ("enum_name", orNull t.enumName), ("validation", t.rules.toJson),
    ("is_known", .bool t.isKnown), ("is_array", .bool t.isArray)]

/-- The target as a value; its rules are written apart. -/
def write (t : Target) : Read Json := do
  Nesting.within t.rules.levels
  return t.toJson

end Target

end StrictDdl
