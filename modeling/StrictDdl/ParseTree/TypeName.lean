import StrictDdl.ParseTree.Constant
import StrictDdl.Sql.Vocabulary

/-! Type names of a parse tree: the parts of the name, the modifiers in brackets
and the array bounds. Each part is read when it is asked for, so a fault in one
does not hide another. -/
namespace StrictDdl

structure TypeName where
  /-- The qualified name, part by part. -/
  names : Read (List Json)
  /-- The modifiers; one that is no constant has no value. -/
  modifiers : Read (List (Option Json))
  /-- The number of array dimensions. -/
  depth : Read Nat
  isArray : Bool

namespace TypeName

def modifier (j : Json) : Read (Option Json) :=
  if Node.isA "A_Const" j then (Constant.value j).map some else .ok none

/-- The type name in a body. A value that is no object has no readable part. -/
def ofJson (j : Json) : TypeName where
  names := do Node.strings ((← j.members).get "names")
  modifiers := do (← ((← j.members).get "typmods").elementsOrNone).mapM modifier
  depth := do return (← ((← j.members).get "arrayBounds").elementsOrNone).length
  isArray := match j with
    | .obj ms => (Members.get ms "arrayBounds").truthy
    | _ => false

/-- A name without the schema of what is built in. -/
def unqualified : List Json → List Json
  | .str schema :: name :: rest =>
    if schema = Sql.builtinSchema then name :: rest else .str schema :: name :: rest
  | names => names

/-- The type in the source dialect. -/
def spelling (t : TypeName) : Read String := do
  let name ← Node.join "." (unqualified (← t.names))
  let modifiers ← t.modifiers
  let shown := modifiers.map fun m => match m with
    | some v => v.display
    | none => "?"
  let brackets := if shown.isEmpty then "" else "(" ++ String.intercalate "," shown ++ ")"
  return name ++ brackets ++ String.join (List.replicate (← t.depth) "[]")

/-- The qualifier, if there is one, and the name itself. -/
def parts (t : TypeName) (entity : Json) : Read (Json × Json) := do
  match (← t.names).reverse with
  | [] => .error (.structural entity "type name has no parts")
  | [name] => return (.null, name)
  | name :: qualifier :: _ => return (qualifier, name)

end TypeName

end StrictDdl
