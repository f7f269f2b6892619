import StrictDdl.Fault
import StrictDdl.Json.Same

/-! Nodes of a parse tree.

A node is an object with one member: the name is the kind of the node, its value
the body. The parser leaves out members with zero values, so an absent body is an
empty one and an absent member reads as `null`. -/
namespace StrictDdl

namespace Json

/-- The members of a value that is used as an object. -/
def members : Json → Read Members
  | .obj ms => .ok ms
  | _ => .error .mistyped

/-- What a loop over the value visits: the items of an array, the characters of a
text, the names of an object's members. -/
def elements : Json → Read (List Json)
  | .arr items => .ok items
  | .str s => .ok (s.toList.map fun c => .str (String.ofList [c]))
  | .obj ms => .ok (ms.map fun m => .str m.1)
  | _ => .error .mistyped

/-- The elements of a member that may be left out. -/
def elementsOrNone (j : Json) : Read (List Json) := if j.truthy then j.elements else .ok []

/-- A value used as text. -/
def text : Json → Read String
  | .str s => .ok s
  | _ => .error .mistyped

/-- A value used as the key of a table. -/
def key (j : Json) : Read Json := if j.isScalar then .ok j else .error .mistyped

end Json

namespace Node

/-- The kind of a node. -/
def kind : Json → Read String
  | .obj [(tag, _)] => .ok tag
  | j => malformed ("expected a tagged node, got " ++ j.typeName)

/-- The body that stands behind a kind. -/
def bodyOf (tag : String) : Json → Read Members
  | .null => .ok []
  | .obj ms => .ok ms
  | _ => malformed (tag ++ " body is not an object")

def body : Json → Read Members
  | .obj [(tag, b)] => bodyOf tag b
  | j => malformed ("expected a tagged node, got " ++ j.typeName)

/-- The body of a node that has to be of the given kind. -/
def bodyAs (tag : String) : Json → Read Members
  | .obj [(found, b)] =>
    if found = tag then bodyOf tag b else malformed ("expected " ++ tag ++ ", got " ++ found)
  | j => malformed ("expected a tagged node, got " ++ j.typeName)

def unwrap (j : Json) : Read (String × Members) := do
  return (← kind j, ← body j)

/-- Whether a value is a node of the given kind. -/
def isA (tag : String) : Json → Bool
  | .obj [(found, _)] => found = tag
  | _ => false

/-- A member the grammar always provides: not absent and not an empty text or
list. -/
def require (j : Json) (key : String) (entity : Json) : Read Json := do
  let value := (← j.members).get key
  let absent := match value with
    | .null => true
    | .str s => s = ""
    | .arr items => items.isEmpty
    | _ => false
  if absent then .error (.structural entity ("missing required field '" ++ key ++ "'"))
  else return value

/-! ### Texts -/

/-- The value of the first of two members that is present, or an empty text. -/
def eitherOf (ms : Members) (first second : String) : Json :=
  ((ms.find? first).or (ms.find? second)).getD (.str "")

/-- The text of a string node, in any of its layouts. -/
def string : Json → Read Json
  | .str s => .ok (.str s)
  | j => do
    if isA "String" j then return eitherOf (← body j) "sval" "str"
    match j with
    | .obj ms =>
      if Members.has ms "sval" || Members.has ms "str" then return eitherOf ms "sval" "str"
      malformed ("expected String node, got " ++ (← kind j))
    | j => malformed ("expected String node, got " ++ (← kind j))

def stringsOf : List Json → Read (List Json)
  | [] => .ok []
  | j :: rest =>
    if isA "A_Star" j then stringsOf rest
    else do
      let s ← string j
      return s :: (← stringsOf rest)

/-- The texts of a list of string nodes, stars left out. -/
def strings (j : Json) : Read (List Json) := do stringsOf (← j.elementsOrNone)

/-- Texts joined by a separator. -/
def join (separator : String) (names : List Json) : Read String := do
  return String.intercalate separator (← names.mapM Json.text)

end Node

end StrictDdl
