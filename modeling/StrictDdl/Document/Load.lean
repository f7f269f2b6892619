import StrictDdl.Document
import StrictDdl.Lenient

/-! Schema documents from JSON.

A keyword is found under its name in the document or under its plain name, the
former first. Keywords that are not known are passed over. Everything that is wrong
with a document is reported at once. -/
namespace StrictDdl

namespace Lenient

variable {α : Type}

/-- A value that has to be the given text. -/
def exactly (text : String) : Json → Lenient Unit
  | .str s => if s = text then .ok () else refuse "literal_error"
  | _ => refuse "literal_error"

/-- Every member of an object, each reported under its name. -/
def eachMember (read : Json → Lenient α) : Members → Lenient (List (String × α))
  | [] => .ok []
  | (key, j) :: rest =>
    (((read j).under key).map fun a => List.cons (key, a)).and (eachMember read rest)

/-- An object whose members are all of one type. -/
def dict (read : Json → Lenient α) : Json → Lenient (List (String × α))
  | .obj ms => eachMember read ms
  | _ => refuse "dict_type"

end Lenient

namespace TypeKeyword

def ofJson : Json → Lenient TypeKeyword
  | .str s => .ok (.one s)
  | j => (Lenient.refused [⟨["str"], "string_type"⟩]).or
      (((Lenient.list "list_type" Lenient.text j).under "list[str]").map .several)

end TypeKeyword

namespace IndexFlag

def ofBool (b : Bool) : IndexFlag := if b then .plain else .off

def ofJson (j : Json) : Lenient IndexFlag :=
  match j with
  | .str "unique" => .ok .unique
  | j => (((Lenient.bool j).under "bool").map ofBool).or
      (((Lenient.exactly "unique" j).under "literal['unique']").map fun _ => .unique)

end IndexFlag

namespace Keywords

/-- A value as it is. -/
def anything (j : Json) : Lenient Json := .ok j

/-- The keywords among the members of an object. -/
def ofMembers (ms : Members) : Lenient Keywords :=
  let keyword {α : Type} (keys : List String) (read : Json → Lenient α) : Lenient (Option α) :=
    Lenient.field ms keys none (Lenient.optional read)
  ((keyword ["$ref", "ref"] Lenient.text).map Keywords.mk)
    |>.and (keyword ["type"] TypeKeyword.ofJson)
    |>.and (keyword ["format"] Lenient.text)
    |>.and (keyword ["enum"] (Lenient.list "list_type" anything))
    |>.and (keyword ["minimum"] Lenient.number)
    |>.and (keyword ["maximum"] Lenient.number)
    |>.and (keyword ["exclusiveMinimum", "exclusive_minimum"] Lenient.number)
    |>.and (keyword ["exclusiveMaximum", "exclusive_maximum"] Lenient.number)
    |>.and (keyword ["pattern"] Lenient.text)
    |>.and (keyword ["maxLength", "max_length"] Lenient.int)
    |>.and (keyword ["multipleOf", "multiple_of"] Lenient.float)
    |>.and (keyword ["default"] anything)
    |>.and (keyword ["$default", "computed_default"] Lenient.text)
    |>.and (keyword ["$primaryKey", "primary_key"] Lenient.bool)
    |>.and (keyword ["$index", "index"] IndexFlag.ofJson)
    |>.and (keyword ["$onDelete", "on_delete"] Lenient.text)
    |>.and (keyword ["$onUpdate", "on_update"] Lenient.text)

end Keywords

namespace Property

mutual

/-- The property of an object at a level. -/
def ofJson (level : Nat) : Json → Lenient Property
  | .obj ms =>
    if level > Nesting.limit then Lenient.refuse Nesting.tooDeep
    else ((Keywords.ofMembers ms).map Property.mk).and (itemsOf (level + 1) ms)
  | _ => Lenient.refuse (if level > Nesting.limit then Nesting.tooDeep else "model_type")

/-- The items among the members of an object. -/
def itemsOf (level : Nat) : List (String × Json) → Lenient (Option Property)
  | [] => .ok none
  | (key, j) :: rest =>
    if key = "items" then
      match j with
      | .null => .ok none
      | j => ((ofJson level j).map some).under key
    else itemsOf level rest

end

/-- A property directly inside of a document, which takes the first level. -/
def ofMember (j : Json) : Lenient Property := ofJson 2 j

end Property

namespace TableSchema

def ofJson : Json → Lenient TableSchema
  | .obj ms =>
    ((Lenient.field ms ["type"] () (Lenient.exactly "object")).map fun _ => TableSchema.mk)
      |>.and (Lenient.field ms ["additionalProperties", "additional_properties"] false Lenient.bool)
      |>.and (Lenient.field ms ["properties"] [] (Lenient.dict Property.ofMember))
      |>.and (Lenient.field ms ["required"] [] (Lenient.list "list_type" Lenient.text))
  | _ => Lenient.refuse "model_type"

end TableSchema

namespace Document

def ofJson : Json → Lenient Document
  | .obj ms =>
    let tables : Lenient (List (String × TableSchema)) :=
      match Members.find? ms "properties" with
      | some j => (Lenient.dict TableSchema.ofJson j).under "properties"
      | none => (Lenient.refuse "missing").under "properties"
    (((Lenient.field ms ["$schema", "schema_uri"] none (Lenient.optional Lenient.text)).map
        Document.mk)
      |>.and (Lenient.field ms ["$defs", "defs"] none
        (Lenient.optional (Lenient.dict Property.ofMember)))
      |>.and tables)
      |> fun document =>
        ((Lenient.field ms ["type"] () (Lenient.exactly "object")).map fun _ d => d).and document
  | _ => Lenient.refuse "model_type"

/-- The document a value is. -/
def load (j : Json) : Read Document :=
  match ofJson j with
  | .ok d => .ok d
  | .refused problems => .error (.invalidDocument problems)

end Document

end StrictDdl
