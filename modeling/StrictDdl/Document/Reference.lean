import StrictDdl.ForeignKey

/-! References inside a schema document: the path of a column or of a shared
definition. No name in a path is empty or holds a slash. -/
namespace StrictDdl

/-- What a reference points at. -/
inductive RefKey where
  | column (table column : String)
  | definition (name : String)
  deriving DecidableEq

namespace RefKey

/-- The parts of a text between its slashes. -/
def segments : List Char → List (List Char)
  | [] => [[]]
  | c :: rest =>
    match segments rest with
    | [] => [[c]]
    | first :: more => if c = '/' then [] :: first :: more else (c :: first) :: more

/-- The column a path points at. -/
def column? (path : String) : Option (String × String) :=
  match segments path.toList with
  | [root, tables, t, columns, c] =>
    if root = "#".toList ∧ tables = "properties".toList ∧ columns = "properties".toList ∧
        t ≠ [] ∧ c ≠ [] then
      some (String.ofList t, String.ofList c)
    else none
  | _ => none

/-- The definition a path points at. -/
def definition? (path : String) : Option String :=
  match segments path.toList with
  | [root, definitions, name] =>
    if root = "#".toList ∧ definitions = "$defs".toList ∧ name ≠ [] then some (String.ofList name)
    else none
  | _ => none

/-- What a path points at. -/
def ofPath? (path : String) : Option RefKey :=
  match column? path with
  | some (t, c) => some (.column t c)
  | none => (definition? path).map .definition

def label : RefKey → String
  | .column t c => "properties/" ++ t ++ "/" ++ c
  | .definition name => "$defs/" ++ name

end RefKey

end StrictDdl
