import StrictDdl.ParseTree.Node

/-! The columns an expression mentions, each once, in the order of the tree: the
last part of every column reference, wherever it stands. -/
namespace StrictDdl.ParseTree

/-- Adds the column of a reference with these parts, unless it is there already. -/
def addColumn (found : List Json) (path : List Json) : List Json :=
  match path.getLast? with
  | some column => if column.isIn found then found else found ++ [column]
  | none => found

mutual

/-- The columns found so far and those of the value. -/
def columnsFrom (found : List Json) : Json → Read (List Json)
  | .arr items => columnsFromAll found items
  | .obj [("ColumnRef", b)] => do
    let ms ← Node.bodyOf "ColumnRef" b
    return addColumn found (← Node.strings (ms.get "fields"))
  | .obj ms => columnsFromMembers found ms
  | _ => .ok found

def columnsFromAll (found : List Json) : List Json → Read (List Json)
  | [] => .ok found
  | j :: rest => do columnsFromAll (← columnsFrom found j) rest

def columnsFromMembers (found : List Json) : List (String × Json) → Read (List Json)
  | [] => .ok found
  | (_, j) :: rest => do columnsFromMembers (← columnsFrom found j) rest

end

/-- The columns an expression mentions. -/
def columns (j : Json) : Read (List Json) := columnsFrom [] j

end StrictDdl.ParseTree
