import StrictDdl.ParseTree.Node

/-! The statements of a parse tree, whichever way they are wrapped: the parser's
own object, a list of raw statements, a list of wrappers, a list of bare nodes, or
one node. -/
namespace StrictDdl.ParseTree

/-- The statement node of one entry. -/
def statement (entry : Json) : Read Json := do
  let entry ← if Node.isA "RawStmt" entry then (Node.body entry).map Json.obj else .ok entry
  match entry with
  | .obj ms =>
    match Members.find? ms "stmt" with
    | some node => return node
    | none => let _ ← Node.kind entry; return entry
  | entry => let _ ← Node.kind entry; return entry

/-- The entries of a tree. -/
def entries : Json → Read (List Json)
  | .obj ms =>
    if Members.has ms "stmts" || Members.has ms "version" then
      let stmts := Members.get ms "stmts"
      if stmts.truthy then
        match stmts with
        | .arr items => .ok items
        | _ => malformed "'stmts' is not a list"
      else .ok []
    else .ok [.obj ms]
  | .arr items => .ok items
  | j => malformed ("unsupported AST root: " ++ j.typeName)

/-- The statement nodes of a tree, in order. -/
def statements (tree : Json) : Read (List Json) := do (← entries tree).mapM statement

end StrictDdl.ParseTree
