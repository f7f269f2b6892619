import StrictDdl.Lenient
import StrictDdl.ParseTree.Node

/-! References from one column to another. -/
namespace StrictDdl

/-- What happens to referencing rows. -/
inductive FkAction where
  | noAction
  | cascade
  | setNull
  | setDefault
  | restrict
  deriving DecidableEq

namespace FkAction

def name : FkAction → String
  | .noAction => "no action"
  | .cascade => "cascade"
  | .setNull => "set null"
  | .setDefault => "set default"
  | .restrict => "restrict"

def keyword : FkAction → String
  | .noAction => "NO ACTION"
  | .cascade => "CASCADE"
  | .setNull => "SET NULL"
  | .setDefault => "SET DEFAULT"
  | .restrict => "RESTRICT"

/-- Actions by the parser's one-letter codes. -/
def codes : List (String × FkAction) :=
  [("a", .noAction), ("r", .restrict), ("c", .cascade), ("n", .setNull), ("d", .setDefault),
   ("", .noAction), (" ", .noAction)]

/-- The action of a code; a code that is left out is no action. -/
def ofCode (code entity : Json) : Read FkAction := do
  let key ← if code.truthy then code.key else pure (.str "")
  match key.str?.bind fun s => codes.lookup s with
  | some action => return action
  | none =>
    .error (.structural entity ("unknown referential action code '" ++ code.display ++ "'"))

end FkAction

/-- A reference to a column of a table. -/
structure ForeignKey where
  table : String
  column : String
  onDelete : FkAction
  onUpdate : FkAction
  deriving DecidableEq

namespace ForeignKey

/-- The path of the referenced column in a schema document. -/
def path (fk : ForeignKey) : String :=
  "#/properties/" ++ fk.table ++ "/properties/" ++ fk.column

def composite : String := "composite foreign key"

/-- A reference as it is written: the column may be left out, and then is the
primary key of the table. -/
structure Draft where
  table : Json
  column : Json
  onDelete : FkAction
  onUpdate : FkAction

namespace Draft

/-- The reference of a constraint. -/
def ofConstraint (constraint : Members) (entity : Json) : Read Draft := do
  let pktable := constraint.get "pktable"
  let table ← if pktable.truthy then pktable.members.map (·.get "relname") else pure .null
  if !table.truthy then .error (.structural entity "foreign key has no referenced table")
  else
    let targets ← Node.strings (constraint.get "pk_attrs")
    let sources ← Node.strings (constraint.get "fk_attrs")
    if targets.length > 1 || sources.length > 1 then
      .error (.unsupported composite (table.display ++ "(" ++ (← Node.join ", " targets) ++ ")"))
    else
      let onDelete ← FkAction.ofCode (constraint.get "fk_del_action") entity
      let onUpdate ← FkAction.ofCode (constraint.get "fk_upd_action") entity
      return ⟨table, targets.head?.getD .null, onDelete, onUpdate⟩

/-- The reference with the given column, or with its own if that one is empty. -/
def resolve (d : Draft) (column : Json) : Read ForeignKey :=
  let column := if column.truthy then column else d.column
  (((Lenient.fullText d.table).under "target_table").map (ForeignKey.mk · · d.onDelete d.onUpdate)
    |>.and ((Lenient.fullText column).under "target_column")).toRead

end Draft

/-- The reference of a constraint that names its column. -/
def ofConstraint (constraint : Members) (entity : Json) : Read ForeignKey := do
  let draft ← Draft.ofConstraint constraint entity
  if draft.column.isNull then
    .error (.structural entity "foreign key has no referenced column")
  else draft.resolve .null

end ForeignKey

end StrictDdl
