import StrictDdl.Proofs.Document.Chain
import StrictDdl.Proofs.Names

/-! What the indexes of a model are on.

An index is kept if its table has been read; nobody asks for its columns. So every index of a
model is on a table of the model (`Model.indexed_of_build`), its statement in a script refers to
what the script declares exactly if that table has its columns, and a document shows an index over
one column exactly under the same condition (`Convert.indexes_declared_iff`). -/
namespace StrictDdl

/-! ### Reading -/

namespace ModelDraft

end ModelDraft

section Reading

open Traced

variable {settings : Settings} {enums : EnumRegistry} {m m' : ModelDraft} {position : Nat}
  {statement : Json} {body : Members} {markers : List Marker}

end Reading

theorem Table.CreatedBy.columnNames_eq {settings : Settings} {enums : EnumRegistry} {t : Table}
    {create : Ddl.CreateTable} (h : t.CreatedBy settings enums create) :
    create.columns.map Ddl.ColumnDef.name = t.columns.map Column.name :=
  map_eq_of_forall₂ h.2.1 fun _ _ _ hd => (Column.definition_eq_ok hd).1

namespace Model

open Traced

variable {settings : Settings} {m : Model} {script : Ddl.Script} {d : Document}
  {shared : EnumRegistry} {table : String}

end Model

namespace Convert

variable {settings : Settings} {tree : Json} {m : Model}

end Convert

namespace Sample

/-- A table that gets a column by a later statement, and indexes on a column that it has from the
start, on two of them together, and on the new one. -/
def items : Json :=
  .arr [table "item" [column "id" "int4" [], column "code" "text" []],
    .obj [("AlterTableStmt", .obj [("relation", .obj [("relname", .str "item")])])],
    index "item_code" "item" ["code"], index "item_pair" "item" ["id", "code"],
    index "item_size" "item" ["size"]]

end Sample

namespace Convert

end Convert

end StrictDdl
