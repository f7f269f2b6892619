import StrictDdl.Proofs.Conversion
import StrictDdl.Proofs.Ddl.OfModel

/-! From a parse tree to a script.

No statement is lost on the way, none comes twice, and none leaves its place
(`Model.build_conserves`). Tables and columns have names of their own, and no table is
created with two primary keys (`Model.build_wellFormed`). -/
namespace StrictDdl

/-! ### Statements -/

namespace Model

variable {settings settings' : Settings} {tree : Json} {m : Model}

/-- **Every statement of a tree is found again in its model, once and in its place, and the
script keeps the places.** A script there is exactly if all tables can be written, which a
decimal with too many digits before the point cannot. -/
theorem build_conserves (h : (build settings tree).outcome = .ok m) :
    (∃ statements fates, ParseTree.statements tree = .ok statements ∧
      m.Accounts statements fates) ∧
    ((∃ script, (m.script settings').outcome = .ok script) ↔ ∀ t ∈ m.tables, t.Writable) ∧
    ∀ script, (m.script settings').outcome = .ok script → m.ScriptOf settings' script := by
  obtain ⟨statements, fates, hstatements, haccounts⟩ := build_accounts h
  refine ⟨⟨statements, fates, hstatements, haccounts⟩, exists_script_iff settings' m, ?_⟩
  intro script hscript
  exact haccounts.scriptOf hscript

end Model

namespace Sample

/-- A decimal column with so many digits, so many of them behind the point. -/
def decimal (columnName : String) (precision scale : Int) : Json :=
  let number (n : Int) : Json := .obj [("A_Const", .obj [("ival", .obj [("ival", .int n)])])]
  .obj [("ColumnDef", .obj [("colname", .str columnName),
    ("typeName", .obj [("names", .arr [name "numeric"]),
      ("typmods", .arr [number precision, number scale])])])]

/-- The statement of an enumeration. -/
def enum (enumName : String) (labels : List String) : Json :=
  .obj [("CreateEnumStmt", .obj [("typeName", .arr [name enumName]),
    ("vals", .arr (labels.map name))])]

/-- The statement of an index. -/
def index (indexName tableName : String) (columns : List String) : Json :=
  .obj [("IndexStmt", .obj [("idxname", .str indexName),
    ("relation", .obj [("relname", .str tableName)]),
    ("indexParams", .arr (columns.map fun c => .obj [("IndexElem", .obj [("name", .str c)])]))])]

/-- Statements of all sorts: an index on a table that is not there, a view, and a table with
a key over two columns. -/
def ledger : Json :=
  .arr [enum "state" ["open", "closed"], index "lost" "nowhere" ["id"],
    table "entry" [column "account" "int4" [], column "number" "int4" [], column "state" "state" [],
      constraint "CONSTR_PRIMARY" [("keys", .arr [name "account", name "number"])]],
    .obj [("ViewStmt", .obj [("view", .obj [("relname", .str "open")])])],
    index "entry_state" "entry" ["state"]]

/-- A decimal with more digits than a whole number is written with. -/
def wide : Json := table "amount" [decimal "value" 5000 0]

end Sample

namespace Model

/-- The places in a ledger, which is written, and in a tree with a wide decimal, which is
not. -/
theorem ledger_written_wide_unwritten :
    (∃ m script, (build {} Sample.ledger).outcome = .ok m ∧
      (m.script {}).outcome = .ok script ∧
      (∃ statements fates, ParseTree.statements Sample.ledger = .ok statements ∧
        m.Accounts statements fates) ∧
      (m.tables.map Table.position, m.unsupported.map UnsupportedStatement.position,
        m.indexes.map Index.position) = ([2], [3], [4]) ∧
      m.ScriptOf {} script) ∧
    ∃ m, (build {} Sample.wide).outcome = .ok m ∧
      (∃ statements fates, ParseTree.statements Sample.wide = .ok statements ∧
        m.Accounts statements fates) ∧
      (¬ ∀ t ∈ m.tables, t.Writable) ∧ ¬ ∃ script, (m.script {}).outcome = .ok script := by
  constructor
  · have hview : (do
        let m ← (build {} Sample.ledger).outcome
        let _ ← (m.script {}).outcome
        return (m.tables.map Table.position, m.unsupported.map UnsupportedStatement.position,
          m.indexes.map Index.position) : Read _).toOption = some ([2], [3], [4]) := by
      decide +kernel
    obtain ⟨m, hm, h⟩ := Read.bind_eq_ok_iff.1 (Read.eq_ok_of_toOption hview)
    obtain ⟨script, hscript, h⟩ := Read.bind_eq_ok_iff.1 h
    obtain ⟨haccounts, _, hscriptOf⟩ := @build_conserves {} {} Sample.ledger m hm
    exact ⟨m, script, hm, hscript, haccounts, Except.ok.inj h, hscriptOf script hscript⟩
  · have hok : (build {} Sample.wide).outcome.isOk = true := by decide +kernel
    have hfails : (build {} Sample.wide >>= fun m => m.script {}).outcome.isOk = false := by
      decide +kernel
    obtain ⟨m, hm⟩ := Read.exists_of_isOk hok
    obtain ⟨haccounts, hiff, _⟩ := @build_conserves {} {} Sample.wide m hm
    have hnone : ¬ ∃ script, (m.script {}).outcome = .ok script := by
      rintro ⟨script, hscript⟩
      rw [Traced.bind_eq_ok_iff.2 ⟨m, hm, hscript⟩] at hfails
      cases hfails
    exact ⟨m, hm, haccounts, fun hall => hnone (hiff.2 hall), hnone⟩

end Model

/-! ### Keys -/

/-- The number of primary key clauses of a table, with its columns or on its own. -/
def Ddl.CreateTable.primaryKeys (t : Ddl.CreateTable) : Nat :=
  t.columns.countP (fun c => c.primaryKey.isSome) + t.keys.countP fun k => k.isPrimary

theorem Table.CreatedBy.primaryKeys_eq {settings : Settings} {enums : EnumRegistry} {t : Table}
    {create : Ddl.CreateTable} (h : t.CreatedBy settings enums create) :
    create.primaryKeys =
      t.columns.countP (·.isPrimaryKey) + t.constraints.countP (·.isPrimary) := by
  obtain ⟨_, hcolumns, hkeys⟩ := h
  have hflags : create.columns.map (fun d => d.primaryKey.isSome) =
      t.columns.map (fun c => c.isPrimaryKey) :=
    map_eq_of_forall₂ hcolumns fun _ _ _ hd => (Column.definition_eq_ok hd).2.2
  have hcount : create.columns.countP (fun d => d.primaryKey.isSome) =
      t.columns.countP (·.isPrimaryKey) := by
    have := congrArg (List.countP id) hflags
    rwa [List.countP_map, List.countP_map] at this
  rw [Ddl.CreateTable.primaryKeys, hcount, hkeys, List.countP_map]
  rfl

namespace Model

variable {settings settings' : Settings} {tree : Json} {m : Model}

/-- **The invariant of a model that was built.** Names are distinct, keys are made of columns
of their table, tables come in the order of their statements, and a table has one primary key
at most, in the model and in its script. -/
theorem build_wellFormed (h : (build settings tree).outcome = .ok m) :
    (m.tables.map Table.name).Nodup ∧
    (∀ t ∈ m.tables, (t.columns.map Column.name).Nodup ∧
      t.columns.countP (·.isPrimaryKey) + t.constraints.countP (·.isPrimary) ≤ 1 ∧
      ∀ k ∈ t.constraints, ∀ name ∈ k.columns, name ∈ t.columns.map Column.name) ∧
    (m.tables.map Table.position).Pairwise (· < ·) ∧
    ∀ script, (m.script settings').outcome = .ok script → ∀ b ∈ script.blocks,
      ∀ create, b.table = some create → create.primaryKeys ≤ 1 := by
  have hsound := build_sound h
  obtain ⟨statements, fates, _, haccounts⟩ := build_accounts h
  refine ⟨hsound.names, ?_, ?_, ?_⟩
  · intro t ht
    obtain ⟨names, primaryKeys, keys, _⟩ := hsound.tables t ht
    exact ⟨names, primaryKeys, keys⟩
  · rw [haccounts.tables]
    exact Fate.positions_increasing ..
  · intro script hscript b hb create hcreate
    obtain ⟨t, ht, hcreated⟩ := (haccounts.scriptOf hscript).exists_table hb hcreate
    rw [hcreated.primaryKeys_eq]
    exact (hsound.tables t ht).primaryKeys

theorem ledger_wellFormed : ∃ m, (build {} Sample.ledger).outcome = .ok m ∧
    m.tables.map (fun t => (t.position, t.constraints.map TableConstraint.columns)) =
      [(2, [["account", "number"]])] ∧
    (m.tables.map Table.name).Nodup ∧
    (∀ t ∈ m.tables, (t.columns.map Column.name).Nodup ∧
      t.columns.countP (·.isPrimaryKey) + t.constraints.countP (·.isPrimary) ≤ 1 ∧
      ∀ k ∈ t.constraints, ∀ name ∈ k.columns, name ∈ t.columns.map Column.name) ∧
    (m.tables.map Table.position).Pairwise (· < ·) ∧
    ∀ script, (m.script {}).outcome = .ok script → ∀ b ∈ script.blocks,
      ∀ create, b.table = some create → create.primaryKeys ≤ 1 := by
  have hview : (do
      let m ← (build {} Sample.ledger).outcome
      return m.tables.map fun t => (t.position, t.constraints.map TableConstraint.columns) :
        Read _).toOption = some [(2, [["account", "number"]])] := by decide +kernel
  obtain ⟨m, hm, h⟩ := Read.bind_eq_ok_iff.1 (Read.eq_ok_of_toOption hview)
  exact ⟨m, hm, Except.ok.inj h, build_wellFormed hm⟩

end Model

end StrictDdl
