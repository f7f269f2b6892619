import StrictDdl.Conversion
import StrictDdl.Proofs.Document.ToDdl

/-! From a parse tree to a schema document and back to a script.

A document that was written is always accepted again: it is read back, and its script is
written (`Convert.render_of_toDocument`). -/
namespace StrictDdl

namespace Convert

variable {settings settings' : Settings} {tree : Json} {c : Converted Document}

/-- The markers of a document are those of the model of the tree and those of its writing. -/
theorem toDocument_sets (h : (toDocument settings tree).outcome = .ok c) :
    ∃ m dropped, (Model.build settings tree).outcome = .ok m ∧
      (m.document settings).Sets c.output dropped ∧ c.markers = m.markers ++ dropped := by
  unfold toDocument at h
  obtain ⟨m, hm, h⟩ := Traced.bind_eq_ok_iff.1 h
  obtain ⟨⟨d, dropped⟩, hd, h⟩ := Traced.bind_eq_ok_iff.1 h
  cases h
  unfold model at hm
  obtain ⟨m', hm', hm⟩ := Traced.bind_eq_ok_iff.1 hm
  cases hm
  exact ⟨m, dropped, hm', Traced.collecting_eq_ok_iff.1 hd, rfl⟩

/-- The markers of a script are those of the model of the tree and those of its writing. -/
theorem toDdl_sets {r : Converted Ddl.Script} (h : (toDdl settings tree).outcome = .ok r) :
    ∃ m dropped, (Model.build settings tree).outcome = .ok m ∧
      (m.script settings).Sets r.output dropped ∧ r.markers = m.markers ++ dropped := by
  unfold toDdl at h
  obtain ⟨m, hm, h⟩ := Traced.bind_eq_ok_iff.1 h
  obtain ⟨⟨script, dropped⟩, hscript, h⟩ := Traced.bind_eq_ok_iff.1 h
  cases h
  unfold model at hm
  obtain ⟨m', hm', hm⟩ := Traced.bind_eq_ok_iff.1 hm
  cases hm
  exact ⟨m, dropped, hm', Traced.collecting_eq_ok_iff.1 hscript, rfl⟩

/-- A document that was written is that of the model of the tree. -/
theorem toDocument_spec (h : (toDocument settings tree).outcome = .ok c) :
    ∃ m, (Model.build settings tree).outcome = .ok m ∧ m.DocumentOf settings c.output := by
  obtain ⟨m, _, hm, hd, _⟩ := toDocument_sets h
  exact ⟨m, hm, Model.document_spec hd.1⟩

theorem render_eq_ok_iff {source : Json} {r : Converted Ddl.Script} :
    (render settings source).outcome = .ok r ↔ ∃ d, Document.load source = .ok d ∧
      (d.script settings).outcome = .ok r.output ∧ (d.script settings).journal.markers = r.markers := by
  unfold render
  rw [Traced.bind_eq_ok_iff]
  constructor
  · rintro ⟨d, hd, h⟩
    obtain ⟨⟨script, dropped⟩, hscript, h⟩ := Traced.bind_eq_ok_iff.1 h
    cases h
    exact ⟨d, hd, Traced.collecting_eq_ok_iff.1 hscript⟩
  · rintro ⟨d, hd, hscript⟩
    exact ⟨d, hd, Traced.bind_eq_ok_iff.2 ⟨(r.output, r.markers),
      Traced.collecting_eq_ok_iff.2 hscript, rfl⟩⟩

/-- **Every document that is written is accepted again.** -/
theorem render_of_toDocument (h : (toDocument settings tree).outcome = .ok c) :
    (∃ d, Document.load c.output.toJson = .ok d) ∧
      ∃ r, (render settings' c.output.toJson).outcome = .ok r := by
  obtain ⟨m, _, hof⟩ := toDocument_spec h
  obtain ⟨j, hwrite⟩ := hof.writable
  have hload := Document.load_toJson hwrite
  obtain ⟨script, hscript⟩ := hof.script_ok
  exact ⟨⟨_, hload⟩, ⟨script, _⟩, render_eq_ok_iff.2 ⟨_, hload, hscript, rfl⟩⟩

end Convert

/-! ### Trees to try things on -/

namespace Sample

def name (s : String) : Json := .obj [("String", .obj [("sval", .str s)])]

/-- A constraint of a kind, and what else it says. -/
def constraint (code : String) (ms : Members) : Json :=
  .obj [("Constraint", .obj (("contype", .str code) :: ms))]

def column (columnName type : String) (constraints : List Json) : Json :=
  .obj [("ColumnDef", .obj [("colname", .str columnName),
    ("typeName", .obj [("names", .arr [name type])]), ("constraints", .arr constraints)])]

/-- The statement of a table. -/
def table (tableName : String) (elements : List Json) : Json :=
  .obj [("CreateStmt", .obj [("relation", .obj [("relname", .str tableName)]),
    ("tableElts", .arr elements)])]

/-- A table whose rows refer to one another. -/
def parts : Json :=
  table "part" [column "id" "int4" [constraint "CONSTR_PRIMARY" []],
    column "whole" "int4" [constraint "CONSTR_FOREIGN"
      [("pktable", .obj [("relname", .str "part")]), ("pk_attrs", .arr [name "id"])]]]

/-- The check that a column is at least some number. -/
def atLeast (columnName : String) (bound : Int) : Json :=
  constraint "CONSTR_CHECK" [("raw_expr", .obj [("A_Expr", .obj [("kind", .str "AEXPR_OP"),
    ("name", .arr [name ">="]),
    ("lexpr", .obj [("ColumnRef", .obj [("fields", .arr [name columnName])])]),
    ("rexpr", .obj [("A_Const", .obj [("ival", .obj [("ival", .int bound)])])])])])]

/-- A table with two checks on one column, the second of which asks for less. -/
def amounts : Json :=
  table "amount" [column "value" "int4" [atLeast "value" 10, atLeast "value" 0]]

end Sample

namespace Convert

theorem parts_rendered : ∃ c, (toDocument {} Sample.parts).outcome = .ok c ∧
    (∃ d, Document.load c.output.toJson = .ok d) ∧
      ∃ r, (render {} c.output.toJson).outcome = .ok r := by
  have hok : (toDocument {} Sample.parts).outcome.isOk = true := by decide +kernel
  obtain ⟨c, hc⟩ := Read.exists_of_isOk hok
  exact ⟨c, hc, render_of_toDocument hc⟩

end Convert

end StrictDdl
