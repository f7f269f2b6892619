import Mathlib.Data.List.Nodup
import Mathlib.Data.List.Pairwise
import StrictDdl.Proofs.Script
import StrictDdl.Proofs.Storage
import StrictDdl.Proofs.Model.Tables
import StrictDdl.Proofs.Sqlite.Scanning

/-! The names that a script defines.

SQLite does not tell the case of the letters of a name, and it does not see a line break behind a
bare one. Tables and columns are only kept apart as texts, and the names that are made for indexes
are not kept apart at all. So a script can define a name twice, and `Convert.names_distinct_iff`
says when it does. -/
namespace StrictDdl

namespace Sqlite

/-- A name as SQLite compares it: what is read where it is written (`Token.scanned`), in lower
case. -/
def spelling (name : String) : List Char :=
  (if Sql.needsQuoting name then name.toList else Mode.bareWord name).map Char.toLower

/-- Both texts are one name. -/
def SameName (a b : String) : Prop := spelling a = spelling b

/-- No name is there twice. -/
def Distinct (names : List String) : Prop := (names.map spelling).Nodup

/-- Different texts are different names. -/
def Apart (names : List String) : Prop := ∀ a ∈ names, ∀ b ∈ names, SameName a b → a = b

instance : DecidableRel SameName :=
  fun a b => inferInstanceAs (Decidable (spelling a = spelling b))

instance (names : List String) : Decidable (Distinct names) :=
  inferInstanceAs (Decidable (names.map spelling).Nodup)

theorem distinct_iff_apart {names : List String} (h : names.Nodup) :
    Distinct names ↔ Apart names := List.nodup_map_iff_inj_on h

theorem Distinct.eq_of_filterMap {α : Type} {name? : α → Option String} {as : List α}
    (h : Distinct (as.filterMap name?)) {a b : α} (ha : a ∈ as) (hb : b ∈ as) {x y : String}
    (hx : name? a = some x) (hy : name? b = some y) (hsame : SameName x y) : a = b := by
  rw [Distinct, List.Nodup, List.pairwise_map, List.pairwise_filterMap] at h
  by_contra hne
  have : Std.Symm fun a b => ∀ x, name? a = some x → ∀ y, name? b = some y →
      spelling x ≠ spelling y := ⟨fun _ _ h y hy x hx => (h x hx y hy).symm⟩
  exact h.forall ha hb hne x hx y hy hsame

end Sqlite

/-- No name is defined twice: none of a table, none of a column of one table, none of an index. -/
structure Ddl.Script.NamesDistinct (s : Script) : Prop where
  tables : Sqlite.Distinct (s.creates.map CreateTable.name)
  columns : ∀ create ∈ s.creates, Sqlite.Distinct (create.columns.map ColumnDef.name)
  indexes : Sqlite.Distinct (s.indexes.map CreateIndex.name)

/-! ### Names of the source -/

/-- The names of the columns. -/
def TableSource.columnNames (source : TableSource) : List String :=
  source.columns.filterMap Json.str?

/-- The names of the tables that have columns. -/
def ParseTree.created (statements : List Json) : List String :=
  ((tables statements).filter fun source => !source.columns.isEmpty).filterMap (·.name.str?)

/-- The name that an index is given by its statement. -/
def Index.given? (statements : List Json) (i : Index) : Option String :=
  statements[i.position]?.bind fun statement => (IndexSource.ofStatement statement).given

theorem Table.ReadFrom.columnNames_eq {source : TableSource} {t : Table} (h : t.ReadFrom source) :
    source.columnNames = t.columns.map Column.name := by
  rw [TableSource.columnNames, h.columns, List.filterMap_map, ← List.filterMap_eq_map]
  rfl

theorem ParseTree.created_eq {statements : List Json} {tables : List Table}
    (h : List.Forall₂ Table.ReadFrom (ParseTree.tables statements) tables) :
    created statements = (tables.filter fun t => !t.columns.isEmpty).map Table.name := by
  unfold created
  generalize ParseTree.tables statements = sources at h
  induction h with
  | nil => rfl
  | @cons source t _ _ ht _ ih =>
    have hempty : source.columns.isEmpty = t.columns.isEmpty := by
      rw [ht.columns, List.isEmpty_map]
    rw [List.filter_cons, List.filter_cons, hempty]
    split
    · rw [List.filterMap_cons, ht.name, ih]
      rfl
    · exact ih

/-! ### Names of the script -/

namespace Model

variable {settings : Settings} {m : Model} {script : Ddl.Script} {statements : List Json}

/-- The name of the table that a block creates. -/
def Source.created? : Source → Option String
  | .table t => if t.columns.isEmpty then none else some t.name
  | .statement _ => none

theorem Source.Writes.created?_eq {enums : EnumRegistry} {source : Source} {b : Ddl.Block}
    (h : source.Writes settings enums b) :
    b.table.map Ddl.CreateTable.name = source.created? := by
  cases source with
  | table t =>
    rcases Table.block_eq_ok h with ⟨hnil, hnone⟩ | ⟨hne, _, hsome, hname, _⟩
    · rw [hnone, created?, if_pos (List.isEmpty_iff.2 hnil)]
      rfl
    · rw [hsome, created?, if_neg (by simpa using hne), Option.map_some, hname]
  | statement s =>
    have hblock : b = ⟨[s.label], none⟩ := h
    rw [hblock]
    rfl

/-- The tables of a script have the names of those of the model that have columns. -/
theorem ScriptOf.creates_names (h : m.ScriptOf settings script) :
    (script.creates.map Ddl.CreateTable.name).Perm
      ((m.tables.filter fun t => !t.columns.isEmpty).map Table.name) := by
  -- Blocks come in the order of positions, which is not that of the sources of the model.
  obtain ⟨sources, hperm, _, hwrites⟩ := h.blocks
  have hblocks : (script.blocks.map fun b => b.table.map Ddl.CreateTable.name) =
      sources.map Source.created? :=
    map_eq_of_forall₂ hwrites fun _ _ _ hwrites => Source.Writes.created?_eq hwrites
  have hcreates : script.creates.map Ddl.CreateTable.name = sources.filterMap Source.created? := by
    have := congrArg (List.filterMap id) hblocks
    rw [List.filterMap_map, List.filterMap_map] at this
    rw [Ddl.Script.creates, List.map_filterMap]
    exact this
  have hsources : m.sources.filterMap Source.created? =
      (m.tables.filter fun t => !t.columns.isEmpty).map Table.name := by
    have hstatements : m.unsupported.filterMap (Source.created? ∘ .statement) = [] :=
      List.filterMap_eq_nil_iff.2 fun _ _ => rfl
    rw [Model.sources, List.filterMap_append, List.filterMap_map, List.filterMap_map, hstatements,
      List.append_nil, ← List.filterMap_eq_map, List.filterMap_filter]
    refine List.filterMap_congr fun t _ => ?_
    cases hempty : t.columns.isEmpty <;> simp [Source.created?, hempty]
  rw [hcreates, ← hsources]
  exact hperm.filterMap _

/-- No table of the script is defined twice exactly if those of the source have names of their
own. -/
theorem ScriptOf.tables_distinct_iff (h : m.ScriptOf settings script) (hsound : m.Sound settings)
    (hall : List.Forall₂ Table.ReadFrom (ParseTree.tables statements) m.tables) :
    Sqlite.Distinct (script.creates.map Ddl.CreateTable.name) ↔
      Sqlite.Apart (ParseTree.created statements) := by
  have hperm := h.creates_names
  rw [← ParseTree.created_eq hall] at hperm
  have hnodup : (ParseTree.created statements).Nodup := by
    rw [ParseTree.created_eq hall]
    exact hsound.names.sublist (List.filter_sublist.map _)
  rw [Sqlite.Distinct, (hperm.map Sqlite.spelling).nodup_iff]
  exact Sqlite.distinct_iff_apart hnodup

/-- No column of a table is defined twice exactly if those of the source have names of their
own. -/
theorem ScriptOf.columns_distinct_iff (h : m.ScriptOf settings script) (hsound : m.Sound settings)
    (hall : List.Forall₂ Table.ReadFrom (ParseTree.tables statements) m.tables) :
    (∀ create ∈ script.creates, Sqlite.Distinct (create.columns.map Ddl.ColumnDef.name)) ↔
      ∀ source ∈ ParseTree.tables statements, Sqlite.Apart source.columnNames := by
  have htable : ∀ {t : Table} {source : TableSource} {create : Ddl.CreateTable}, t ∈ m.tables →
      t.ReadFrom source → t.CreatedBy settings m.enums create →
      (Sqlite.Distinct (create.columns.map Ddl.ColumnDef.name) ↔
        Sqlite.Apart source.columnNames) := by
    intro t source create ht hread hcreated
    have hnames : create.columns.map Ddl.ColumnDef.name = t.columns.map Column.name :=
      map_eq_of_forall₂ hcreated.2.1 fun _ _ _ hd => (Column.definition_eq_ok hd).1
    rw [hnames, hread.columnNames_eq]
    exact Sqlite.distinct_iff_apart (hsound.tables t ht).names
  constructor
  · intro hdistinct source hsource
    obtain ⟨t, ht, hread⟩ := exists_of_forall₂ hall hsource
    by_cases hne : t.columns = []
    · rw [hread.columnNames_eq, hne]
      intro a ha
      cases ha
    · obtain ⟨b, hb, create, hcreate, hcreated⟩ := h.exists_create ht hne
      exact (htable ht hread hcreated).1
        (hdistinct create (List.mem_filterMap.2 ⟨b, hb, hcreate⟩))
  · intro hapart create hmem
    obtain ⟨b, hb, hcreate⟩ := List.mem_filterMap.1 hmem
    obtain ⟨t, ht, hcreated⟩ := h.exists_table hb hcreate
    obtain ⟨source, hsource, hread⟩ := exists_of_forall₂ hall.flip ht
    exact (htable ht hread hcreated).2 (hapart source hsource)

theorem ScriptOf.indexes_distinct_iff (h : m.ScriptOf settings script) :
    Sqlite.Distinct (script.indexes.map Ddl.CreateIndex.name) ↔
      ∀ i ∈ m.indexes, ∀ j ∈ m.indexes, Sqlite.SameName i.name j.name → i = j := by
  have hnodup : m.indexes.Nodup := by
    refine h.inOrder.imp ?_
    rintro i j hlt rfl
    exact Nat.lt_irrefl _ hlt
  have hname : Ddl.CreateIndex.name ∘ Index.create = Index.name := rfl
  rw [Sqlite.Distinct, h.indexes, List.map_map, List.map_map, Function.comp_assoc, hname]
  exact List.nodup_map_iff_inj_on hnodup

/-- If no name is given to two indexes, two of them have the same name only if one was made. -/
theorem ReadFrom.indexes_apart_iff (h : m.ReadFrom settings statements)
    (hgiven : Sqlite.Distinct (m.indexes.filterMap (Index.given? statements))) :
    (∀ i ∈ m.indexes, ∀ j ∈ m.indexes, Sqlite.SameName i.name j.name → i = j) ↔
      ∀ i ∈ m.indexes, i.given? statements = none → ∀ j ∈ m.indexes,
        Sqlite.SameName (Sql.indexName settings.indexStem i.table i.columns) j.name → i = j := by
  have hname : ∀ i ∈ m.indexes, i.name = (i.given? statements).getD
      (Sql.indexName settings.indexStem i.table i.columns) := by
    intro i hi
    obtain ⟨statement, hstatement, hread⟩ := h.indexes i hi
    rw [Index.given?, hstatement]
    exact hread.name
  constructor
  · intro hapart i hi hmade j hj hsame
    apply hapart i hi j hj
    rw [hname i hi, hmade, Option.getD_none]
    exact hsame
  · intro hmade i hi j hj hsame
    -- One of the two names was made, or both were given.
    cases hi? : i.given? statements with
    | none =>
      refine hmade i hi hi? j hj ?_
      rw [hname i hi, hi?, Option.getD_none] at hsame
      exact hsame
    | some a =>
      cases hj? : j.given? statements with
      | none =>
        refine (hmade j hj hj? i hi ?_).symm
        rw [hname j hj, hj?, Option.getD_none] at hsame
        exact Eq.symm hsame
      | some b =>
        rw [hname i hi, hname j hj, hi?, hj?] at hsame
        exact hgiven.eq_of_filterMap hi hj hi? hj? hsame

end Model

namespace Convert

variable {settings : Settings} {tree : Json} {result : Converted Ddl.Script}

/-- **Whether a script defines a name twice.** If no name is given to two indexes, the script
defines no name twice exactly if different tables have different names for SQLite, and so have the
columns of each table, and no name that is made for an index is that of another one. -/
theorem names_distinct_iff (h : (toDdl settings tree).outcome = .ok result) :
    ∃ m statements, (Model.build settings tree).outcome = .ok m ∧
      ParseTree.statements tree = .ok statements ∧
      (∀ i ∈ m.indexes, ∃ statement, statements[i.position]? = some statement ∧
        i.ReadFrom settings (.ofStatement statement)) ∧
      (Sqlite.Distinct (m.indexes.filterMap (Index.given? statements)) →
        (result.output.NamesDistinct ↔ Sqlite.Apart (ParseTree.created statements) ∧
          (∀ source ∈ ParseTree.tables statements, Sqlite.Apart source.columnNames) ∧
          ∀ i ∈ m.indexes, i.given? statements = none → ∀ j ∈ m.indexes,
            Sqlite.SameName (Sql.indexName settings.indexStem i.table i.columns) j.name →
              i = j)) := by
  obtain ⟨m, hm, hscript⟩ := toDdl_spec h
  have hsound := Model.build_sound hm
  obtain ⟨_, _, _, haccounts⟩ := Model.build_accounts hm
  have hof := haccounts.scriptOf hscript
  obtain ⟨statements, hstatements, ⟨drafts⟩⟩ := Model.exists_drafts hm
  have hread := drafts.readFrom
  refine ⟨m, statements, hm, hstatements, hread.indexes, fun hgiven => ?_⟩
  rw [← hof.tables_distinct_iff hsound hread.tables, ← hof.columns_distinct_iff hsound hread.tables,
    ← hread.indexes_apart_iff hgiven, ← hof.indexes_distinct_iff]
  constructor
  · rintro ⟨htables, hcolumns, hindexes⟩
    exact ⟨htables, hcolumns, hindexes⟩
  · rintro ⟨htables, hcolumns, hindexes⟩
    exact ⟨htables, hcolumns, hindexes⟩

end Convert

namespace Sample

/-- Tables and columns that only differ in case, and two indexes without a name on columns whose
names are joined to one text. -/
def homographs : Json :=
  .arr [table "item" [column "id" "int4" [], column "ID" "int4" []],
    table "Item" [column "code" "int4" []],
    table "a" [column "b_c" "int4" []], table "a_b" [column "c" "int4" []],
    index "" "a" ["b_c"], index "" "a_b" ["c"],
    index "by_id" "item" ["id"], index "by_code" "Item" ["code"]]

end Sample

namespace Convert

/-- No name is given twice, and still a table, a column and an index are defined twice. -/
theorem homographs_defined_twice : ∃ result m statements,
    (toDdl {} Sample.homographs).outcome = .ok result ∧ result.markers = [] ∧
    (Model.build {} Sample.homographs).outcome = .ok m ∧
    ParseTree.statements Sample.homographs = .ok statements ∧
    ParseTree.created statements = ["item", "Item", "a", "a_b"] ∧
    (ParseTree.tables statements).map TableSource.columnNames =
      [["id", "ID"], ["code"], ["b_c"], ["c"]] ∧
    m.indexes.map Index.name = ["idx_a_b_c", "idx_a_b_c", "by_id", "by_code"] ∧
    Sqlite.Distinct (m.indexes.filterMap (Index.given? statements)) ∧
    (result.output.NamesDistinct ↔ Sqlite.Apart (ParseTree.created statements) ∧
      (∀ source ∈ ParseTree.tables statements, Sqlite.Apart source.columnNames) ∧
      ∀ i ∈ m.indexes, i.given? statements = none → ∀ j ∈ m.indexes,
        Sqlite.SameName (Sql.indexName ({} : Settings).indexStem i.table i.columns) j.name →
          i = j) ∧
    ¬ result.output.NamesDistinct := by
  have hresult : (do
      let result ← (toDdl {} Sample.homographs).outcome
      return result.markers : Read _).toOption = some [] := by decide +kernel
  have hview : (do
      let m ← (Model.build {} Sample.homographs).outcome
      let statements ← ParseTree.statements Sample.homographs
      return (ParseTree.created statements,
        (ParseTree.tables statements).map TableSource.columnNames, m.indexes.map Index.name,
        m.indexes.filterMap (Index.given? statements)) : Read _).toOption =
      some (["item", "Item", "a", "a_b"], [["id", "ID"], ["code"], ["b_c"], ["c"]],
        ["idx_a_b_c", "idx_a_b_c", "by_id", "by_code"], ["by_id", "by_code"]) := by
    decide +kernel
  obtain ⟨result, hresult, hmarkers⟩ := Read.bind_eq_ok_iff.1 (Read.eq_ok_of_toOption hresult)
  obtain ⟨m, statements, hm, hstatements, _, hiff⟩ := names_distinct_iff hresult
  obtain ⟨m', hm', hview⟩ := Read.bind_eq_ok_iff.1 (Read.eq_ok_of_toOption hview)
  obtain ⟨statements', hstatements', hview⟩ := Read.bind_eq_ok_iff.1 hview
  cases hm.symm.trans hm'
  cases hstatements.symm.trans hstatements'
  have hview := Except.ok.inj hview
  simp only [Prod.mk.injEq] at hview
  obtain ⟨htables, hcolumns, hindexes, hgiven⟩ := hview
  have hdistinct : Sqlite.Distinct (m.indexes.filterMap (Index.given? statements)) := by
    rw [hgiven]
    decide +kernel
  refine ⟨result, m, statements, hresult, Except.ok.inj hmarkers, hm, hstatements, htables,
    hcolumns, hindexes, hdistinct, hiff hdistinct, fun hnames => ?_⟩
  have hapart := ((hiff hdistinct).1 hnames).1
  rw [htables] at hapart
  have hsame := hapart "item" (by decide) "Item" (by decide) (by decide +kernel)
  exact absurd hsame (by decide)

end Convert

end StrictDdl
