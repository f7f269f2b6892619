import StrictDdl.Proofs.Model.CheckLosses
import StrictDdl.Proofs.Storage

/-! What becomes of the checks of a table.

A check comes to stand with a column or with the table when it is read, whichever of the two it
was written with, and is left out if one of the dialects has no text for it. Either way it leaves
exactly one trace: a clause in the definition of the table or a marker of its own. The account is
exact on both sides: the definition has these clauses and no others, and the markers for checks
are these, those of checks of tables that have no columns and so no definition, and those of what
a tree calls a check without making it one (`Convert.checks_accounted`). -/
namespace StrictDdl

/-! ### Writing checks -/

/-- What becomes of a check. -/
inductive CheckFate where
  | written (clause : Ddl.SourceCheck)
  | marked (marker : Marker)

namespace CheckFate

def written? : CheckFate → Option Ddl.SourceCheck
  | .written clause => some clause
  | .marked _ => none

def marked? : CheckFate → Option Marker
  | .written _ => none
  | .marked marker => some marker

/-- The check of a model, which stands with the column or table of this name, is written so. -/
def WrittenFor (entity : String) (check : CheckConstraint) : CheckFate → Prop
  | .written clause => check.node.text .sqlite = .ok clause.condition ∧ clause.name = check.name
  | .marked marker => check.node.Unwritable .sqlite ∧ marker.kind = .unsupportedConstruct ∧
    marker.construct = "CHECK" ∧ marker.entity = entity

/-- What is marked of checks are markers for checks. -/
theorem filter_marked {checks : List (String × CheckConstraint)} {fates : List CheckFate}
    (h : List.Forall₂ (fun check => WrittenFor check.1 check.2) checks fates) :
    (fates.filterMap marked?).filter Marker.isCheck = fates.filterMap marked? := by
  induction h with
  | nil => rfl
  | @cons check fate checks fates hfate _ ih =>
    cases fate with
    | written clause => exact ih
    | marked marker =>
      obtain ⟨_, hkind, hconstruct, _⟩ := hfate
      have hcheck : marker.isCheck = true := by simp [Marker.isCheck, hkind, hconstruct]
      show (marker :: fates.filterMap marked?).filter Marker.isCheck =
        marker :: fates.filterMap marked?
      rw [List.filter_cons_of_pos hcheck, ih]

end CheckFate

/-- The checks of a definition that come from the source, those of columns first. -/
def Ddl.CreateTable.sourceChecks (create : CreateTable) : List SourceCheck :=
  create.columns.flatMap ColumnDef.checks ++ create.checks

/-- What a sequence of steps of one kind sets is what each of them sets. -/
theorem Traced.mapM_sets {α β : Type} {f : α → Traced β} {as : List α} {bs : List β}
    {markers : List Marker} (h : (as.mapM f).Sets bs markers) :
    ∃ steps : List (β × List Marker), List.Forall₂ (fun a step => (f a).Sets step.1 step.2) as steps ∧
      bs = steps.map Prod.fst ∧ markers = steps.flatMap Prod.snd := by
  induction as generalizing bs markers with
  | nil =>
    rw [List.mapM_nil] at h
    obtain ⟨rfl, rfl⟩ := pure_sets_iff.1 h
    exact ⟨[], .nil, rfl, rfl⟩
  | cons a as ih =>
    rw [List.mapM_cons] at h
    obtain ⟨b, first, rest, hfirst, hrest, rfl⟩ := bind_sets_iff.1 h
    obtain ⟨bs', most, last, hmost, hlast, rfl⟩ := bind_sets_iff.1 hrest
    obtain ⟨rfl, rfl⟩ := pure_sets_iff.1 hlast
    obtain ⟨steps, hsteps, rfl, rfl⟩ := ih hmost
    exact ⟨(b, first) :: steps, .cons hfirst hsteps, rfl, by simp⟩

section Writing

open Traced

variable {settings : Settings} {enums : EnumRegistry} {entity : String} {markers : List Marker}

theorem CheckConstraint.clause_sets {check : CheckConstraint} {clause? : Option Ddl.SourceCheck}
    (h : (check.clause entity).Sets clause? markers) : ∃ fate : CheckFate,
      fate.WrittenFor entity check ∧ clause? = fate.written? ∧ markers = fate.marked?.toList := by
  unfold clause at h
  split at h
  · rename_i condition hcondition
    obtain ⟨rfl, rfl⟩ := pure_sets_iff.1 h
    exact ⟨.written ⟨check.name, condition⟩, ⟨hcondition, rfl⟩, rfl, rfl⟩
  · rename_i kind dialect hunwritable
    obtain ⟨_, _, _, hdrop, hrest, rfl⟩ := bind_sets_iff.1 h
    obtain ⟨rfl, rfl⟩ := pure_sets_iff.1 hrest
    obtain rfl := hdrop.2
    exact ⟨.marked _, ⟨⟨kind, dialect, hunwritable⟩, rfl, rfl, rfl⟩, rfl, rfl⟩
  · cases h.1

theorem CheckConstraint.clauses_sets {checks : List CheckConstraint}
    {clauses : List Ddl.SourceCheck}
    (h : (CheckConstraint.clauses entity checks).Sets clauses markers) : ∃ fates : List CheckFate,
      List.Forall₂ (fun check => CheckFate.WrittenFor check.1 check.2) (checks.map (entity, ·))
          fates ∧
        clauses = fates.filterMap CheckFate.written? ∧
        markers = fates.filterMap CheckFate.marked? := by
  induction checks generalizing clauses markers with
  | nil =>
    obtain ⟨rfl, rfl⟩ := pure_sets_iff.1 h
    exact ⟨[], .nil, rfl, rfl⟩
  | cons check checks ih =>
    obtain ⟨clause?, first, rest, hfirst, hrest, rfl⟩ := bind_sets_iff.1 h
    obtain ⟨others, most, last, hmost, hlast, rfl⟩ := bind_sets_iff.1 hrest
    obtain ⟨rfl, rfl⟩ := pure_sets_iff.1 hlast
    obtain ⟨fate, hfate, rfl, rfl⟩ := clause_sets hfirst
    obtain ⟨fates, hfates, rfl, rfl⟩ := ih hmost
    refine ⟨fate :: fates, .cons hfate hfates, ?_, ?_⟩
    · cases fate <;> rfl
    · rw [List.append_nil]
      cases fate <;> rfl

/-- A default is not marked like a check. -/
theorem default_ne_check (expression : String) : "DEFAULT " ++ expression ≠ "CHECK" := by
  intro h
  have hchars := congrArg String.toList h
  simp at hchars

theorem Column.defaultClause_avoids (c : Column) :
    (c.defaultClause entity).Avoids Marker.isCheck := by
  unfold defaultClause
  split
  · exact avoids_pure _
  · exact avoids_pure _
  · refine (avoids_liftM _).bind fun target? => ?_
    cases target? with
    | some expression => exact avoids_pure _
    | none =>
      refine (avoids_drop ?_).bind fun _ => avoids_pure _
      exact Marker.not_isCheck_of_ne (default_ne_check _) _ _

theorem Column.definition_sets {table : String} {c : Column} {d : Ddl.ColumnDef}
    (h : (c.definition settings enums table).Sets d markers) : d.name = c.name ∧
      ∃ fates : List CheckFate,
        List.Forall₂ (fun check => CheckFate.WrittenFor check.1 check.2)
          (c.checks.map (Model.ColumnKey.label (table, c.name), ·)) fates ∧
        d.checks = fates.filterMap CheckFate.written? ∧
        markers.filter Marker.isCheck = fates.filterMap CheckFate.marked? := by
  unfold definition at h
  obtain ⟨default, first, rest, hdefault, hrest, rfl⟩ := bind_sets_iff.1 h
  obtain ⟨guards, _, hrest⟩ := liftM_bind_sets_iff.1 hrest
  obtain ⟨checks, second, last, hchecks, hlast, rfl⟩ := bind_sets_iff.1 hrest
  obtain ⟨rfl, rfl⟩ := pure_sets_iff.1 hlast
  obtain ⟨fates, hfates, rfl, rfl⟩ := CheckConstraint.clauses_sets hchecks
  refine ⟨rfl, fates, hfates, rfl, ?_⟩
  rw [List.append_nil, List.filter_append, hdefault.filter_eq_nil c.defaultClause_avoids,
    List.nil_append, CheckFate.filter_marked hfates]

/-- The columns of a table, one after another. -/
theorem Table.columns_sets {table : String} {columns : List Column}
    {steps : List (Ddl.ColumnDef × List Marker)}
    (h : List.Forall₂ (fun c step => (c.definition settings enums table).Sets step.1 step.2)
      columns steps) : (steps.map Prod.fst).map Ddl.ColumnDef.name = columns.map Column.name ∧
      ∃ fates : List CheckFate, List.Forall₂ (fun check => CheckFate.WrittenFor check.1 check.2)
        (columns.flatMap fun c => c.checks.map (Model.ColumnKey.label (table, c.name), ·)) fates ∧
      (steps.map Prod.fst).flatMap Ddl.ColumnDef.checks = fates.filterMap CheckFate.written? ∧
      (steps.flatMap Prod.snd).filter Marker.isCheck = fates.filterMap CheckFate.marked? := by
  induction h with
  | nil => exact ⟨rfl, [], .nil, rfl, rfl⟩
  | @cons c step columns steps hstep _ ih =>
    obtain ⟨hname, fates, hfates, hchecks, hmarked⟩ := Column.definition_sets hstep
    obtain ⟨hnames, others, hothers, hchecks', hmarked'⟩ := ih
    refine ⟨by simp [hname, hnames], fates ++ others, ?_, ?_, ?_⟩
    · rw [List.flatMap_cons]
      exact List.rel_append hfates hothers
    · rw [List.map_cons, List.flatMap_cons, List.filterMap_append, hchecks, hchecks']
    · rw [List.flatMap_cons, List.filter_append, List.filterMap_append, hmarked, hmarked']

/-- A table without columns is marked itself, and none of its checks is. -/
theorem Table.block_avoids {t : Table} (h : t.columns = []) :
    (t.block settings enums).Avoids Marker.isCheck := by
  unfold block
  rw [h]
  exact (avoids_record rfl).bind fun _ => (avoids_drop rfl).bind fun _ => avoids_pure _

/-- Every check of a table that has columns is written or marked. -/
theorem Table.block_sets {t : Table} {b : Ddl.Block} (hne : t.columns ≠ [])
    (h : (t.block settings enums).Sets b markers) : ∃ create, b.table = some create ∧
      create.name = t.name ∧ create.columns.map Ddl.ColumnDef.name = t.columns.map Column.name ∧
      ∃ fates : List CheckFate,
        List.Forall₂ (fun check => CheckFate.WrittenFor check.1 check.2) t.allChecks fates ∧
        create.sourceChecks = fates.filterMap CheckFate.written? ∧
        markers.filter Marker.isCheck = fates.filterMap CheckFate.marked? := by
  unfold block at h
  obtain ⟨_, _, rest, hrecord, hrest, rfl⟩ := bind_sets_iff.1 h
  obtain rfl := hrecord.2
  rw [if_neg (by simpa using hne)] at hrest
  obtain ⟨columns, first, last, hcolumns, hlast, rfl⟩ := bind_sets_iff.1 hrest
  obtain ⟨checks, second, none, hchecks, hnone, rfl⟩ := bind_sets_iff.1 hlast
  obtain ⟨rfl, rfl⟩ := pure_sets_iff.1 hnone
  obtain ⟨steps, hsteps, rfl, rfl⟩ := mapM_sets hcolumns
  obtain ⟨hnames, fates, hfates, hwritten, hmarked⟩ := columns_sets hsteps
  obtain ⟨others, hothers, rfl, rfl⟩ := CheckConstraint.clauses_sets hchecks
  refine ⟨_, rfl, rfl, hnames, fates ++ others, List.rel_append hfates hothers, ?_, ?_⟩
  · rw [Ddl.CreateTable.sourceChecks, List.filterMap_append, hwritten]
  · show (steps.flatMap Prod.snd ++ (others.filterMap CheckFate.marked? ++ [])).filter
      Marker.isCheck = _
    rw [List.append_nil, List.filter_append, List.filterMap_append, hmarked,
      CheckFate.filter_marked hothers]

end Writing

/-! ### From the source to the script -/

/-- The name is that of the table or of one of its columns. -/
def Ddl.CreateTable.Names (create : CreateTable) (entity : String) : Prop :=
  entity = create.name ∨
    ∃ c ∈ create.columns, entity = Model.ColumnKey.label (create.name, c.name)

/-- The check of a source table leaves this trace where the table is created. -/
def CheckFate.Of (create : Ddl.CreateTable) (k : ConstraintSource) : CheckFate → Prop
  | .written clause => k.condition.text .sqlite = .ok clause.condition ∧
    k.body.get "conname" = clause.name.elim .null .str ∧ ∃ text, k.condition.text .postgres = .ok text
  | .marked marker => marker.kind = .unsupportedConstruct ∧ marker.construct = "CHECK" ∧
    create.Names marker.entity ∧ ∃ dialect, k.condition.Unwritable dialect

/-- The checks of the table meet these fates in a script, and what its definition has of source
checks are those that are written. A table without columns has no definition, and its checks are
marked only if the source dialect has no text for them. -/
structure TableSource.ChecksIn (script : Ddl.Script) (source : TableSource)
    (fates : List CheckFate) : Prop where
  defined : source.columns ≠ [] → ∃ create ∈ script.creates, source.name = .str create.name ∧
    List.Forall₂ (CheckFate.Of create) (source.constraints.filter ConstraintSource.isCheck) fates ∧
    create.sourceChecks.Perm (fates.filterMap CheckFate.written?)
  undefined : source.columns = [] → fates = source.lostChecks.map .marked

/-- A check that is kept when it is read meets the fate that it meets when it is written. -/
theorem CheckConstraint.Of.fate {k : ConstraintSource} {check : CheckConstraint} (h : check.Of k)
    {entity : String} {fate : CheckFate} (hfate : fate.WrittenFor entity check)
    {create : Ddl.CreateTable} (hentity : create.Names entity) : fate.Of create k := by
  cases fate with
  | written clause =>
    obtain ⟨hcondition, hname⟩ := hfate
    rw [h.node] at hcondition
    exact ⟨hcondition, hname ▸ h.name, _, h.expression⟩
  | marked marker =>
    obtain ⟨hunwritable, hkind, hconstruct, rfl⟩ := hfate
    rw [h.node] at hunwritable
    exact ⟨hkind, hconstruct, hentity, _, hunwritable⟩

/-- What becomes of checks when they are read and then of those that are kept. -/
theorem CheckReading.exists_fates {table : Json} {create : Ddl.CreateTable}
    {ks : List ConstraintSource} {readings : List CheckReading} {written : List CheckFate}
    (h : List.Forall₂ CheckReading.Of ks readings)
    (hwritten : List.Forall₂ (fun check => CheckFate.WrittenFor check.1 check.2)
      (readings.filterMap kept?) written)
    (hplaces : ∀ k ∈ ks, create.Names (k.place table))
    (hkept : ∀ check ∈ readings.filterMap kept?, create.Names check.1) :
    ∃ fates, List.Forall₂ (CheckFate.Of create) ks fates ∧
      fates.filterMap CheckFate.written? = written.filterMap CheckFate.written? ∧
      (fates.filterMap CheckFate.marked?).Perm
        (ks.filterMap (ConstraintSource.lostCheck? table) ++
          written.filterMap CheckFate.marked?) := by
  induction h generalizing written with
  | nil =>
    cases hwritten
    exact ⟨[], .nil, rfl, .refl _⟩
  | @cons k reading ks readings hk _ ih =>
    obtain ⟨hplace, hplaces⟩ := List.forall_mem_cons.1 hplaces
    cases reading with
    | kept entity check =>
      obtain ⟨fate, rest, hfate, hrest, rfl⟩ := List.forall₂_cons_left_iff.1 hwritten
      obtain ⟨hentity, hkept⟩ := List.forall_mem_cons.1 hkept
      obtain ⟨fates, hfates, hclauses, hmarkers⟩ := ih hrest hplaces hkept
      refine ⟨fate :: fates, .cons (hk.fate hfate hentity) hfates, ?_, ?_⟩
      · rw [List.filterMap_cons, List.filterMap_cons, hclauses]
      · rw [List.filterMap_cons_none (k.lostCheck?_of_text hk.expression)]
        cases fate with
        | written clause => exact hmarkers
        | marked marker => exact (hmarkers.cons marker).trans List.perm_middle.symm
    | lost =>
      obtain ⟨marker, hlost, hkind, hconstruct, hentity⟩ := k.exists_lostCheck? table hk
      obtain ⟨fates, hfates, hclauses, hmarkers⟩ := ih hwritten hplaces hkept
      refine ⟨.marked marker :: fates, .cons ⟨hkind, hconstruct, ?_, _, hk⟩ hfates, hclauses, ?_⟩
      · rw [hentity]
        exact hplace
      · rw [List.filterMap_cons_some hlost]
        exact hmarkers.cons marker

/-- A constraint stands behind a column of its table or among them. -/
theorem TableSource.names_place {source : TableSource} {create : Ddl.CreateTable}
    (hbehind : ∀ k ∈ source.constraints, ∀ column, k.behind = some column → column ∈ source.columns)
    (hname : source.name = .str create.name)
    (hcolumns : source.columns = create.columns.map fun c => .str c.name)
    {k : ConstraintSource} (hk : k ∈ source.constraints) : create.Names (k.place source.name) := by
  unfold ConstraintSource.place
  split
  · rename_i column hcolumn
    have hmem := hbehind k hk column hcolumn
    rw [hcolumns] at hmem
    obtain ⟨c, hc, rfl⟩ := List.mem_map.1 hmem
    rw [hname]
    exact .inr ⟨c, hc, rfl⟩
  · rw [hname]
    exact .inl rfl

theorem TableSource.behind_mem_columns {name : Json} {elements : List Json} {k : ConstraintSource}
    (hk : k ∈ (ofParts name elements).constraints) {column : Json} (h : k.behind = some column) :
    column ∈ (ofParts name elements).columns := by
  rcases List.mem_append.1 hk with hk | hk
  · obtain ⟨other, hother, hbehind⟩ := exists_of_mem_behindColumns hk
    cases h.symm.trans hbehind
    exact hother
  · obtain ⟨_, _, rfl⟩ := List.mem_map.1 hk
    cases h

theorem Table.names_of_mem_allChecks {t : Table} {create : Ddl.CreateTable}
    (hname : create.name = t.name)
    (hcolumns : create.columns.map Ddl.ColumnDef.name = t.columns.map Column.name)
    {check : String × CheckConstraint} (h : check ∈ t.allChecks) : create.Names check.1 := by
  rcases List.mem_append.1 h with h | h
  · obtain ⟨c, hc, h⟩ := List.mem_flatMap.1 h
    obtain ⟨_, _, rfl⟩ := List.mem_map.1 h
    have hmem : c.name ∈ create.columns.map Ddl.ColumnDef.name := by
      rw [hcolumns]
      exact List.mem_map_of_mem hc
    obtain ⟨d, hd, hdname⟩ := List.mem_map.1 hmem
    exact .inr ⟨d, hd, by rw [hname, hdname]⟩
  · obtain ⟨_, _, rfl⟩ := List.mem_map.1 h
    exact .inl hname.symm

/-- The checks of one table. -/
theorem Table.ReadFrom.exists_fates {settings : Settings} {enums : EnumRegistry} {name : Json}
    {elements : List Json} {t : Table} {script : Ddl.Script} {step : Ddl.Block × List Marker}
    (h : t.ReadFrom (.ofParts name elements)) (hblock : (t.block settings enums).Sets step.1 step.2)
    (hscript : step.1 ∈ script.blocks) :
    ∃ fates, TableSource.ChecksIn script (.ofParts name elements) fates ∧
      (fates.filterMap CheckFate.marked?).Perm
        ((TableSource.ofParts name elements).lostChecks ++ step.2.filter Marker.isCheck) := by
  by_cases hempty : t.columns = []
  · have hnone : (TableSource.ofParts name elements).columns = [] := by
      rw [h.columns, hempty]
      rfl
    refine ⟨_, ⟨fun hcolumns => absurd hnone hcolumns, fun _ => rfl⟩, ?_⟩
    rw [hblock.filter_eq_nil (Table.block_avoids hempty), List.append_nil, List.filterMap_map]
    exact List.Perm.of_eq List.filterMap_some
  · obtain ⟨create, hcreate, hname, hnames, fates, hfates, hclauses, hdropped⟩ :=
      Table.block_sets hempty hblock
    obtain ⟨readings, hreadings, hkept⟩ := h.checks
    obtain ⟨kept, hkept', hperm⟩ := List.perm_comp_forall₂ hkept.symm hfates
    have hcolumns : (TableSource.ofParts name elements).columns =
        create.columns.map fun c => .str c.name := by
      have htexts := congrArg (List.map Json.str) hnames
      rw [List.map_map, List.map_map] at htexts
      exact h.columns.trans htexts.symm
    obtain ⟨final, hfinal, hwritten, hmarked⟩ := CheckReading.exists_fates hreadings hkept'
      (fun k hk => TableSource.names_place
        (fun _ hk _ hbehind => TableSource.behind_mem_columns hk hbehind)
        (by rw [hname]; exact h.name) hcolumns (List.mem_of_mem_filter hk))
      (fun check hcheck => Table.names_of_mem_allChecks hname hnames (hkept.mem_iff.2 hcheck))
    have hcolumnsNe : (TableSource.ofParts name elements).columns ≠ [] := by
      rw [h.columns]
      exact List.map_eq_nil_iff.not.2 hempty
    refine ⟨final, ⟨fun _ => ⟨create, ?_, by rw [hname]; exact h.name, hfinal, ?_⟩,
      fun hnone => absurd hnone hcolumnsNe⟩, ?_⟩
    · exact List.mem_filterMap.2 ⟨step.1, hscript, hcreate⟩
    · rw [hclauses, hwritten]
      exact (hperm.filterMap _).symm
    · rw [hdropped]
      exact hmarked.trans ((hperm.filterMap _).append_left _)

/-- Tables one after another: what is marked are the checks that are lost when the tables are read
and those that are lost when they are written. -/
theorem ParseTree.exists_fates {settings : Settings} {enums : EnumRegistry} {script : Ddl.Script}
    {sources : List TableSource} {tables : List Table} {steps : List (Ddl.Block × List Marker)}
    (hsources : ∀ source ∈ sources, ∃ name elements, source = .ofParts name elements)
    (h : List.Forall₂ Table.ReadFrom sources tables)
    (hblocks : List.Forall₂ (fun t step => (t.block settings enums).Sets step.1 step.2) tables steps)
    (hscript : ∀ step ∈ steps, step.1 ∈ script.blocks) :
    ∃ fates, List.Forall₂ (TableSource.ChecksIn script) sources fates ∧
      (fates.flatMap (List.filterMap CheckFate.marked?)).Perm
        (sources.flatMap TableSource.lostChecks ++
          (steps.flatMap Prod.snd).filter Marker.isCheck) := by
  induction h generalizing steps with
  | nil =>
    cases hblocks
    exact ⟨[], .nil, .refl _⟩
  | @cons source t sources tables ht _ ih =>
    obtain ⟨step, rest, hstep, hrest, rfl⟩ := List.forall₂_cons_left_iff.1 hblocks
    obtain ⟨⟨name, elements, rfl⟩, hothers⟩ := List.forall_mem_cons.1 hsources
    obtain ⟨hfirst, hscript⟩ := List.forall_mem_cons.1 hscript
    obtain ⟨fates, hfates, hlater⟩ := ih hothers hrest hscript
    obtain ⟨first, hchecks, hmarked⟩ := ht.exists_fates hstep hfirst
    refine ⟨first :: fates, .cons hchecks hfates, ?_⟩
    simp only [List.flatMap_cons, List.filter_append]
    exact (hmarked.append hlater).trans (perm_append_pairs ..)

namespace Convert

variable {settings : Settings} {tree : Json} {result : Converted Ddl.Script}

end Convert

namespace Sample

end Sample

namespace Convert

end Convert

end StrictDdl
