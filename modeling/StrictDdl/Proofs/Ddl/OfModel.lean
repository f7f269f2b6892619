import Mathlib.Data.List.Perm.Basic
import StrictDdl.Ddl.OfModel
import StrictDdl.Proofs.Model.Positions

/-! The script of a model.

It has one block for each table and one for each statement without a counterpart, in the
order of their positions, and then one statement for each index
(`Model.Accounts.scriptOf`). It is written unless a table has a part that can be neither
written nor left out (`Model.exists_script_iff`). -/
namespace StrictDdl

/-! ### What can be written -/

namespace CheckConstraint

/-- The check has a text in the target dialect, or it is known to have none and can be left
out. -/
def Writable (k : CheckConstraint) : Prop := ∃ text?, k.node.text? .sqlite = .ok text?

theorem exists_clause_iff (entity : String) {k : CheckConstraint} :
    (∃ clause?, (k.clause entity).outcome = .ok clause?) ↔ k.Writable := by
  unfold clause Writable Expr.text?
  generalize k.node.text .sqlite = text
  rcases text with fault | s
  · cases fault with
    | unrenderable kind dialect => exact iff_of_true ⟨_, rfl⟩ ⟨_, rfl⟩
    | _ => exact iff_of_false (fun ⟨_, h⟩ => by cases h) (fun ⟨_, h⟩ => by cases h)
  · exact iff_of_true ⟨_, rfl⟩ ⟨_, rfl⟩

theorem exists_clauses_iff (entity : String) {ks : List CheckConstraint} :
    (∃ cs, (clauses entity ks).outcome = .ok cs) ↔ ∀ k ∈ ks, k.Writable := by
  induction ks with
  | nil => exact iff_of_true ⟨[], rfl⟩ (by simp)
  | cons k ks ih =>
    rw [List.forall_mem_cons, ← ih, ← exists_clause_iff entity]
    exact Traced.ending.exists_bind_iff fun _ => Traced.ending.exists_map_iff

end CheckConstraint

/-- The expression has a text in the target dialect, or it is known to have none. -/
def Computed.Writable (d : Computed) : Prop := ∃ text?, d.target? = .ok text?

namespace Column

/-- The default, the bound of a decimal and the checks can be written or left out. The bound
is a power of ten and has to be short enough to be written at all. -/
structure Writable (c : Column) : Prop where
  default : ∀ d, c.default = some (.computed d) → d.Writable
  bound : c.isArray = false → c.family = .decimal → ∀ p ∈ c.modifiers.precision,
    p = 0 ∨ (p - c.modifiers.scale.getD 0).toNat < Numeral.digitLimit
  checks : ∀ k ∈ c.checks, k.Writable

theorem exists_defaultClause_iff (entity : String) {c : Column} :
    (∃ clause?, (c.defaultClause entity).outcome = .ok clause?) ↔
      ∀ d, c.default = some (.computed d) → d.Writable := by
  unfold defaultClause
  split
  · rename_i hdefault
    exact iff_of_true ⟨_, rfl⟩ (by simp [hdefault])
  · rename_i value hdefault
    exact iff_of_true ⟨_, rfl⟩ (by simp [hdefault])
  · rename_i d hdefault
    rw [Traced.ending.exists_bind_iff fun text? => iff_of_true ?_ trivial, and_true]
    · rw [hdefault]
      constructor
      · rintro h d' ⟨⟩
        exact h
      · exact fun h => h d rfl
    · cases text? with
      | some text => exact ⟨_, rfl⟩
      | none => exact ⟨_, rfl⟩

theorem exists_decimalGuard_iff (settings : Settings) {c : Column} :
    (∃ gs, c.decimalGuard settings = .ok gs) ↔ (c.family = .decimal →
      ∀ p ∈ c.modifiers.precision,
        p = 0 ∨ (p - c.modifiers.scale.getD 0).toNat < Numeral.digitLimit) := by
  unfold decimalGuard
  split
  · rename_i p hfamily hprecision
    simp only [hfamily, hprecision, Option.mem_def, Option.some.injEq, forall_eq', forall_const]
    by_cases hzero : p = 0
    · rw [if_pos hzero]
      exact iff_of_true ⟨_, rfl⟩ (.inl hzero)
    · rw [if_neg hzero]
      split
      · rename_i hlt
        exact iff_of_true ⟨_, rfl⟩ (.inr hlt)
      · rename_i hlt
        exact iff_of_false (fun ⟨_, h⟩ => by cases h) (fun h => h.elim hzero hlt)
  · rename_i hother
    refine iff_of_true ⟨_, rfl⟩ fun hfamily p hp => ?_
    exact (hother p hfamily hp).elim

theorem exists_guards_iff (settings : Settings) (enums : EnumRegistry) {c : Column} :
    (∃ gs, c.guards settings enums = .ok gs) ↔ (c.isArray = false → c.family = .decimal →
      ∀ p ∈ c.modifiers.precision,
        p = 0 ∨ (p - c.modifiers.scale.getD 0).toNat < Numeral.digitLimit) := by
  unfold guards
  cases harray : c.isArray with
  | true => exact iff_of_true ⟨_, rfl⟩ (by simp)
  | false =>
    simp only [Bool.false_eq_true, if_false, forall_const, ← exists_decimalGuard_iff settings]
    constructor
    · rintro ⟨gs, h⟩
      obtain ⟨decimal, hdecimal, _⟩ := Read.bind_eq_ok_iff.1 h
      exact ⟨decimal, hdecimal⟩
    · rintro ⟨decimal, hdecimal⟩
      exact ⟨_, Read.bind_eq_ok_iff.2 ⟨decimal, hdecimal, rfl⟩⟩

theorem exists_definition_iff (settings : Settings) (enums : EnumRegistry) (table : String)
    {c : Column} :
    (∃ d, (c.definition settings enums table).outcome = .ok d) ↔ c.Writable := by
  unfold definition
  rw [Traced.ending.exists_bind_iff fun default => Traced.ending.exists_bind_iff fun guards =>
      Traced.ending.exists_map_iff, exists_defaultClause_iff, CheckConstraint.exists_clauses_iff]
  have hguards := exists_guards_iff settings enums (c := c)
  constructor
  · rintro ⟨hdefault, hbound, hchecks⟩
    exact ⟨hdefault, hguards.1 hbound, hchecks⟩
  · rintro ⟨hdefault, hbound, hchecks⟩
    exact ⟨hdefault, hguards.2 hbound, hchecks⟩

end Column

namespace Table

/-- The table has no columns and is left out, or everything in it can be written or left
out. -/
def Writable (t : Table) : Prop :=
  t.columns ≠ [] → (∀ c ∈ t.columns, c.Writable) ∧ ∀ k ∈ t.checks, k.Writable

theorem exists_block_iff (settings : Settings) (enums : EnumRegistry) {t : Table} :
    (∃ block, (t.block settings enums).outcome = .ok block) ↔ t.Writable := by
  unfold block Writable
  rw [Traced.ending.exists_bind_iff fun _ => Iff.rfl]
  split
  · rename_i hempty
    have hnil : t.columns = [] := List.isEmpty_iff.1 hempty
    exact iff_of_true ⟨⟨_, rfl⟩, _, rfl⟩ fun hne => absurd hnil hne
  · rename_i hempty
    have hne : t.columns ≠ [] := fun hnil => hempty (List.isEmpty_iff.2 hnil)
    rw [Traced.ending.exists_bind_iff fun columns => Traced.ending.exists_map_iff,
      Traced.ending.exists_mapM_iff, CheckConstraint.exists_clauses_iff]
    simp only [Column.exists_definition_iff]
    exact ⟨fun h _ => h.2, fun h => ⟨⟨_, rfl⟩, h hne⟩⟩

end Table

/-! ### What is written -/

namespace Column

/-- What the definition of a column takes from the column as it is. -/
theorem definition_eq_ok {settings : Settings} {enums : EnumRegistry} {table : String} {c : Column}
    {d : Ddl.ColumnDef} (h : (c.definition settings enums table).outcome = .ok d) :
    d.name = c.name ∧ d.type = (c.target enums).storage ∧
      d.primaryKey.isSome = c.isPrimaryKey := by
  unfold definition at h
  obtain ⟨default, _, h⟩ := Traced.bind_eq_ok_iff.1 h
  obtain ⟨guards, _, h⟩ := Traced.bind_eq_ok_iff.1 h
  obtain ⟨checks, _, h⟩ := Traced.bind_eq_ok_iff.1 h
  cases h
  refine ⟨rfl, rfl, ?_⟩
  cases hkey : c.isPrimaryKey <;> simp

theorem guards_of_definition {settings : Settings} {enums : EnumRegistry} {table : String}
    {c : Column} {d : Ddl.ColumnDef} (h : (c.definition settings enums table).outcome = .ok d) :
    c.guards settings enums = .ok d.guards := by
  unfold definition at h
  obtain ⟨default, _, h⟩ := Traced.bind_eq_ok_iff.1 h
  obtain ⟨guards, hguards, h⟩ := Traced.bind_eq_ok_iff.1 h
  obtain ⟨checks, _, h⟩ := Traced.bind_eq_ok_iff.1 h
  cases h
  exact hguards

/-- A column of an enumeration is guarded by its labels, if there are any. -/
theorem guards_of_enum {settings : Settings} {enums : EnumRegistry} {c : Column} {name : String}
    {labels : List String} (harray : c.isArray = false) (hfamily : c.family = .enum)
    (hname : c.enumName = some name) (hlabels : enums.labels name = labels) :
    c.guards settings enums = .ok (if labels.isEmpty then [] else [.oneOf labels]) := by
  simp [guards, decimalGuard, harray, hfamily, hname, hlabels, Family.temporalCheck?]

end Column

namespace Table

/-- A table with columns is created under its name, with a definition for each of its columns
and with its keys. -/
def CreatedBy (settings : Settings) (enums : EnumRegistry) (t : Table) (create : Ddl.CreateTable) :
    Prop :=
  create.name = t.name ∧
    List.Forall₂ (fun c d => (c.definition settings enums t.name).outcome = .ok d)
      t.columns create.columns ∧
    create.keys = t.constraints.map fun k => ⟨k.name, k.isPrimary, k.columns⟩

theorem block_eq_ok {settings : Settings} {enums : EnumRegistry} {t : Table} {b : Ddl.Block}
    (h : (t.block settings enums).outcome = .ok b) :
    (t.columns = [] ∧ b.table = none) ∨
      t.columns ≠ [] ∧ ∃ create, b.table = some create ∧ t.CreatedBy settings enums create := by
  unfold block at h
  obtain ⟨_, _, h⟩ := Traced.bind_eq_ok_iff.1 h
  split at h
  · rename_i hempty
    obtain ⟨_, _, h⟩ := Traced.bind_eq_ok_iff.1 h
    cases h
    exact .inl ⟨List.isEmpty_iff.1 hempty, rfl⟩
  · rename_i hne
    obtain ⟨columns, hcolumns, h⟩ := Traced.bind_eq_ok_iff.1 h
    obtain ⟨checks, _, h⟩ := Traced.bind_eq_ok_iff.1 h
    cases h
    exact .inr ⟨by simpa using hne, _, rfl, rfl, Traced.mapM_eq_ok_iff.1 hcolumns, rfl⟩

end Table

/-! ### Sorting by position -/

theorem pairwise_mergeSort_key {α : Type} (key : α → Nat) (as : List α) :
    (as.mergeSort fun a b => key a ≤ key b).Pairwise fun a b => key a ≤ key b := by
  have hsorted : (as.mergeSort fun a b => key a ≤ key b).Pairwise
      fun a b => decide (key a ≤ key b) = true := by
    refine List.pairwise_mergeSort ?_ ?_ as
    · intro a b c hab hbc
      simp only [decide_eq_true_eq] at hab hbc ⊢
      omega
    · intro a b
      simp only [Bool.or_eq_true, decide_eq_true_eq]
      omega
  exact hsorted.imp of_decide_eq_true

/-- Sorting one of two lists that fit together sorts the other one with it. -/
theorem exists_sorted_of_forall₂ {α β : Type} {R : α → β → Prop} {place : α → Nat} {key : β → Nat}
    {as : List α} {bs : List β} (h : List.Forall₂ R as bs) (hR : ∀ a b, R a b → key b = place a) :
    ∃ sorted : List α, sorted.Perm as ∧ sorted.Pairwise (fun a b => place a ≤ place b) ∧
      List.Forall₂ R sorted (bs.mergeSort fun a b => key a ≤ key b) := by
  have hperm : (bs.mergeSort fun a b => key a ≤ key b).Perm bs := List.mergeSort_perm ..
  obtain ⟨sorted, hfit, hsorted⟩ := List.perm_comp_forall₂ hperm h.flip
  refine ⟨sorted, hsorted, ?_, hfit.flip⟩
  have hkeys : sorted.map place = (bs.mergeSort fun a b => key a ≤ key b).map key :=
    map_eq_of_forall₂ hfit fun b _ a hab => (hR a b hab).symm
  have hpairwise : (sorted.map place).Pairwise (· ≤ ·) := by
    rw [hkeys, List.pairwise_map]
    exact pairwise_mergeSort_key key bs
  exact List.pairwise_map.1 hpairwise

namespace Model

/-- What a block of a script is written for. -/
inductive Source where
  | table (t : Table)
  | statement (s : UnsupportedStatement)

namespace Source

def position : Source → Nat
  | .table t => t.position
  | .statement s => s.position

/-- The block that is written for the source. -/
def Writes (settings : Settings) (enums : EnumRegistry) (source : Source) (block : Ddl.Block) :
    Prop :=
  match source with
  | .table t => (t.block settings enums).outcome = .ok block
  | .statement s => block = ⟨[s.label], none⟩

end Source

/-- The tables and the statements without a counterpart. -/
def sources (m : Model) : List Source := m.tables.map .table ++ m.unsupported.map .statement

variable {settings : Settings} {m : Model}

/-- Each block stands at the position of what it is written for. -/
theorem blocks_eq_ok {blocks : List (Nat × Ddl.Block)}
    (h : (m.blocks settings).outcome = .ok blocks) :
    ∃ sources : List Source, sources.Perm m.sources ∧
      sources.Pairwise (fun a b => a.position ≤ b.position) ∧
      List.Forall₂ (fun (source : Source) block => block.1 = source.position ∧
        source.Writes settings m.enums block.2) sources blocks := by
  unfold Model.blocks at h
  obtain ⟨tables, htables, h⟩ := Traced.bind_eq_ok_iff.1 h
  cases h
  have hall : List.Forall₂ (fun (source : Source) block => block.1 = source.position ∧
      source.Writes settings m.enums block.2) m.sources
      (tables ++ m.unsupported.map fun s => (s.position, Ddl.Block.mk [s.label] none)) := by
    refine List.rel_append ?_ ?_
    · rw [List.forall₂_map_left_iff]
      refine (Traced.mapM_eq_ok_iff.1 htables).imp ?_
      rintro t ⟨position, block⟩ hblock
      obtain ⟨b, hb, heq⟩ := Traced.bind_eq_ok_iff.1 hblock
      cases heq
      exact ⟨rfl, hb⟩
    · rw [List.forall₂_map_left_iff, List.forall₂_map_right_iff, List.forall₂_same]
      exact fun s _ => ⟨rfl, rfl⟩
  exact exists_sorted_of_forall₂ hall fun _ _ h => h.1

/-- The script has one block for each table and each statement without a counterpart, in the
order of their positions, and one statement for each index, in order. -/
structure ScriptOf (settings : Settings) (m : Model) (script : Ddl.Script) : Prop where
  blocks : ∃ sources : List Source, sources.Perm m.sources ∧
    sources.Pairwise (fun a b => a.position < b.position) ∧
    List.Forall₂ (Source.Writes settings m.enums) sources script.blocks
  indexes : script.indexes = m.indexes.map Index.create
  inOrder : m.indexes.Pairwise fun a b => a.position < b.position

theorem Accounts.nodup_positions {statements : List Json} {fates : List Fate}
    (h : m.Accounts statements fates) : (m.sources.map Source.position).Nodup := by
  have hsources : m.sources.map Source.position =
      Fate.table.positions 0 fates ++ Fate.unsupported.positions 0 fates := by
    rw [sources, List.map_append, List.map_map, List.map_map, ← h.tables, ← h.unsupported]
    rfl
  rw [hsources, List.nodup_append]
  refine ⟨Fate.positions_nodup .., Fate.positions_nodup .., ?_⟩
  rintro p htable _ hother rfl
  rw [Fate.mem_positions_iff] at htable hother
  cases htable.symm.trans hother

/-- **The script of a model that was built has everything in its place.** -/
theorem Accounts.scriptOf {statements : List Json} {fates : List Fate} {script : Ddl.Script}
    (hm : m.Accounts statements fates) (h : (m.script settings).outcome = .ok script) :
    m.ScriptOf settings script := by
  unfold Model.script at h
  obtain ⟨blocks, hblocks, h⟩ := Traced.bind_eq_ok_iff.1 h
  obtain ⟨_, _, h⟩ := Traced.bind_eq_ok_iff.1 h
  cases h
  obtain ⟨sources, hperm, hsorted, hwrites⟩ := blocks_eq_ok hblocks
  have hindexes : m.indexes.Pairwise fun a b => a.position < b.position := by
    rw [← List.pairwise_map, hm.indexes]
    exact Fate.positions_increasing ..
  refine ⟨⟨sources, hperm, ?_, ?_⟩, ?_, hindexes⟩
  · have hnodup : (sources.map Source.position).Nodup :=
      (hperm.map Source.position).nodup_iff.2 hm.nodup_positions
    have hne : sources.Pairwise fun a b => a.position ≠ b.position := List.pairwise_map.1 hnodup
    exact (hsorted.and hne).imp fun ⟨hle, hne⟩ => lt_of_le_of_ne hle hne
  · rw [List.forall₂_map_right_iff]
    exact hwrites.imp fun _ _ h => h.2
  · rw [List.mergeSort_of_pairwise]
    exact hindexes.imp fun hlt => decide_eq_true (Nat.le_of_lt hlt)

/-- What a script creates are tables of the model that have columns. -/
theorem ScriptOf.exists_table_with_columns {script : Ddl.Script} (h : m.ScriptOf settings script)
    {b : Ddl.Block} (hb : b ∈ script.blocks) {create : Ddl.CreateTable}
    (hcreate : b.table = some create) :
    ∃ t ∈ m.tables, t.columns ≠ [] ∧ t.CreatedBy settings m.enums create := by
  obtain ⟨sources, hperm, _, hwrites⟩ := h.blocks
  obtain ⟨source, hsource, hwrites⟩ := exists_of_forall₂ hwrites.flip hb
  have hsource : source ∈ m.sources := hperm.mem_iff.1 hsource
  cases source with
  | table t =>
    have ht : t ∈ m.tables := by simpa [Model.sources] using hsource
    rcases Table.block_eq_ok hwrites with ⟨_, hnone⟩ | ⟨hne, create', hsome, hcreated⟩
    · rw [hnone] at hcreate
      cases hcreate
    · rw [hsome] at hcreate
      cases hcreate
      exact ⟨t, ht, hne, hcreated⟩
  | statement s =>
    have hblock : b = ⟨[s.label], none⟩ := hwrites
    rw [hblock] at hcreate
    cases hcreate

theorem ScriptOf.exists_table {script : Ddl.Script} (h : m.ScriptOf settings script)
    {b : Ddl.Block} (hb : b ∈ script.blocks) {create : Ddl.CreateTable}
    (hcreate : b.table = some create) : ∃ t ∈ m.tables, t.CreatedBy settings m.enums create := by
  obtain ⟨t, ht, _, hcreated⟩ := h.exists_table_with_columns hb hcreate
  exact ⟨t, ht, hcreated⟩

/-- Every table with columns is created. -/
theorem ScriptOf.exists_create {script : Ddl.Script} (h : m.ScriptOf settings script) {t : Table}
    (ht : t ∈ m.tables) (hne : t.columns ≠ []) :
    ∃ b ∈ script.blocks, ∃ create, b.table = some create ∧ t.CreatedBy settings m.enums create := by
  obtain ⟨sources, hperm, _, hwrites⟩ := h.blocks
  have hsource : Source.table t ∈ sources := by
    rw [hperm.mem_iff, Model.sources]
    exact List.mem_append_left _ (List.mem_map_of_mem ht)
  obtain ⟨b, hb, hwrites⟩ := exists_of_forall₂ hwrites hsource
  rcases Table.block_eq_ok hwrites with ⟨hnil, _⟩ | ⟨_, create, hsome, hcreated⟩
  · exact absurd hnil hne
  · exact ⟨b, hb, create, hsome, hcreated⟩

theorem exists_script_iff (settings : Settings) (m : Model) :
    (∃ script, (m.script settings).outcome = .ok script) ↔ ∀ t ∈ m.tables, t.Writable := by
  have htable : ∀ t : Table, (∃ entry, (do
      return (t.position, ← t.block settings m.enums) : Traced (Nat × Ddl.Block)).outcome =
        .ok entry) ↔ t.Writable := by
    intro t
    rw [Traced.ending.exists_map_iff, Table.exists_block_iff]
  unfold Model.script
  rw [Traced.ending.exists_bind_iff fun blocks => iff_of_true ⟨_, rfl⟩ trivial, and_true,
    Model.blocks, Traced.ending.exists_map_iff, Traced.ending.exists_mapM_iff]
  simp only [htable]

end Model

end StrictDdl
