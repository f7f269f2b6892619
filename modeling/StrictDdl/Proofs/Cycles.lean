import StrictDdl.Proofs.Conversion
import StrictDdl.Proofs.Fault
import StrictDdl.Proofs.Walk.Path

/-! Cycles of references.

The references of a column lead to the first column behind it that refers to nothing, to a
column that is not there, or back to where they have been, and `Model.owner` tells which
(`Model.owner_eq_ok_iff`, `Model.owner_eq_error_iff`). A model with a cycle of references has no
document, and no other model lacks one for that reason (`Model.document_cyclic_iff`). -/
namespace StrictDdl

open Relation

namespace Model

/-- The foreign key of the one column refers to the other. -/
def RefersTo (m : Model) (k l : ColumnKey) : Prop :=
  ∃ c fk, m.column? k.1 k.2 = some c ∧ c.foreignKey = some fk ∧ l = (fk.table, fk.column)

/-- The references of some column come back to it. -/
def HasCycle (m : Model) : Prop := ∃ k, TransGen m.RefersTo k k

section Owner

variable {m : Model} {k : ColumnKey} {table column : String} {c : Column} {fault : Fault}

theorem referenceStep_eq_go_iff {next : ColumnKey} :
    m.referenceStep k = .go next ↔ m.RefersTo k next := by
  rw [referenceStep, RefersTo]
  cases hc : m.column? k.1 k.2 with
  | none => simp
  | some c =>
    cases hkey : c.foreignKey with
    | none => simp [hkey]
    | some fk => simp [hkey, eq_comm]

theorem referenceStep_eq_stop_none_iff :
    m.referenceStep k = .stop none ↔ m.column? k.1 k.2 = none := by
  rw [referenceStep]
  cases m.column? k.1 k.2 with
  | none => simp
  | some c => cases hkey : c.foreignKey <;> simp [hkey]

theorem referenceStep_eq_stop_some_iff :
    m.referenceStep k = .stop (some c) ↔ m.column? k.1 k.2 = some c ∧ c.foreignKey = none := by
  rw [referenceStep]
  cases m.column? k.1 k.2 with
  | none => simp
  | some c' => cases hkey : c'.foreignKey <;> grind

theorem leads_references (m : Model) : m.references.Leads = m.RefersTo := by
  funext k next
  exact propext referenceStep_eq_go_iff

/-- References have an end exactly where they lead to one. -/
theorem owner_eq_ok_iff {owner : Option Column} :
    m.owner table column = .ok owner ↔
      ∃ k, ReflTransGen m.RefersTo (table, column) k ∧ m.referenceStep k = .stop owner := by
  have harrives := Walk.arrives_iff (w := m.references) (k := (table, column)) (r := owner)
  rw [leads_references] at harrives
  refine Iff.trans ?_ harrives
  rw [Model.owner]
  cases m.references.run (table, column) <;> simp

/-- References have no end exactly if they come back, and then the way they take is told. -/
theorem owner_eq_error_iff :
    m.owner table column = .error fault ↔ ∃ path,
      Walk.Returns m.RefersTo (table, column) path ∧ fault = .cyclic (path.map ColumnKey.label) := by
  simp only [← leads_references, ← Walk.run_eq_cycle_iff, Model.owner]
  cases m.references.run (table, column) <;> simp [eq_comm]

theorem exists_owner_eq_error_iff :
    (∃ fault, m.owner table column = .error fault) ↔
      ∃ k, ReflTransGen m.RefersTo (table, column) k ∧ TransGen m.RefersTo k k := by
  have hreturns := Walk.returns_iff (w := m.references) (k := (table, column))
  simp only [Walk.run_eq_cycle_iff, leads_references] at hreturns
  refine Iff.trans ?_ hreturns
  simp only [owner_eq_error_iff]
  exact ⟨fun ⟨_, path, h, _⟩ => ⟨path, h⟩, fun ⟨path, h⟩ => ⟨_, path, h, rfl⟩⟩

end Owner

/-! ### Documents -/

section Document

variable {m : Model} {settings : Settings} {d : Document}

/-- The fault shows a cycle of references only if there is one. -/
def Explains (m : Model) (fault : Fault) : Prop := (∃ chain, fault = .cyclic chain) → m.HasCycle

theorem owner_fails (table column : String) : (m.owner table column).Fails m.Explains := by
  intro fault hfault _
  obtain ⟨k, _, hcycle⟩ := exists_owner_eq_error_iff.1 ⟨fault, hfault⟩
  exact ⟨k, hcycle⟩

theorem within_fails (levels : Nat) : (Nesting.within levels).Fails m.Explains :=
  .ite (Read.fails_ok ()) (Read.fails_error (by simp [Explains]))

theorem referenceProperty_fails (table : String) (c : Column) (fk : ForeignKey) :
    (c.referenceProperty m table fk).outcome.Fails m.Explains := by
  unfold Column.referenceProperty
  extract_lets entity rest
  have hrest : ∀ u, (rest u).outcome.Fails m.Explains := fun _ =>
    Traced.fails_bind
      (Traced.fails_forM (fun _ => Traced.fails_ite (Read.fails_ok ()) (Read.fails_ok ())) _)
      fun _ => Read.fails_ok _
  refine Traced.fails_bind (owner_fails table c.name) fun owner => ?_
  exact Traced.fails_ite (Traced.fails_bind (Read.fails_ok ()) hrest) (hrest ())

theorem property_fails (shared : EnumRegistry) (table : String) (c : Column) :
    (m.property shared table c).outcome.Fails m.Explains := by
  unfold property
  extract_lets rest
  have hrest : ∀ p, (rest p).outcome.Fails m.Explains := fun _ => Read.fails_ok _
  cases c.foreignKey with
  | none => exact Traced.fails_bind (within_fails _) fun _ => hrest _
  | some fk => exact Traced.fails_bind (referenceProperty_fails table c fk) hrest

theorem columnProperties_fails (shared : EnumRegistry) (table : String) (columns : List Column) :
    (m.columnProperties shared table columns).outcome.Fails m.Explains := by
  induction columns with
  | nil => exact Read.fails_ok []
  | cons c columns ih =>
    unfold columnProperties
    refine Traced.fails_bind ?_ fun _ => Traced.fails_bind (property_fails shared table c) fun _ =>
      Traced.fails_bind ih fun _ => Read.fails_ok _
    exact Traced.fails_forM (fun _ => Traced.fails_ite (Read.fails_ok ()) (Read.fails_ok ())) _

theorem tableSchema_fails (shared : EnumRegistry) (t : Table) :
    (m.tableSchema shared t).outcome.Fails m.Explains := by
  unfold tableSchema
  exact Traced.fails_bind (Traced.fails_forM (fun _ => Read.fails_ok ()) _) fun _ =>
    Traced.fails_bind (Traced.fails_forM (fun _ => Read.fails_ok ()) _) fun _ =>
      Traced.fails_bind (columnProperties_fails shared t.name t.columns) fun _ => Read.fails_ok _

theorem document_fails (settings : Settings) :
    (m.document settings).outcome.Fails m.Explains := by
  unfold document
  refine Traced.fails_bind ?_ fun _ => Traced.fails_bind ?_ fun tables =>
    Traced.fails_bind (Read.fails_ok ()) fun _ => Traced.fails_bind ?_ fun _ => Read.fails_ok _
  · exact Traced.fails_forM (fun _ => Traced.fails_ite (Read.fails_ok ()) (Read.fails_ok ())) _
  · exact Traced.fails_mapM_of_mem fun t _ =>
      Traced.fails_bind (tableSchema_fails _ t) fun _ => Read.fails_ok _
  · exact (Read.fails_forM (fun _ => within_fails _) _).bind fun _ => Read.fails_ok _

/-- A document follows the references of every column, so none of them comes back. -/
theorem DocumentOf.not_hasCycle (h : m.DocumentOf settings d) : ¬ m.HasCycle := by
  rintro ⟨⟨table, column⟩, hcycle⟩
  obtain ⟨fault, hfault⟩ := exists_owner_eq_error_iff.2 ⟨(table, column), .refl, hcycle⟩
  obtain ⟨owner, howner⟩ := h.owner_eq_ok table column
  rw [howner] at hfault
  cases hfault

/-- **If nothing else keeps a document from being written, a cycle does exactly if there is one.** -/
theorem document_cyclic_iff
    (h : ∀ fault, (m.document settings).outcome = .error fault → ∃ chain, fault = .cyclic chain) :
    (∃ chain, (m.document settings).outcome = .error (.cyclic chain)) ↔ m.HasCycle := by
  constructor
  · rintro ⟨chain, hchain⟩
    exact document_fails settings _ hchain ⟨chain, rfl⟩
  · intro hcycle
    cases hdocument : (m.document settings).outcome with
    | ok d => exact absurd hcycle (document_spec hdocument).not_hasCycle
    | error fault =>
      obtain ⟨chain, rfl⟩ := h fault hdocument
      exact ⟨chain, rfl⟩

end Document

end Model

namespace Convert

/-- Once there is a model, only the writing of its document can fail. -/
theorem toDocument_eq_error_iff {settings : Settings} {tree : Json} {m : Model} {fault : Fault}
    (hm : (Model.build settings tree).outcome = .ok m) :
    (toDocument settings tree).outcome = .error fault ↔
      (m.document settings).outcome = .error fault := by
  have hmodel : (model settings tree).outcome = .ok m := by
    unfold model
    exact Traced.bind_eq_ok_iff.2 ⟨m, hm, rfl⟩
  unfold toDocument
  rw [Traced.outcome_bind, hmodel]
  change (_ >>= _ : Traced _).outcome = _ ↔ _
  rw [Traced.outcome_bind, Traced.collecting]
  cases (m.document settings).outcome with
  | ok d => exact iff_of_false (by rintro ⟨⟩) (by rintro ⟨⟩)
  | error fault' =>
    change (Except.error fault' : Read _) = _ ↔ _
    rw [Except.error.injEq, Except.error.injEq]

/-- **References are followed to their end or found to have none**, and a tree has no document for
a cycle exactly if its model has one. -/
theorem references_end : (∀ (m : Model) (table column : String),
      (∀ c, m.owner table column = .ok (some c) ↔
        ∃ k, ReflTransGen m.RefersTo (table, column) k ∧
          m.column? k.1 k.2 = some c ∧ c.foreignKey = none) ∧
      (m.owner table column = .ok none ↔
        ∃ k, ReflTransGen m.RefersTo (table, column) k ∧ m.column? k.1 k.2 = none) ∧
      ((∃ fault, m.owner table column = .error fault) ↔
        ∃ k, ReflTransGen m.RefersTo (table, column) k ∧ TransGen m.RefersTo k k) ∧
      ∀ fault, m.owner table column = .error fault ↔ ∃ path,
        Walk.Returns m.RefersTo (table, column) path ∧
          fault = .cyclic (path.map Model.ColumnKey.label)) ∧
    ∀ settings tree m, (Model.build settings tree).outcome = .ok m →
      (∀ fault, (toDocument settings tree).outcome = .error fault → ∃ chain, fault = .cyclic chain) →
      ((∃ chain, (toDocument settings tree).outcome = .error (.cyclic chain)) ↔ m.HasCycle) := by
  refine ⟨fun m table column => ⟨fun c => ?_, ?_, Model.exists_owner_eq_error_iff, fun fault =>
    Model.owner_eq_error_iff⟩, fun settings tree m hm honly => ?_⟩
  · simp only [Model.owner_eq_ok_iff, Model.referenceStep_eq_stop_some_iff]
  · simp only [Model.owner_eq_ok_iff, Model.referenceStep_eq_stop_none_iff]
  · simp only [toDocument_eq_error_iff hm] at honly ⊢
    exact Model.document_cyclic_iff honly

end Convert

/-- The way around, where there is no result for one. -/
def Read.chain? {α : Type} : Read α → Option (List String)
  | .error (.cyclic chain) => some chain
  | _ => none

theorem Read.chain?_eq_some_iff {α : Type} {r : Read α} {chain : List String} :
    r.chain? = some chain ↔ r = .error (.cyclic chain) := by
  unfold Read.chain?
  split
  · simp
  · rename_i hother
    exact iff_of_false (by rintro ⟨⟩) fun h => hother chain h

/-- Hens and eggs that come from one another, and chicks that come from eggs. -/
def Sample.hens : Json :=
  let of (columnName tableName target : String) : Json :=
    column columnName "int4" [constraint "CONSTR_FOREIGN"
      [("pktable", .obj [("relname", .str tableName)]), ("pk_attrs", .arr [name target])]]
  .arr [table "chick" [of "egg" "egg" "hen"], table "egg" [of "hen" "hen" "egg"],
    table "hen" [of "egg" "egg" "hen"]]

/-- There is no document for hens and eggs, and the message tells the way around. -/
theorem Convert.hens_refused : ∃ m, (Model.build {} Sample.hens).outcome = .ok m ∧
    (toDocument {} Sample.hens).outcome =
      .error (.cyclic ["chick.egg", "egg.hen", "hen.egg", "egg.hen"]) ∧ m.HasCycle := by
  have hok : (Model.build {} Sample.hens).outcome.isOk = true := by decide +kernel
  obtain ⟨m, hm⟩ := Read.exists_of_isOk hok
  have hchain : (toDocument {} Sample.hens).outcome.chain? =
      some ["chick.egg", "egg.hen", "hen.egg", "egg.hen"] := by decide +kernel
  have hrefused := Read.chain?_eq_some_iff.1 hchain
  have honly : ∀ fault, (toDocument {} Sample.hens).outcome = .error fault →
      ∃ chain, fault = .cyclic chain := by
    intro fault hfault
    rw [hrefused, Except.error.injEq] at hfault
    exact ⟨_, hfault.symm⟩
  exact ⟨m, hm, hrefused, (references_end.2 {} Sample.hens m hm honly).1 ⟨_, hrefused⟩⟩

end StrictDdl
