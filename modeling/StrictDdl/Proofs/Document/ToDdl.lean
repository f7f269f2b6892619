import StrictDdl.Proofs.Document.Chain

/-! The script of a document that was written and read back.

It never fails: the references of the document all end, and what a table requires are
columns of it (`Model.DocumentOf.script_ok`). If it comes without a marker, every reference
ends at a property (`Model.DocumentOf.storage_of_lossless`). -/
namespace StrictDdl

/-! ### Success -/

namespace Model.DocumentOf

variable {settings settings' : Settings} {m : Model} {d : Document}

theorem storage_ok (h : m.DocumentOf settings d) (table column : String) :
    ∃ type, (d.written.storage table column).outcome = .ok type := by
  obtain ⟨_, path, e, _, hrun, _⟩ := h.run table column
  rw [Document.storage, hrun]
  cases e with
  | property p => exact ⟨_, rfl⟩
  | missing => exact ⟨_, rfl⟩
  | unrecognised => exact ⟨_, rfl⟩

theorem column_ok (h : m.DocumentOf settings d) (table : String) (required : Bool) (name : String)
    (p : Property) : ∃ column, (d.written.column table required name p).outcome = .ok column := by
  obtain ⟨type, htype⟩ := h.storage_ok table name
  rw [Document.column]
  cases hpath : p.path? with
  | none => exact ⟨_, Traced.bind_eq_ok_iff.2 ⟨type, htype, rfl⟩⟩
  | some path =>
    by_cases hnone : (RefKey.ofPath? path).isNone
    · simp only [hnone, if_true]
      exact ⟨_, Traced.bind_eq_ok_iff.2 ⟨type, htype, rfl⟩⟩
    · simp only [hnone]
      exact ⟨_, Traced.bind_eq_ok_iff.2 ⟨type, htype, rfl⟩⟩

end Model.DocumentOf

namespace Model.SchemaOf

variable {m : Model} {shared : EnumRegistry} {t : Table} {s : TableSchema}

/-- A table requires columns of its own only. -/
theorem missing_eq_nil (h : m.SchemaOf shared t s) :
    (s.written.required.filter fun column => (s.written.properties.lookup column).isNone) = [] := by
  rw [List.filter_eq_nil_iff]
  intro name hname
  rw [TableSchema.written, h.required, List.mem_map] at hname
  obtain ⟨c, hc, rfl⟩ := hname
  rw [TableSchema.written, lookup_map_values, Option.isNone_map]
  intro hnone
  have hfind := h.properties.lookup_eq_none (Option.isNone_iff_eq_none.1 hnone)
  have hcolumn := List.find?_eq_none.1 hfind c (List.mem_of_mem_filter hc)
  exact hcolumn (decide_eq_true rfl)

end Model.SchemaOf

namespace Model.DocumentOf

variable {settings settings' : Settings} {m : Model} {d : Document}

theorem block_ok (h : m.DocumentOf settings d) {t : Table} {s : TableSchema}
    (hs : m.SchemaOf (m.sharedEnums settings.sharedEnumMinRefs) t s) (name : String) :
    ∃ block, (d.written.block name s.written).outcome = .ok block := by
  rw [Document.block, hs.missing_eq_nil]
  by_cases hempty : s.written.properties.isEmpty
  · simp only [hempty]
    exact ⟨_, rfl⟩
  · simp only [hempty]
    have hall : ∀ entry ∈ s.written.properties, ∃ column, (d.written.column name
        (s.written.required.contains entry.1) entry.1 entry.2).outcome = .ok column :=
      fun entry _ => h.column_ok name _ entry.1 entry.2
    obtain ⟨columns, hcolumns⟩ := Traced.exists_mapM_eq_ok hall
    exact ⟨_, Traced.bind_eq_ok_iff.2 ⟨columns, hcolumns, rfl⟩⟩

/-- **A document that was written and read back has a script.** -/
theorem script_ok (h : m.DocumentOf settings d) :
    ∃ script, (d.written.script settings').outcome = .ok script := by
  have hall : ∀ entry ∈ d.written.properties,
      ∃ block, (d.written.block entry.1 entry.2).outcome = .ok block := by
    intro entry hentry
    obtain ⟨⟨name, s⟩, hs, rfl⟩ := List.mem_map.1 hentry
    obtain ⟨t, _, _, hof⟩ := h.tables.exists_of_mem hs
    exact h.block_ok hof name
  obtain ⟨blocks, hblocks⟩ := Traced.exists_mapM_eq_ok hall
  exact ⟨_, Traced.bind_eq_ok_iff.2 ⟨blocks, hblocks, rfl⟩⟩

end Model.DocumentOf

/-! ### Nothing lost -/

namespace Document

variable {settings : Settings} {d : Document}

theorem column_lossless {table name : String} {required : Bool} {p : Property}
    {column : Ddl.ColumnDef} (h : (d.column table required name p).Lossless column) :
    (∀ path, p.path? = some path → (RefKey.ofPath? path).isSome) ∧
      ∃ type, (d.storage table name).Lossless type ∧ column = {
        name
        type
        primaryKey := if p.primaryKey = some true then
          some (type = "INTEGER" && p.columnRef?.isNone) else none
        notNull := required
        references := p.columnRef?.map fun (table, column) =>
          ⟨table, column, writtenAction p.onDelete, writtenAction p.onUpdate⟩ } := by
  unfold Document.column at h
  obtain ⟨type, htype, h⟩ := Traced.bind_lossless_iff.1 h
  dsimp only at h
  cases hpath : p.path? with
  | none =>
    rw [hpath] at h
    obtain rfl := Traced.lossless_pure_iff.1 h
    exact ⟨by simp, type, htype, rfl⟩
  | some path =>
    rw [hpath] at h
    dsimp only at h
    split at h
    · obtain ⟨_, hdrop, _⟩ := Traced.bind_lossless_iff.1 h
      exact absurd hdrop Traced.not_lossless_drop
    · rename_i hsome
      obtain rfl := Traced.lossless_pure_iff.1 h
      refine ⟨?_, type, htype, rfl⟩
      intro path' hpath'
      cases hpath'
      exact Option.isSome_iff_ne_none.2 fun hnone => hsome (by rw [hnone]; rfl)

theorem block_lossless {name : String} {t : TableSchema} {block : Ddl.Block}
    (h : (d.block name t).Lossless block) :
    ∃ columns, block = ⟨[], some { name, columns }⟩ ∧ List.Forall₂ (fun entry column =>
      (d.column name (t.required.contains entry.1) entry.1 entry.2).Lossless column)
        t.properties columns := by
  unfold Document.block at h
  dsimp only at h
  split at h
  · cases h.1
  · split at h
    · obtain ⟨_, hdrop, _⟩ := Traced.bind_lossless_iff.1 h
      exact absurd hdrop Traced.not_lossless_drop
    · obtain ⟨columns, hcolumns, h⟩ := Traced.bind_lossless_iff.1 h
      obtain rfl := Traced.lossless_pure_iff.1 h
      exact ⟨columns, rfl, Traced.mapM_lossless_iff.1 hcolumns⟩

theorem script_lossless {script : Ddl.Script} (h : (d.script settings).Lossless script) :
    List.Forall₂ (fun entry block => (d.block entry.1 entry.2).Lossless block) d.properties
        script.blocks ∧
      script.indexes = d.properties.flatMap fun (name, t) => indexes settings name t := by
  unfold Document.script at h
  obtain ⟨blocks, hblocks, h⟩ := Traced.bind_lossless_iff.1 h
  obtain ⟨_, _, h⟩ := Traced.bind_lossless_iff.1 h
  obtain rfl := Traced.lossless_pure_iff.1 h
  exact ⟨Traced.mapM_lossless_iff.1 hblocks, rfl⟩

/-- Every path of a script without markers is of a known form. -/
theorem path_known {script : Ddl.Script} (h : (d.script settings).Lossless script)
    {table column path : String} {p : Property} (hp : d.property? table column = some p)
    (hpath : p.path? = some path) : (RefKey.ofPath? path).isSome := by
  rw [property?, Option.bind_eq_some_iff] at hp
  obtain ⟨t, ht, hp⟩ := hp
  obtain ⟨block, _, hblock⟩ := exists_of_forall₂ (script_lossless h).1 (mem_of_lookup ht)
  obtain ⟨columns, _, hcolumns⟩ := block_lossless hblock
  obtain ⟨column, _, hcolumn⟩ := exists_of_forall₂ hcolumns (mem_of_lookup hp)
  exact (column_lossless hcolumn).1 path hpath

end Document

namespace Model.DocumentOf

variable {settings settings' : Settings} {m : Model} {d : Document}

theorem definition?_path? (h : m.DocumentOf settings d) {name : String} {p : Property}
    (hp : d.written.definition? name = some p) : p.path? = none := by
  rw [Document.written_definition?, h.definition?_eq, Option.map_map] at hp
  obtain ⟨e, _, rfl⟩ := Option.map_eq_some_iff.1 hp
  rfl

/-- No reference of a script without markers ends at a path of no known form. -/
theorem refStep_ne_unrecognised (h : m.DocumentOf settings d) {script : Ddl.Script}
    (hscript : (d.written.script settings').Lossless script) (k : RefKey) :
    d.written.refStep k ≠ .stop .unrecognised := by
  intro hstep
  rw [Document.refStep] at hstep
  split at hstep
  · cases hstep
  · rename_i p hp
    split at hstep
    · cases hstep
    · rename_i path hpath
      split at hstep
      · cases hstep
      · rename_i hnone
        cases k with
        | column table column =>
          have := Document.path_known hscript hp hpath
          rw [hnone] at this
          cases this
        | definition name =>
          rw [h.definition?_path? hp] at hpath
          cases hpath

/-- In a script without markers a column is stored the way the owner of its references
is. -/
theorem storage_of_lossless (h : m.DocumentOf settings d) {script : Ddl.Script}
    (hscript : (d.written.script settings').Lossless script) {table column type : String}
    (htype : (d.written.storage table column).Lossless type) :
    ∃ owner, m.owner table column = .ok (some owner) ∧ type = owner.documentStorage m.enums := by
  obtain ⟨owner, path, e, howner, hrun, hend⟩ := h.run table column
  rw [Document.storage, hrun] at htype
  cases hend with
  | missing =>
    obtain ⟨_, hdrop, _⟩ := Traced.bind_lossless_iff.1 htype
    exact absurd hdrop Traced.not_lossless_drop
  | unrecognised =>
    obtain ⟨k, hk⟩ := Walk.exists_stop_of_run hrun
    exact absurd hk (h.refStep_ne_unrecognised hscript k)
  | property hstorage =>
    obtain rfl := Traced.lossless_pure_iff.1 htype
    exact ⟨_, howner, hstorage⟩

end Model.DocumentOf

end StrictDdl
