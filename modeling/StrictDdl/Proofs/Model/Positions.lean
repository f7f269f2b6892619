import StrictDdl.Proofs.Model.Build

/-! Where the statements of a tree are found again.

Every statement has one fate, and the tables, indexes and statements without a counterpart
of a model have the positions of the statements with that fate, in order; the registered
enumerations and the markers for skipped indexes belong to the rest, one to one
(`Model.build_accounts`). -/
namespace StrictDdl

namespace Fate

/-- The positions, from a first one on, of the statements with this fate. -/
def positions (fate : Fate) (first : Nat) (fates : List Fate) : List Nat :=
  fates.findIdxs (fun f => decide (f = fate)) first

@[simp] theorem positions_singleton (fate : Fate) (first : Nat) (f : Fate) :
    fate.positions first [f] = if f = fate then [first] else [] := by
  simp [positions]

theorem positions_append {fate : Fate} {first : Nat} (fates fates' : List Fate) :
    fate.positions first (fates ++ fates') =
      fate.positions first fates ++ fate.positions (first + fates.length) fates' :=
  List.findIdxs_append

/-- A position is listed under the fate of its statement and under no other. -/
theorem mem_positions_iff {fate : Fate} {fates : List Fate} {p : Nat} :
    p ∈ fate.positions 0 fates ↔ fates[p]? = some fate := by
  rw [positions, List.mem_findIdxs_iff_exists_getElem_pos, List.getElem?_eq_some_iff]
  simp only [decide_eq_true_eq]

theorem positions_nodup (fate : Fate) (first : Nat) (fates : List Fate) :
    (fate.positions first fates).Nodup := List.nodup_findIdxs

theorem positions_increasing (fate : Fate) (first : Nat) (fates : List Fate) :
    (fate.positions first fates).Pairwise (· < ·) := List.pairwise_findIdxs

/-- Only an enumeration is declared by the statements that declare one. -/
theorem Fits.isA_enum {fate : Fate} {statement : Json} (h : fate.Fits statement) :
    Node.isA "CreateEnumStmt" statement = decide (fate = .enum) := by
  have hother : ∀ {tag}, Node.isA tag statement → tag ≠ "CreateEnumStmt" →
      Node.isA "CreateEnumStmt" statement = false := by
    intro tag htag hne
    refine Bool.eq_false_iff.2 fun henum => hne ?_
    exact Node.isA_unique htag henum
  cases fate with
  | table => exact hother h (by decide)
  | index => exact hother h (by decide)
  | unsupported => exact Bool.eq_false_iff.2 h.2
  | enum => exact h
  | skipped => exact hother h (by decide)

theorem positions_enum {fates : List Fate} {statements : List Json}
    (h : List.Forall₂ Fits fates statements) (first : Nat) :
    statements.findIdxs (Node.isA "CreateEnumStmt") first = Fate.enum.positions first fates := by
  induction h generalizing first with
  | nil => rfl
  | cons head _ ih =>
    rw [positions, List.findIdxs_cons, List.findIdxs_cons, head.isA_enum, ih, positions]

end Fate

/-! ### Drafts -/

/-- What the statements from a position on add to a draft, and the markers for the indexes
that are skipped. -/
structure ModelDraft.Adds (statements : List Json) (first : Nat) (fates : List Fate)
    (skipped : List Marker) (m m' : ModelDraft) : Prop where
  fits : List.Forall₂ Fate.Fits fates statements
  tables : m'.tables.map TableDraft.position =
    m.tables.map TableDraft.position ++ Fate.table.positions first fates
  indexes : m'.indexes.map Index.position =
    m.indexes.map Index.position ++ Fate.index.positions first fates
  unsupported : m'.unsupported.map UnsupportedStatement.position =
    m.unsupported.map UnsupportedStatement.position ++ Fate.unsupported.positions first fates
  skipped : List.Forall₂
    (fun p marker => ∃ s, (s, p) ∈ statements.zipIdx first ∧ marker.OfSkipped s)
    (Fate.skipped.positions first fates) skipped

section Drafts

variable {settings : Settings} {enums : EnumRegistry} {m m' m'' : ModelDraft} {first : Nat}

theorem TableDraft.map_position_of_sameColumns {tables tables' : List TableDraft}
    (h : List.Forall₂ TableDraft.SameColumns tables tables') :
    tables'.map TableDraft.position = tables.map TableDraft.position :=
  map_eq_of_forall₂ h fun _ _ _ hsame => hsame.2.1

theorem ModelDraft.Step.adds {statement : Json} {skipped : List Marker} {fate : Fate}
    (hfits : fate.Fits statement)
    (h : m.Step settings enums first statement m' skipped fate) :
    m.Adds [statement] first [fate] skipped m' := by
  have hfits : List.Forall₂ Fate.Fits [fate] [statement] := .cons hfits .nil
  cases h with
  | @table name body t lost hfresh hparts =>
    have hempty : TableDraft.Sound settings enums { name, position := first } :=
      ⟨List.Pairwise.nil, Nat.zero_le 1, by simp, by simp⟩
    have hposition : t.position = first := (readParts_sound hempty hparts).2.2
    exact ⟨hfits, by simp [hposition], by simp, by simp, by simp⟩
  | index hsame hi =>
    obtain ⟨tables, htables, rfl⟩ := hsame
    have htables := TableDraft.map_position_of_sameColumns htables
    exact ⟨hfits, by simp [htables], by simp [hi], by simp, by simp⟩
  | unsupported hs => exact ⟨hfits, by simp, by simp, by simp [hs], by simp⟩
  | enum => exact ⟨hfits, by simp, by simp, by simp, by simp⟩
  | skipped hmarker => exact ⟨hfits, by simp, by simp, by simp, by simpa using hmarker⟩

theorem ModelDraft.Adds.nil (m : ModelDraft) (first : Nat) : m.Adds [] first [] [] m :=
  ⟨.nil, by simp [Fate.positions], by simp [Fate.positions], by simp [Fate.positions], .nil⟩

/-- Statements one after another add what each of them adds. -/
theorem ModelDraft.Adds.append {statements statements' : List Json} {fates fates' : List Fate}
    {skipped skipped' : List Marker} (h : m.Adds statements first fates skipped m')
    (h' : m'.Adds statements' (first + statements.length) fates' skipped' m'') :
    m.Adds (statements ++ statements') first (fates ++ fates') (skipped ++ skipped') m'' := by
  have hlength : fates.length = statements.length := h.fits.length_eq
  rw [← hlength] at h'
  constructor
  · exact List.rel_append h.fits h'.fits
  · rw [h'.tables, h.tables, Fate.positions_append, List.append_assoc]
  · rw [h'.indexes, h.indexes, Fate.positions_append, List.append_assoc]
  · rw [h'.unsupported, h.unsupported, Fate.positions_append, List.append_assoc]
  · rw [Fate.positions_append, List.zipIdx_append, ← hlength]
    refine List.rel_append ?_ ?_
    · refine h.skipped.imp ?_
      rintro p marker ⟨s, hs, hmarker⟩
      exact ⟨s, List.mem_append_left _ hs, hmarker⟩
    · refine h'.skipped.imp ?_
      rintro p marker ⟨s, hs, hmarker⟩
      exact ⟨s, List.mem_append_right _ hs, hmarker⟩

theorem readStatements_adds {statements : List Json} {markers : List Marker}
    (h : (readStatements settings enums m first statements).Sets m' markers) :
    ∃ fates, m.Adds statements first fates (markers.filter Marker.isSkippedIndex) m' := by
  induction statements generalizing m first markers with
  | nil =>
    obtain ⟨rfl, rfl⟩ := Traced.pure_sets_iff.1 h
    exact ⟨[], .nil m first⟩
  | cons statement statements ih =>
    obtain ⟨m₁, marked, rest, hstatement, hrest, rfl⟩ := Traced.bind_sets_iff.1 h
    obtain ⟨fate, hfits, hstep⟩ := readStatement_step hstatement
    obtain ⟨fates, hadds⟩ := ih hrest
    rw [List.filter_append]
    exact ⟨fate :: fates, (hstep.adds hfits).append hadds⟩

end Drafts

/-! ### Models -/

/-- What became of the statements that a model was built from, one fate each. -/
structure Model.Accounts (m : Model) (statements : List Json) (fates : List Fate) : Prop where
  fits : List.Forall₂ Fate.Fits fates statements
  tables : m.tables.map Table.position = Fate.table.positions 0 fates
  indexes : m.indexes.map Index.position = Fate.index.positions 0 fates
  unsupported : m.unsupported.map UnsupportedStatement.position = Fate.unsupported.positions 0 fates
  enums : List.Forall₂ (fun p e => ∃ s, statements[p]? = some s ∧ e.DeclaredBy s p)
    (Fate.enum.positions 0 fates) m.enums
  skipped : List.Forall₂ (fun p marker => ∃ s, statements[p]? = some s ∧ marker.OfSkipped s)
    (Fate.skipped.positions 0 fates) (m.markers.filter Marker.isSkippedIndex)

theorem TableDraft.position_of_finish {d : TableDraft} {found : String → Json} {t : Table}
    (h : d.finish found = .ok t) : t.position = d.position := by
  unfold finish at h
  obtain ⟨columns, _, h⟩ := Read.bind_eq_ok_iff.1 h
  obtain ⟨name, _, h⟩ := Read.bind_eq_ok_iff.1 h
  cases h
  rfl

/-- What is read adds to an empty draft; references and the finish of the tables leave
everything in its place. -/
theorem Model.read_positions {settings : Settings} {enums : EnumRegistry} {statements : List Json}
    {tables : List Table} {draft : ModelDraft} {markers : List Marker}
    (h : (read settings enums statements).Sets (tables, draft) markers) :
    ∃ m fates, ModelDraft.Adds statements 0 fates (markers.filter Marker.isSkippedIndex) {} m ∧
      tables.map Table.position = m.tables.map TableDraft.position ∧
      draft.indexes = m.indexes ∧ draft.unsupported = m.unsupported := by
  unfold read at h
  obtain ⟨m, first, rest, hm, hrest, rfl⟩ := Traced.bind_sets_iff.1 h
  obtain ⟨⟨m₁, found⟩, second, last, hm₁, hlast, rfl⟩ := Traced.bind_sets_iff.1 hrest
  obtain ⟨tables', third, none, htables, hnone, rfl⟩ := Traced.bind_sets_iff.1 hlast
  obtain ⟨heq, rfl⟩ := Traced.pure_sets_iff.1 hnone
  cases heq
  obtain ⟨fates, hadds⟩ := readStatements_adds hm
  obtain ⟨hsecond, sameTables, hsame, rfl⟩ := findAllReferences_sets hm₁
  have hthird : third.filter Marker.isSkippedIndex = [] :=
    htables.filter_eq_nil (Traced.avoids_mapM fun _ => Traced.avoids_liftM _)
  refine ⟨m, fates, ?_, ?_, rfl, rfl⟩
  · simpa only [List.filter_append, hsecond, hthird, List.filter_nil, List.append_nil] using hadds
  · rw [← TableDraft.map_position_of_sameColumns hsame]
    exact map_eq_of_forall₂ (Traced.mapM_eq_ok_iff.1 htables.1)
      fun _ _ _ hfinish => TableDraft.position_of_finish hfinish

/-- **Every statement is found again, once and in its place.** -/
theorem Model.build_accounts {settings : Settings} {tree : Json} {m : Model}
    (h : (build settings tree).outcome = .ok m) :
    ∃ statements fates, ParseTree.statements tree = .ok statements ∧
      m.Accounts statements fates := by
  unfold build at h
  obtain ⟨statements, hstatements, h⟩ := Traced.bind_eq_ok_iff.1 h
  obtain ⟨enums, henums, h⟩ := Traced.bind_eq_ok_iff.1 h
  obtain ⟨⟨⟨tables, draft⟩, markers⟩, hread, h⟩ := Traced.bind_eq_ok_iff.1 h
  cases h
  obtain ⟨read, fates, hadds, htables, hindexes, hunsupported⟩ :=
    read_positions (Traced.collecting_eq_ok_iff.1 hread)
  obtain ⟨added, rfl, hadded⟩ := EnumRegistry.declaredFrom_spec henums
  rw [Fate.positions_enum hadds.fits] at hadded
  refine ⟨statements, fates, hstatements, hadds.fits, ?_, ?_, ?_, ?_, ?_⟩
  · rw [htables, hadds.tables]
    rfl
  · rw [hindexes, hadds.indexes]
    rfl
  · rw [hunsupported, hadds.unsupported]
    rfl
  · refine hadded.imp ?_
    rintro p e ⟨s, hs, he⟩
    exact ⟨s, List.mem_zipIdx_iff_getElem?.1 hs, he⟩
  · refine hadds.skipped.imp ?_
    rintro p marker ⟨s, hs, hmarker⟩
    exact ⟨s, List.mem_zipIdx_iff_getElem?.1 hs, hmarker⟩

end StrictDdl
