import StrictDdl.Model.Build
import StrictDdl.Proofs.Model.Constraint

/-! What becomes of a statement.

Reading a statement adds one table, one index or one statement without a counterpart to the
draft of a model, or it adds nothing: an enumeration is registered already, and an index on
an unknown table is skipped with a marker (`ModelDraft.Step`, `readStatement_step`). What
holds of drafts is shown from these steps and not from the ways statements are read. -/
namespace StrictDdl

/-! ### Markers of a table -/

section Markers

open Traced

variable {settings : Settings} {enums : EnumRegistry} {table : TableDraft} {body : Members}

theorem readColumn_avoids : (readColumn settings enums table body).Avoids Marker.isUnresolved := by
  unfold readColumn
  refine (avoids_liftM _).bind fun name => .ite (avoids_ofRead _) ?_
  refine (avoids_liftM _).bind fun type => (avoids_liftM _).bind fun target => ?_
  refine .optional (fun h => (avoids_mark rfl).bind fun _ => h) ?_
  exact (avoids_liftM _).bind fun constraints =>
    (avoids_foldlM columnConstraint_avoids _).bind fun _ =>
      (avoids_record rfl).bind fun _ => avoids_pure _

theorem readElements_avoids (aside : List Members) (elements : List Json) :
    (readElements settings enums table aside elements).Avoids Marker.isUnresolved := by
  induction elements generalizing table aside with
  | nil => exact avoids_pure _
  | cons element elements ih =>
    unfold readElements
    refine (avoids_liftM _).bind fun node => .ite (ih _) ?_
    have helement : (readElement settings enums table node.1 node.2).Avoids Marker.isUnresolved :=
      .ite readColumn_avoids
        ((avoids_liftM _).bind fun _ => (avoids_mark rfl).bind fun _ => avoids_pure _)
    exact helement.bind fun _ => ih _

theorem markSerial_avoids {q : Marker → Bool}
    (hq : ∀ entity message, q (.unsupported "AUTO INCREMENT" entity message) = false) :
    (markSerial table).Avoids q :=
  avoids_forM fun _ => .ite (avoids_mark (hq ..)) (avoids_pure _)

theorem readParts_avoids : (readParts settings enums table body).Avoids Marker.isUnresolved := by
  unfold readParts
  refine .optional
    (fun h => (avoids_liftM _).bind fun _ => (avoids_mark rfl).bind fun _ => h) ?_
  refine .optional (fun h => (avoids_liftM _).bind fun _ => (avoids_liftM _).bind fun _ =>
    (avoids_mark rfl).bind fun _ => h) ?_
  exact (avoids_liftM _).bind fun elements => (readElements_avoids _ _).bind fun _ =>
    (avoids_foldlM (fun _ _ => tableConstraint_avoids) _).bind fun _ =>
      (markSerial_avoids fun _ _ => rfl).bind fun _ => (avoids_record rfl).bind fun _ => avoids_pure _

theorem passOver_avoids {q : Marker → Bool} {label : String}
    (hq : ∀ entity, q (.unsupported label entity "") = false) (m : ModelDraft) (name : Json)
    (position : Nat) : (m.passOver label name position).Avoids q :=
  (avoids_liftM _).bind fun _ => (avoids_mark (hq _)).bind fun _ => avoids_pure _

theorem readIndex_avoids {q : Marker → Bool}
    (hexpression : ∀ entity message, q (.unsupported "EXPRESSION INDEX" entity message) = false)
    (hpartial : ∀ entity message, q (.unsupported "PARTIAL INDEX" entity message) = false)
    (hskipped : ∀ entity message, q (.unresolved "INDEX" entity message) = false)
    (hmethod : ∀ method entity message,
      q (.unsupported ("USING " ++ method) entity message) = false)
    (m : ModelDraft) (position : Nat) : (readIndex settings m position body).Avoids q := by
  unfold readIndex
  refine (avoids_liftM _).bind fun relation => (avoids_liftM _).bind fun table =>
    (avoids_liftM _).bind fun params => (avoids_liftM _).bind fun elements =>
      (avoids_liftM _).bind fun columns? => ?_
  cases columns? with
  | none => exact passOver_avoids (fun _ => hexpression ..) ..
  | some columns =>
    refine .ite (passOver_avoids (fun _ => hpartial ..) ..) (.ite ?_ ?_)
    · exact (avoids_liftM _).bind fun _ => (avoids_mark (hskipped ..)).bind fun _ => avoids_pure _
    · have hadd : ∀ m' : ModelDraft, (do
          let name ← if (body.get "idxname").truthy then pure (body.get "idxname")
            else do
              let names ← Index.columnNames columns
              pure (.str (Sql.indexName settings.indexStem table.display names))
          let index ← Index.ofParts name table columns (body.get "unique").truthy position
          return { m' with indexes := m'.indexes ++ [index] } : Traced ModelDraft).Avoids q := by
        intro m'
        refine .ite ?_ ?_
        · exact (avoids_pure _).bind fun _ => (avoids_liftM _).bind fun _ => avoids_pure _
        · exact (avoids_liftM _).bind fun _ => (avoids_pure _).bind fun _ =>
            (avoids_liftM _).bind fun _ => avoids_pure _
      refine .ite ?_ ?_
      · exact (avoids_liftM _).bind fun _ =>
          ((avoids_mark (hmethod ..)).bind fun _ => avoids_pure _).bind hadd
      · exact (avoids_pure _).bind hadd

end Markers

/-! ### Enumerations -/

/-- The statement at this position declares the enumeration. -/
def EnumType.DeclaredBy (statement : Json) (position : Nat) (e : EnumType) : Prop :=
  ∃ earlier, ofStatement earlier position statement = .ok e

/-- Every statement that declares an enumeration registers one, in order. -/
theorem EnumRegistry.declaredFrom_spec {enums enums' : EnumRegistry} {first : Nat}
    {statements : List Json} (h : (declaredFrom enums first statements).outcome = .ok enums') :
    ∃ added, enums' = enums ++ added ∧
      List.Forall₂ (fun p e => ∃ s, (s, p) ∈ statements.zipIdx first ∧ e.DeclaredBy s p)
        (statements.findIdxs (Node.isA "CreateEnumStmt") first) added := by
  induction statements generalizing enums first with
  | nil =>
    cases h
    exact ⟨[], (List.append_nil _).symm, .nil⟩
  | cons statement statements ih =>
    -- What is said about the later statements holds among all of them.
    have hlater : ∀ {positions : List Nat} {added : List EnumType},
        List.Forall₂ (fun p e => ∃ s, (s, p) ∈ statements.zipIdx (first + 1) ∧ e.DeclaredBy s p)
          positions added →
        List.Forall₂ (fun p e => ∃ s, (s, p) ∈ (statement :: statements).zipIdx first ∧
          e.DeclaredBy s p) positions added := by
      intro positions added hadded
      refine hadded.imp ?_
      rintro p e ⟨s, hs, he⟩
      exact ⟨s, List.mem_cons_of_mem _ hs, he⟩
    rw [List.findIdxs_cons]
    unfold declaredFrom at h
    split at h
    · rename_i hisA
      obtain ⟨e, he, h⟩ := Traced.bind_eq_ok_iff.1 h
      obtain ⟨_, _, h⟩ := Traced.bind_eq_ok_iff.1 h
      obtain ⟨added, rfl, hadded⟩ := ih h
      refine ⟨e :: added, by rw [List.append_assoc]; rfl, ?_⟩
      rw [if_pos hisA]
      exact .cons ⟨statement, List.mem_cons_self .., enums, he⟩ (hlater hadded)
    · rename_i hisA
      obtain ⟨added, rfl, hadded⟩ := ih h
      refine ⟨added, rfl, ?_⟩
      rw [if_neg hisA]
      exact hlater hadded

/-! ### Steps -/

/-- What becomes of a statement. -/
inductive Fate where
  | table
  | index
  /-- It has no counterpart. -/
  | unsupported
  /-- It declares an enumeration. -/
  | enum
  /-- It asks for an index on an unknown table. -/
  | skipped
  deriving DecidableEq

namespace Fate

/-- The kinds of statements that can meet this fate. -/
def Fits (fate : Fate) (statement : Json) : Prop :=
  match fate with
  | .table => Node.isA "CreateStmt" statement
  | .index => Node.isA "IndexStmt" statement
  | .unsupported => ¬ Node.isA "CreateStmt" statement ∧ ¬ Node.isA "CreateEnumStmt" statement
  | .enum => Node.isA "CreateEnumStmt" statement
  | .skipped => Node.isA "IndexStmt" statement

end Fate

namespace Marker

/-- Whether the marker is for an index that was skipped. -/
def isSkippedIndex (m : Marker) : Bool := m.isUnresolved && m.construct = "INDEX"

/-- The marker for the index that the statement asks for. It names the index or, if that has
no name, its table. -/
def OfSkipped (statement : Json) (marker : Marker) : Prop :=
  ∃ (body relation : Members) (name : String), Node.body statement = .ok body ∧
    body.get "relation" = .obj relation ∧
    .str name = (if (body.get "idxname").truthy then body.get "idxname"
      else relation.get "relname") ∧
    marker = .unresolved "INDEX" name
      ("index on unknown table '" ++ (relation.get "relname").display ++ "' skipped")

theorem isUnresolved_of_isSkippedIndex (m : Marker) (h : m.isSkippedIndex = true) :
    m.isUnresolved = true :=
  (Bool.and_eq_true_iff.1 h).1

end Marker

/-- The drafts differ in the checks and markers of their tables at most. -/
def ModelDraft.SameTables (m m' : ModelDraft) : Prop :=
  ∃ tables, List.Forall₂ TableDraft.SameColumns m.tables tables ∧ m' = { m with tables }

/-- What reading a statement can do to the draft of a model, and the markers it sets for
skipped indexes. -/
inductive ModelDraft.Step (settings : Settings) (enums : EnumRegistry) (position : Nat)
    (statement : Json) (m : ModelDraft) : ModelDraft → List Marker → Fate → Prop where
  | table {name : Json} {body : Members} {t : TableDraft} {lost : List Marker} :
    m.table? name = none → (readParts settings enums { name, position } body).outcome = .ok t →
    Step settings enums position statement m
      { m with tables := m.tables ++ [{ t with markers := lost }] } [] .table
  | index {m₁ : ModelDraft} {i : Index} : m.SameTables m₁ → i.position = position →
    Step settings enums position statement m { m₁ with indexes := m₁.indexes ++ [i] } [] .index
  | unsupported {s : UnsupportedStatement} : s.position = position →
    Step settings enums position statement m
      { m with unsupported := m.unsupported ++ [s] } [] .unsupported
  | enum : Step settings enums position statement m m [] .enum
  | skipped {marker : Marker} : marker.OfSkipped statement →
    Step settings enums position statement m m [marker] .skipped

section Steps

open Traced

variable {settings : Settings} {enums : EnumRegistry} {m m' : ModelDraft} {position : Nat}
  {statement : Json} {body : Members} {markers : List Marker}

theorem Node.isA_unique {j : Json} {tag tag' : String} (h : Node.isA tag j) (h' : Node.isA tag' j) :
    tag = tag' := by
  unfold isA at h h'
  split at h
  · simp_all
  · cases h

theorem Node.unwrap_eq_ok {kind : String} (h : Node.unwrap statement = .ok (kind, body)) :
    Node.body statement = .ok body ∧ ∀ tag, Node.isA tag statement = (kind = tag : Bool) := by
  unfold unwrap at h
  obtain ⟨kind', hkind, h⟩ := Read.bind_eq_ok_iff.1 h
  obtain ⟨body', hbody, h⟩ := Read.bind_eq_ok_iff.1 h
  cases h
  refine ⟨hbody, fun tag => ?_⟩
  unfold Node.kind at hkind
  split at hkind
  · cases hkind
    rfl
  · cases hkind

theorem ModelDraft.markIn_sameColumns (name : Json) (marker : Marker) (tables : List TableDraft) :
    List.Forall₂ TableDraft.SameColumns tables (markIn name marker tables) := by
  induction tables with
  | nil => exact .nil
  | cons t tables ih =>
    unfold markIn
    split
    · exact .cons (.refl t) (List.forall₂_same.2 fun t _ => .refl t)
    · exact .cons (.refl t) ih

theorem ModelDraft.SameTables.refl (m : ModelDraft) : m.SameTables m :=
  ⟨m.tables, List.forall₂_same.2 fun t _ => .refl t, rfl⟩

theorem ModelDraft.SameTables.trans {m m' m'' : ModelDraft} (h : m.SameTables m')
    (h' : m'.SameTables m'') : m.SameTables m'' := by
  obtain ⟨before, hbefore, rfl⟩ := h
  obtain ⟨after, hafter, rfl⟩ := h'
  refine ⟨after, ?_, rfl⟩
  exact forall₂_comp hbefore hafter fun _ _ _ _ _ hsame hsame' => hsame.trans hsame'

theorem ModelDraft.markTable_sets {name : Json} {marker : Marker}
    (h : (m.markTable name marker).Sets m' markers) : markers = [marker] ∧ m.SameTables m' := by
  obtain ⟨_, _, _, hmark, hrest, rfl⟩ := bind_sets_iff.1 h
  obtain ⟨rfl, rfl⟩ := pure_sets_iff.1 hrest
  obtain rfl := hmark.2
  exact ⟨rfl, _, markIn_sameColumns name marker m.tables, rfl⟩

/-- A statement that is passed over is kept by its position and marked as what it is called. -/
theorem passOver_sets {label : String} {name : Json}
    (h : (m.passOver label name position).Sets m' markers) : ∃ entity s,
      s.position = position ∧ m' = { m with unsupported := m.unsupported ++ [s] } ∧
        markers = [.unsupported label entity ""] := by
  obtain ⟨name, _, h⟩ := liftM_bind_sets_iff.1 h
  obtain ⟨_, _, _, hmark, hrest, rfl⟩ := bind_sets_iff.1 h
  obtain ⟨rfl, rfl⟩ := pure_sets_iff.1 hrest
  obtain rfl := hmark.2
  exact ⟨_, ⟨label, name, position⟩, rfl, rfl, rfl⟩

theorem passOver_step {label : String} {name : Json}
    (h : (m.passOver label name position).Sets m' markers) :
    m.Step settings enums position statement m' (markers.filter Marker.isSkippedIndex)
      .unsupported := by
  obtain ⟨entity, s, hs, rfl, rfl⟩ := passOver_sets h
  exact .unsupported hs

/-- A table that is read has a name of its own, and it keeps the markers that are set on the way. -/
theorem readTable_sets (h : (readTable settings enums m position body).Sets m' markers) :
    ∃ t, m.table? (ParseTree.relationName body) = none ∧
      (readParts settings enums { name := ParseTree.relationName body, position } body).Sets t
        markers ∧
      m' = { m with tables := m.tables ++ [{ t with markers }] } := by
  unfold readTable at h
  obtain ⟨relation, hrelation, h⟩ := liftM_bind_sets_iff.1 h
  obtain ⟨_, ⟨⟩, rfl⟩ := Node.require_eq_ok hrelation
  obtain ⟨name, hname, h⟩ := liftM_bind_sets_iff.1 h
  obtain ⟨members, hmembers, rfl⟩ := Node.require_eq_ok hname
  have hname : ParseTree.relationName body = Members.get members "relname" := by
    simp only [ParseTree.relationName, hmembers]
  rw [hname]
  split at h
  · cases h.1
  · rename_i hfresh
    obtain ⟨⟨t, collected⟩, first, rest, hparts, hrest, rfl⟩ := bind_sets_iff.1 h
    obtain ⟨rfl, rfl⟩ := pure_sets_iff.1 hrest
    obtain ⟨hparts, rfl⟩ := collecting_sets_iff.1 hparts
    rw [List.append_nil]
    exact ⟨t, Option.not_isSome_iff_eq_none.1 hfresh, hparts, rfl⟩

theorem readTable_step (h : (readTable settings enums m position body).Sets m' markers) :
    m.Step settings enums position statement m' (markers.filter Marker.isSkippedIndex) .table := by
  obtain ⟨t, hfresh, hparts, rfl⟩ := readTable_sets h
  rw [hparts.filter_eq_nil (readParts_avoids.mono Marker.isUnresolved_of_isSkippedIndex)]
  exact .table hfresh hparts.1

theorem Index.ofParts_position {name table : Json} {columns : List Json} {unique : Bool} {i : Index}
    (h : Index.ofParts name table columns unique position = .ok i) : i.position = position := by
  unfold ofParts at h
  obtain ⟨f, _, hf, _, rfl⟩ := Lenient.and_eq_ok_iff.1 (Lenient.toRead_eq_ok_iff.1 h)
  obtain ⟨g, _, hg, _, rfl⟩ := Lenient.and_eq_ok_iff.1 hf
  obtain ⟨_, _, rfl⟩ := Lenient.map_eq_ok_iff.1 hg
  rfl

/-- The last part of reading an index, in a draft that may have got a marker before. -/
theorem addIndex_sets {given table : Json} {columns : List Json} {unique : Bool}
    (h : (do
      let name ← if given.truthy then pure given
        else do
          let names ← Index.columnNames columns
          pure (.str (Sql.indexName settings.indexStem table.display names))
      let index ← Index.ofParts name table columns unique position
      return { m with indexes := m.indexes ++ [index] } : Traced ModelDraft).Sets m' markers) :
    markers = [] ∧ ∃ i : Index, i.position = position ∧
      m' = { m with indexes := m.indexes ++ [i] } := by
  have hadd : ∀ name, (do
      let index ← Index.ofParts name table columns unique position
      return { m with indexes := m.indexes ++ [index] } : Traced ModelDraft).Sets m' markers →
      markers = [] ∧ ∃ i : Index, i.position = position ∧
        m' = { m with indexes := m.indexes ++ [i] } := by
    intro name h
    obtain ⟨i, hi, h⟩ := liftM_bind_sets_iff.1 h
    obtain ⟨rfl, rfl⟩ := pure_sets_iff.1 h
    exact ⟨rfl, i, Index.ofParts_position hi, rfl⟩
  split at h
  · rw [pure_bind] at h
    exact hadd _ h
  · obtain ⟨names, _, h⟩ := liftM_bind_sets_iff.1 h
    rw [pure_bind] at h
    exact hadd _ h

theorem readIndex_step (hstatement : Node.isA "IndexStmt" statement)
    (hbody : Node.body statement = .ok body)
    (h : (readIndex settings m position body).Sets m' markers) :
    ∃ fate : Fate, fate.Fits statement ∧
      m.Step settings enums position statement m' (markers.filter Marker.isSkippedIndex) fate := by
  have hother : Fate.unsupported.Fits statement :=
    ⟨fun h => absurd (Node.isA_unique hstatement h) (by decide),
      fun h => absurd (Node.isA_unique hstatement h) (by decide)⟩
  unfold readIndex at h
  obtain ⟨relation, hrelation, h⟩ := liftM_bind_sets_iff.1 h
  obtain ⟨table, htable, h⟩ := liftM_bind_sets_iff.1 h
  obtain ⟨params, _, h⟩ := liftM_bind_sets_iff.1 h
  extract_lets given named method at h
  obtain ⟨elements, _, h⟩ := liftM_bind_sets_iff.1 h
  obtain ⟨columns?, _, h⟩ := liftM_bind_sets_iff.1 h
  cases columns? with
  | none => exact ⟨.unsupported, hother, passOver_step h⟩
  | some columns =>
    dsimp only at h
    split at h
    · exact ⟨.unsupported, hother, passOver_step h⟩
    · split at h
      · obtain ⟨entity, hentity, h⟩ := liftM_bind_sets_iff.1 h
        obtain ⟨_, _, _, hmark, hrest, rfl⟩ := bind_sets_iff.1 h
        obtain ⟨rfl, rfl⟩ := pure_sets_iff.1 hrest
        obtain rfl := hmark.2
        refine ⟨.skipped, hstatement, .skipped ?_⟩
        obtain ⟨_, ⟨⟩, rfl⟩ := Node.require_eq_ok hrelation
        obtain ⟨relation, hobj, rfl⟩ := Node.require_eq_ok htable
        refine ⟨body, relation, entity, hbody, hobj, ?_, rfl⟩
        exact (Lenient.text_eq_ok_iff.1
          (Lenient.under_eq_ok_iff.1 (Lenient.toRead_eq_ok_iff.1 hentity))).symm
      · split at h
        · obtain ⟨entity, _, h⟩ := liftM_bind_sets_iff.1 h
          obtain ⟨m₁, first, rest, hmark, hrest, rfl⟩ := bind_sets_iff.1 h
          obtain ⟨rfl, hsame⟩ := ModelDraft.markTable_sets hmark
          obtain ⟨rfl, i, hi, rfl⟩ := addIndex_sets hrest
          exact ⟨.index, hstatement, .index hsame hi⟩
        · rw [pure_bind] at h
          obtain ⟨rfl, i, hi, rfl⟩ := addIndex_sets h
          exact ⟨.index, hstatement, .index (.refl m) hi⟩

/-- The kinds of statements that are read in a way of their own. -/
theorem StatementKind.kind_of_lookup {kind : String} {k : StatementKind}
    (h : codes.lookup kind = some k) : (k = .table → kind = "CreateStmt") ∧
      (k = .index → kind = "IndexStmt") ∧ (k = .enum → kind = "CreateEnumStmt") := by
  have hall : ∀ e ∈ codes, (e.2 = .table → e.1 = "CreateStmt") ∧
      (e.2 = .index → e.1 = "IndexStmt") ∧ (e.2 = .enum → e.1 = "CreateEnumStmt") := by decide
  obtain ⟨before, after, hcodes, _⟩ := List.lookup_eq_some_iff.1 h
  exact hall (kind, k) (by simp [hcodes])

/-- **What reading a statement can do.** -/
theorem readStatement_step
    (h : (readStatement settings enums m position statement).Sets m' markers) :
    ∃ fate : Fate, fate.Fits statement ∧
      m.Step settings enums position statement m' (markers.filter Marker.isSkippedIndex) fate := by
  unfold readStatement at h
  obtain ⟨⟨kind, body⟩, hunwrap, h⟩ := liftM_bind_sets_iff.1 h
  obtain ⟨hbody, hisA⟩ := Node.unwrap_eq_ok hunwrap
  dsimp only at h
  split at h
  · rename_i hkind
    refine ⟨.table, ?_, readTable_step h⟩
    rw [Fate.Fits, hisA]
    exact decide_eq_true ((StatementKind.kind_of_lookup hkind).1 rfl)
  · rename_i hkind
    refine readIndex_step ?_ hbody h
    rw [hisA]
    exact decide_eq_true ((StatementKind.kind_of_lookup hkind).2.1 rfl)
  · rename_i hkind
    obtain ⟨_, _, _, hrecord, hrest, rfl⟩ := bind_sets_iff.1 h
    obtain ⟨rfl, rfl⟩ := pure_sets_iff.1 hrest
    obtain rfl := hrecord.2
    refine ⟨.enum, ?_, .enum⟩
    rw [Fate.Fits, hisA]
    exact decide_eq_true ((StatementKind.kind_of_lookup hkind).2.2 rfl)
  · rename_i htable hindex henum
    obtain ⟨name, _, h⟩ := liftM_bind_sets_iff.1 h
    refine ⟨.unsupported, ?_, passOver_step h⟩
    simp only [Fate.Fits, hisA, decide_eq_true_eq]
    constructor
    · rintro rfl
      exact htable rfl
    · rintro rfl
      exact henum rfl

end Steps

end StrictDdl
