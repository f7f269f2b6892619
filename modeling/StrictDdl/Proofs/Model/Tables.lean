import Mathlib.Data.List.Perm.Subperm
import StrictDdl.Proofs.Model.Reading

/-! Where the tables and indexes of a model come from.

Every statement that creates a table adds one, with everything in it accounted for, and later
statements do no more than set markers on it (`ModelDraft.Grows`, `readStatements_reads`). An
index that a statement asks for has the name that is given, or one made of its table and
columns. The markers of a table are among those of the model, each once. -/
namespace StrictDdl

/-! ### Markers on tables -/

namespace TableDraft

/-- More markers are set on the table. -/
def Marked (t t' : TableDraft) : Prop := ∃ more, t' = { t with markers := t.markers ++ more }

theorem Marked.refl (t : TableDraft) : t.Marked t := ⟨[], by rw [List.append_nil]⟩

theorem Marked.trans {t t' t'' : TableDraft} (h : t.Marked t') (h' : t'.Marked t'') :
    t.Marked t'' := by
  obtain ⟨more, rfl⟩ := h
  obtain ⟨most, rfl⟩ := h'
  exact ⟨more ++ most, by rw [List.append_assoc]⟩

/-- The table is that of the source, and its composite references are among its markers. -/
def ReadFrom (source : TableSource) (t : TableDraft) : Prop := t.parts.Reads source t.markers

theorem ReadFrom.marked {source : TableSource} {t t' : TableDraft} (h : t.ReadFrom source)
    (hmarked : t.Marked t') : t'.ReadFrom source := by
  obtain ⟨more, rfl⟩ := hmarked
  exact TableParts.Reads.mono h (List.sublist_append_left ..)

end TableDraft

namespace ModelDraft

/-- The markers of all tables. -/
def tableMarkers (m : ModelDraft) : List Marker := m.tables.flatMap TableDraft.markers

/-- Some of these markers are set on tables. -/
structure Marked (m m' : ModelDraft) (markers : List Marker) : Prop where
  tables : List.Forall₂ TableDraft.Marked m.tables m'.tables
  indexes : m'.indexes = m.indexes
  among : m'.tableMarkers.Subperm (m.tableMarkers ++ markers)

theorem Marked.refl (m : ModelDraft) : m.Marked m [] :=
  ⟨List.forall₂_same.2 fun t _ => .refl t, rfl, by rw [List.append_nil]⟩

theorem Marked.trans {m m' m'' : ModelDraft} {markers markers' : List Marker}
    (h : m.Marked m' markers) (h' : m'.Marked m'' markers') :
    m.Marked m'' (markers ++ markers') := by
  refine ⟨?_, h'.indexes.trans h.indexes, ?_⟩
  · exact forall₂_comp h.tables h'.tables fun _ _ _ _ _ hfirst hsecond => hfirst.trans hsecond
  · rw [← List.append_assoc]
    exact h'.among.trans (h.among.append (List.Subperm.refl _))

theorem markIn_marked (name : Json) (marker : Marker) (tables : List TableDraft) :
    List.Forall₂ TableDraft.Marked tables (markIn name marker tables) ∧
      ((markIn name marker tables).flatMap TableDraft.markers).Subperm
        (tables.flatMap TableDraft.markers ++ [marker]) := by
  induction tables with
  | nil => exact ⟨.nil, List.nil_subperm⟩
  | cons t tables ih =>
    obtain ⟨hmarked, hamong⟩ := ih
    unfold markIn
    split
    · refine ⟨.cons ⟨[marker], rfl⟩ (List.forall₂_same.2 fun t _ => .refl t), ?_⟩
      rw [List.flatMap_cons, List.flatMap_cons, List.append_assoc, List.append_assoc]
      exact ((List.Perm.refl _).append List.perm_append_comm).subperm
    · refine ⟨.cons (.refl t) hmarked, ?_⟩
      rw [List.flatMap_cons, List.flatMap_cons, List.append_assoc]
      exact (List.Subperm.refl _).append hamong

theorem marked_of_markTable {m m' : ModelDraft} {name : Json} {marker : Marker}
    {markers : List Marker} (h : (m.markTable name marker).Sets m' markers) :
    m.Marked m' markers ∧ markers = [marker] := by
  obtain ⟨_, _, _, hmark, hrest, rfl⟩ := Traced.bind_sets_iff.1 h
  obtain ⟨rfl, rfl⟩ := Traced.pure_sets_iff.1 hrest
  obtain rfl := hmark.2
  obtain ⟨htables, hamong⟩ := markIn_marked name marker m.tables
  exact ⟨⟨htables, rfl, hamong⟩, rfl⟩

end ModelDraft

/-! ### Statements -/

/-- The index is the one that is asked for, under the name that it is given or one made of its table
and columns. -/
structure Index.ReadFrom (settings : Settings) (source : IndexSource) (i : Index) : Prop where
  name : i.name = source.given.getD (Sql.indexName settings.indexStem i.table i.columns)
  table : source.table = .str i.table
  columns : source.columns = i.columns.map .str

/-- What reading a statement can do to tables and indexes, and the markers that it sets. -/
inductive ModelDraft.Grows (settings : Settings) (position : Nat) (statement : Json)
    (m : ModelDraft) : ModelDraft → List Marker → Prop where
  | table {t : TableDraft} : Node.isA "CreateStmt" statement = true →
    t.ReadFrom (.ofStatement statement) →
    Grows settings position statement m { m with tables := m.tables ++ [t] } t.markers
  | index {m₁ : ModelDraft} {markers : List Marker} {i : Index} :
    Node.isA "CreateStmt" statement = false → m.Marked m₁ markers → i.position = position →
    i.ReadFrom settings (.ofStatement statement) →
    Grows settings position statement m { m₁ with indexes := m₁.indexes ++ [i] } markers
  | other {m' : ModelDraft} {markers : List Marker} : Node.isA "CreateStmt" statement = false →
    m'.tables = m.tables → m'.indexes = m.indexes → Grows settings position statement m m' markers

section Statements

open Traced

variable {settings : Settings} {enums : EnumRegistry} {m m' : ModelDraft} {position : Nat}
  {statement : Json} {body : Members} {markers : List Marker}

theorem readTable_grows (hstatement : Node.isA "CreateStmt" statement = true)
    (hbody : Node.content statement = body)
    (h : (readTable settings enums m position body).Sets m' markers) :
    m.Grows settings position statement m' markers := by
  subst hbody
  obtain ⟨t, _, hparts, rfl⟩ := readTable_sets h
  have hreads := readParts_reads hparts
  exact .table (t := { t with markers }) hstatement hreads

theorem Index.ofParts_eq_ok {name table : Json} {columns : List Json} {unique : Bool} {i : Index}
    (h : Index.ofParts name table columns unique position = .ok i) : name = .str i.name ∧
      table = .str i.table ∧ columns = i.columns.map .str ∧ i.position = position := by
  unfold ofParts at h
  obtain ⟨f, _, hf, hcolumns, rfl⟩ := Lenient.and_eq_ok_iff.1 (Lenient.toRead_eq_ok_iff.1 h)
  obtain ⟨g, _, hg, htable, rfl⟩ := Lenient.and_eq_ok_iff.1 hf
  obtain ⟨_, hname, rfl⟩ := Lenient.map_eq_ok_iff.1 hg
  exact ⟨Lenient.text_eq_ok_iff.1 (Lenient.under_eq_ok_iff.1 hname),
    Lenient.text_eq_ok_iff.1 (Lenient.under_eq_ok_iff.1 htable),
    Lenient.eq_map_str_of_each_text (Lenient.under_eq_ok_iff.1 hcolumns), rfl⟩

theorem Index.columnNames_map (names : List String) : columnNames (names.map .str) = .ok names := by
  rw [columnNames, Read.mapM_eq_ok_iff, List.forall₂_map_left_iff, List.forall₂_same]
  exact fun _ _ => rfl

/-- The columns of an index without expressions are named by its parameters. -/
theorem Index.plainColumns?_eq_ok {params columns : List Json}
    (h : plainColumns? params = .ok (some columns)) :
    columns = params.map fun param => (Node.content param).get "name" := by
  induction params generalizing columns with
  | nil =>
    cases h
    rfl
  | cons param params ih =>
    unfold plainColumns? at h
    obtain ⟨element, helement, h⟩ := Read.bind_eq_ok_iff.1 h
    dsimp only at h
    split at h
    · cases h
    · obtain ⟨columns?, hcolumns, h⟩ := Read.bind_eq_ok_iff.1 h
      obtain ⟨others, hothers, rfl⟩ := Option.map_eq_some_iff.1 (Except.ok.inj h)
      have hrest := ih (hcolumns.trans (congrArg Except.ok hothers))
      rw [List.map_cons, Node.content_of_bodyAs helement, hrest]

/-- The last part of reading an index, in a draft that may have got a marker before. -/
theorem addIndex_grows {m₁ : ModelDraft} {first : List Marker} {table : Json} {columns : List Json}
    {unique : Bool} (hstatement : Node.isA "CreateStmt" statement = false)
    (hmarked : m.Marked m₁ first) (htable : (IndexSource.ofStatement statement).table = table)
    (hcolumns : (IndexSource.ofStatement statement).columns = columns)
    (h : (do
      let name ← if ((Node.content statement).get "idxname").truthy then
          pure ((Node.content statement).get "idxname")
        else do
          let names ← Index.columnNames columns
          pure (.str (Sql.indexName settings.indexStem table.display names))
      let index ← Index.ofParts name table columns unique position
      return { m₁ with indexes := m₁.indexes ++ [index] } : Traced ModelDraft).Sets m' markers) :
    m.Grows settings position statement m' (first ++ markers) := by
  split at h
  · rename_i hgiven
    rw [pure_bind] at h
    obtain ⟨i, hi, h⟩ := liftM_bind_sets_iff.1 h
    obtain ⟨rfl, rfl⟩ := pure_sets_iff.1 h
    obtain ⟨hname, htext, htexts, hposition⟩ := Index.ofParts_eq_ok hi
    rw [List.append_nil]
    refine .index hstatement hmarked hposition ⟨?_, htable.trans htext, hcolumns.trans htexts⟩
    simp only [IndexSource.ofStatement, hgiven, if_true]
    rw [hname]
    rfl
  · rename_i hgiven
    obtain ⟨names, hnames, h⟩ := liftM_bind_sets_iff.1 h
    rw [pure_bind] at h
    obtain ⟨i, hi, h⟩ := liftM_bind_sets_iff.1 h
    obtain ⟨rfl, rfl⟩ := pure_sets_iff.1 h
    obtain ⟨hname, htext, htexts, hposition⟩ := Index.ofParts_eq_ok hi
    rw [htexts, Index.columnNames_map] at hnames
    cases hnames
    rw [htext] at hname
    rw [List.append_nil]
    refine .index hstatement hmarked hposition ⟨?_, htable.trans htext, hcolumns.trans htexts⟩
    simp only [IndexSource.ofStatement, hgiven]
    exact (Json.str.inj hname).symm

theorem passOver_grows {label : String} {name : Json}
    (hstatement : Node.isA "CreateStmt" statement = false)
    (h : (m.passOver label name position).Sets m' markers) :
    m.Grows settings position statement m' markers := by
  obtain ⟨_, _, _, rfl, rfl⟩ := passOver_sets h
  exact .other hstatement rfl rfl

theorem readIndex_grows (hstatement : Node.isA "CreateStmt" statement = false)
    (hbody : Node.content statement = body)
    (h : (readIndex settings m position body).Sets m' markers) :
    m.Grows settings position statement m' markers := by
  subst hbody
  unfold readIndex at h
  obtain ⟨relation, hrelation, h⟩ := liftM_bind_sets_iff.1 h
  obtain ⟨_, ⟨⟩, hrelation⟩ := Node.require_eq_ok hrelation
  obtain ⟨table, htable, h⟩ := liftM_bind_sets_iff.1 h
  obtain ⟨members, hmembers, htable⟩ := Node.require_eq_ok htable
  obtain ⟨params, hparams, h⟩ := liftM_bind_sets_iff.1 h
  obtain ⟨_, ⟨⟩, hparams⟩ := Node.require_eq_ok hparams
  extract_lets given named method at h
  obtain ⟨elements, helements, h⟩ := liftM_bind_sets_iff.1 h
  obtain ⟨columns?, hcolumns, h⟩ := liftM_bind_sets_iff.1 h
  have htable : (IndexSource.ofStatement statement).table = table := by
    rw [IndexSource.ofStatement, ParseTree.relationName, ← hrelation, hmembers, htable]
  cases columns? with
  | none => exact passOver_grows hstatement h
  | some columns =>
    have hcolumns : (IndexSource.ofStatement statement).columns = columns := by
      rw [IndexSource.ofStatement, ← hparams, Json.listed_of_elements helements,
        Index.plainColumns?_eq_ok hcolumns]
    dsimp only at h
    split at h
    · exact passOver_grows hstatement h
    · split at h
      · obtain ⟨entity, _, h⟩ := liftM_bind_sets_iff.1 h
        obtain ⟨_, _, _, _, hrest, rfl⟩ := bind_sets_iff.1 h
        obtain ⟨rfl, rfl⟩ := pure_sets_iff.1 hrest
        exact .other hstatement rfl rfl
      · split at h
        · obtain ⟨entity, _, h⟩ := liftM_bind_sets_iff.1 h
          obtain ⟨m₁, first, rest, hmark, hrest, rfl⟩ := bind_sets_iff.1 h
          exact addIndex_grows hstatement (ModelDraft.marked_of_markTable hmark).1 htable hcolumns
            hrest
        · rw [pure_bind] at h
          exact addIndex_grows hstatement (.refl m) htable hcolumns h

/-- **What reading a statement does to tables and indexes.** -/
theorem readStatement_grows
    (h : (readStatement settings enums m position statement).Sets m' markers) :
    m.Grows settings position statement m' markers := by
  unfold readStatement at h
  obtain ⟨⟨kind, body⟩, hunwrap, h⟩ := liftM_bind_sets_iff.1 h
  have hbody := Node.content_of_unwrap hunwrap
  have hisA := (Node.unwrap_eq_ok hunwrap).2 "CreateStmt"
  dsimp only at h
  split at h
  · rename_i hkind
    refine readTable_grows ?_ hbody h
    rw [hisA]
    exact decide_eq_true ((StatementKind.kind_of_lookup hkind).1 rfl)
  · rename_i hkind
    refine readIndex_grows ?_ hbody h
    rw [hisA, (StatementKind.kind_of_lookup hkind).2.1 rfl]
    rfl
  · rename_i hkind
    obtain ⟨_, _, _, _, hrest, rfl⟩ := bind_sets_iff.1 h
    obtain ⟨rfl, rfl⟩ := pure_sets_iff.1 hrest
    refine .other ?_ rfl rfl
    rw [hisA, (StatementKind.kind_of_lookup hkind).2.2 rfl]
    rfl
  · rename_i htable _ _
    obtain ⟨name, _, h⟩ := liftM_bind_sets_iff.1 h
    refine passOver_grows ?_ h
    rw [hisA, decide_eq_false]
    rintro rfl
    exact htable rfl

/-- What has been read of the statements so far: their tables and indexes, and the markers of the
tables among all markers. -/
structure ModelDraft.ReadFrom (settings : Settings) (m : ModelDraft) (statements : List Json)
    (markers : List Marker) : Prop where
  tables : List.Forall₂ TableDraft.ReadFrom (ParseTree.tables statements) m.tables
  indexes : ∀ i ∈ m.indexes, ∃ statement, statements[i.position]? = some statement ∧
    i.ReadFrom settings (.ofStatement statement)
  among : m.tableMarkers.Subperm markers

/-- One more statement. -/
theorem ModelDraft.ReadFrom.grows {statements : List Json} {more : List Marker}
    (hm : m.ReadFrom settings statements markers)
    (h : m.Grows settings statements.length statement m' more) :
    m'.ReadFrom settings (statements ++ [statement]) (markers ++ more) := by
  have hindexes : ∀ i ∈ m.indexes, ∃ s, (statements ++ [statement])[i.position]? = some s ∧
      i.ReadFrom settings (.ofStatement s) := by
    intro i hi
    obtain ⟨s, hs, hread⟩ := hm.indexes i hi
    have hlt := (List.getElem?_eq_some_iff.1 hs).1
    exact ⟨s, by rwa [List.getElem?_append_left hlt], hread⟩
  have htables : ParseTree.tables (statements ++ [statement]) =
      ParseTree.tables statements ++ ParseTree.tables [statement] := by
    rw [ParseTree.tables, List.filter_append, List.map_append]
    rfl
  cases h with
  | @table t hstatement ht =>
    refine ⟨?_, hindexes, ?_⟩
    · rw [htables]
      refine List.rel_append hm.tables ?_
      simpa [ParseTree.tables, hstatement] using ht
    · rw [tableMarkers, List.flatMap_append, List.flatMap_singleton]
      exact hm.among.append (List.Subperm.refl _)
  | @index m₁ _ i hstatement hmarked hposition hread =>
    refine ⟨?_, ?_, ?_⟩
    · rw [htables]
      simp only [ParseTree.tables, List.filter_singleton, hstatement, cond_false, List.map_nil,
        List.append_nil]
      exact forall₂_comp hm.tables hmarked.tables fun _ _ _ _ _ ht hmore => ht.marked hmore
    · intro j hj
      rcases List.mem_append.1 hj with hj | hj
      · exact hindexes j (hmarked.indexes ▸ hj)
      · obtain rfl := List.mem_singleton.1 hj
        exact ⟨statement, by rw [hposition]; simp, hread⟩
    · exact hmarked.among.trans (hm.among.append (List.Subperm.refl _))
  | other hstatement hsame hindex =>
    refine ⟨?_, hindex ▸ hindexes, ?_⟩
    · rw [htables, hsame]
      simpa [ParseTree.tables, hstatement] using hm.tables
    · rw [tableMarkers, hsame]
      exact hm.among.trans (List.sublist_append_left ..).subperm

/-- **Every statement is accounted for.** -/
theorem readStatements_reads {before statements : List Json} {more : List Marker}
    (hm : m.ReadFrom settings before markers)
    (h : (readStatements settings enums m before.length statements).Sets m' more) :
    m'.ReadFrom settings (before ++ statements) (markers ++ more) := by
  induction statements generalizing m before markers more with
  | nil =>
    obtain ⟨rfl, rfl⟩ := pure_sets_iff.1 h
    simpa using hm
  | cons statement statements ih =>
    obtain ⟨m₁, first, rest, hfirst, hrest, rfl⟩ := bind_sets_iff.1 h
    have hlength : (before ++ [statement]).length = before.length + 1 := by simp
    have hreads := ih (hm.grows (readStatement_grows hfirst)) (by rwa [hlength])
    rwa [List.append_assoc, List.append_assoc] at hreads

theorem ModelDraft.ReadFrom.empty (settings : Settings) : ReadFrom settings {} [] [] :=
  ⟨.nil, by simp, List.Subperm.refl _⟩

theorem ModelDraft.ReadFrom.marked {statements : List Json} {more : List Marker}
    (hm : m.ReadFrom settings statements markers) (h : m.Marked m' more) :
    m'.ReadFrom settings statements (markers ++ more) := by
  refine ⟨?_, h.indexes ▸ hm.indexes, h.among.trans (hm.among.append (List.Subperm.refl _))⟩
  exact forall₂_comp hm.tables h.tables fun _ _ _ _ _ ht hmore => ht.marked hmore

/-- Looking up references sets markers on tables and does nothing else. -/
theorem findReferences_marked {table : Json} {found found' : FoundColumns}
    {columns : List ColumnDraft}
    (h : (findReferences table m found columns).Sets (m', found') markers) :
    m.Marked m' markers := by
  induction columns generalizing m found markers with
  | nil =>
    obtain ⟨heq, rfl⟩ := pure_sets_iff.1 h
    cases heq
    exact .refl _
  | cons c columns ih =>
    unfold findReferences at h
    split at h
    · exact ih h
    · exact ih h
    · obtain ⟨m₁, first, rest, hmark, hrest, rfl⟩ := bind_sets_iff.1 h
      exact (ModelDraft.marked_of_markTable hmark).1.trans (ih hrest)

theorem findAllReferences_marked {found found' : FoundColumns} {tables : List TableDraft}
    (h : (findAllReferences m found tables).Sets (m', found') markers) : m.Marked m' markers := by
  induction tables generalizing m found markers with
  | nil =>
    obtain ⟨heq, rfl⟩ := pure_sets_iff.1 h
    cases heq
    exact .refl _
  | cons t tables ih =>
    obtain ⟨⟨m₁, found₁⟩, first, rest, hfirst, hrest, rfl⟩ := bind_sets_iff.1 h
    exact (findReferences_marked hfirst).trans (ih hrest)

end Statements

/-! ### The finished model -/

namespace Table

/-- All checks of a table, each with the name of the column or table that it stands with. -/
def allChecks (t : Table) : List (String × CheckConstraint) :=
  t.columns.flatMap (fun c => c.checks.map (Model.ColumnKey.label (t.name, c.name), ·)) ++
    t.checks.map (t.name, ·)

/-- The table is that of the source, and its composite references are among its markers. -/
structure ReadFrom (source : TableSource) (t : Table) : Prop where
  name : source.name = .str t.name
  columns : source.columns = t.columns.map fun c => .str c.name
  /-- Each check is kept once or lost. -/
  checks : ∃ readings, List.Forall₂ CheckReading.Of
      (source.constraints.filter ConstraintSource.isCheck) readings ∧
    t.allChecks.Perm (readings.filterMap CheckReading.kept?)
  /-- A reference is of several columns together or of one column of the table. -/
  referencing : ∀ k ∈ source.constraints, k.isReference = true → k.isComposite = true ∨
    ∃ c ∈ t.columns, ∃ d, k.referenceOn? c.name = some d
  /-- Each composite reference is marked by a marker of its own. -/
  composites : ∃ lost, List.Forall₂ (Marker.LossOf (LetterCase.upper ForeignKey.composite) source.name)
      (source.constraints.filter ConstraintSource.isComposite) lost ∧ lost.Sublist t.markers

end Table

/-- The column is the finished one of the draft. -/
structure ColumnDraft.Finishes (found : Json) (c : ColumnDraft) (c' : Column) : Prop where
  name : c.name = .str c'.name
  nonempty : c'.name ≠ ""
  checks : c'.checks = c.checks
  isPrimaryKey : c'.isPrimaryKey = c.isPrimaryKey
  foreignKey : c.finishedKey found = .ok c'.foreignKey

theorem ColumnDraft.finishes {c : ColumnDraft} {found : Json} {c' : Column}
    (h : c.finish found = .ok c') : c.Finishes found c' := by
  unfold finish at h
  obtain ⟨key, hkey, h⟩ := Read.bind_eq_ok_iff.1 h
  obtain ⟨name, hname, h⟩ := Read.bind_eq_ok_iff.1 h
  cases h
  obtain ⟨hname, hne⟩ := Lenient.fullText_eq_ok_iff.1
    (Lenient.under_eq_ok_iff.1 (Lenient.toRead_eq_ok_iff.1 hname))
  exact ⟨hname, hne, rfl, rfl, hkey⟩

/-- The table is the finished one of the draft. -/
structure TableDraft.Finishes (found : String → Json) (t : TableDraft) (t' : Table) : Prop where
  name : t.name = .str t'.name
  columns : List.Forall₂ (fun c c' => c.Finishes (found c.entity) c') t.columns t'.columns
  constraints : t'.constraints = t.constraints
  checks : t'.checks = t.checks
  markers : t'.markers = t.markers

theorem TableDraft.finishes {t : TableDraft} {found : String → Json} {t' : Table}
    (h : t.finish found = .ok t') : t.Finishes found t' := by
  unfold finish at h
  obtain ⟨columns, hcolumns, h⟩ := Read.bind_eq_ok_iff.1 h
  obtain ⟨name, hname, h⟩ := Read.bind_eq_ok_iff.1 h
  cases h
  have hname := Lenient.fullText_eq_ok_iff.1
    (Lenient.under_eq_ok_iff.1 (Lenient.toRead_eq_ok_iff.1 hname))
  refine ⟨hname.1, (Read.mapM_eq_ok_iff.1 hcolumns).imp fun _ _ hc => ?_, rfl, rfl, rfl⟩
  exact ColumnDraft.finishes hc

namespace TableDraft.ReadFrom

variable {source : TableSource} {t : TableDraft} {t' : Table} {found : String → Json}

/-- A column of a finished table comes with the name that markers use. -/
theorem entity_eq (h : t.ReadFrom source) (hname : t.name = .str t'.name) {c : ColumnDraft}
    (hc : c ∈ t.columns) {c' : Column} (hcname : c.name = .str c'.name) :
    c.entity = Model.ColumnKey.label (t'.name, c'.name) := by
  have hparts : c.parts ∈ t.parts.columns := List.mem_map_of_mem hc
  have hsource : source.name = .str t'.name := h.name.symm.trans hname
  have hentity : c.entity = source.label c.name := TableParts.Reads.entity_eq h hparts
  rw [hentity, hcname, TableSource.label, hsource]
  rfl

theorem allChecks_eq (h : t.ReadFrom source) (hfinishes : t.Finishes found t') :
    t'.allChecks = t.parts.allChecks := by
  have hcolumns : t'.columns.map (fun c =>
        c.checks.map (Model.ColumnKey.label (t'.name, c.name), ·)) =
      t.columns.map fun c => c.checks.map (c.entity, ·) := by
    refine map_eq_of_forall₂ hfinishes.columns fun c hc c' hcc' => ?_
    rw [hcc'.checks, h.entity_eq hfinishes.name hc hcc'.name]
  rw [Table.allChecks, TableParts.allChecks, TableDraft.parts, List.flatMap_map, List.flatMap_def,
    hcolumns, hfinishes.checks, hfinishes.name]
  rfl

theorem finish (h : t.ReadFrom source) (hfinishes : t.Finishes found t') : t'.ReadFrom source := by
  have hname : t.parts.name = source.name := h.name
  have hchecks := h.checks
  have hcomposites := h.composites
  rw [← h.allChecks_eq hfinishes] at hchecks
  rw [hname, ← hfinishes.markers] at hcomposites
  have hcolumns : source.columns = t'.columns.map fun c => .str c.name := by
    rw [← h.columns, TableDraft.parts, List.map_map]
    exact (map_eq_of_forall₂ hfinishes.columns fun c _ c' hcc' => hcc'.name.symm).symm
  refine ⟨hname.symm.trans hfinishes.name, hcolumns, hchecks, ?_, hcomposites⟩
  intro k hk hreference
  cases hsingle : k.isComposite with
  | true => exact .inl rfl
  | false =>
    obtain ⟨column, hcolumn, hfound⟩ := h.referencing k hk hreference hsingle
    rw [hcolumns] at hcolumn
    obtain ⟨c, hc, rfl⟩ := List.mem_map.1 hcolumn
    obtain ⟨d, hd⟩ : ∃ d, k.reference? = some d := by
      rw [ConstraintSource.isComposite, hreference, Bool.true_and] at hsingle
      exact Option.isSome_iff_exists.1 (Option.isNone_eq_false_iff.1 hsingle)
    refine .inr ⟨c, hc, d, ?_⟩
    have hreferencing := Json.str?_eq_some_iff.2 ((hfound c.name).1 rfl)
    simp [ConstraintSource.referenceOn?, hreference, hreferencing, hd]

end TableDraft.ReadFrom

namespace Model

/-- The tables and indexes of the model are those of the statements, and the markers of the tables
are among its own, each once. -/
structure ReadFrom (settings : Settings) (m : Model) (statements : List Json) : Prop where
  tables : List.Forall₂ Table.ReadFrom (ParseTree.tables statements) m.tables
  indexes : ∀ i ∈ m.indexes, ∃ statement, statements[i.position]? = some statement ∧
    i.ReadFrom settings (.ofStatement statement)
  among : (m.tables.flatMap Table.markers).Subperm m.markers

/-- The drafts that a model was finished from. -/
structure Drafts (settings : Settings) (m : Model) (statements : List Json) where
  read : ModelDraft
  resolved : ModelDraft
  found : FoundColumns
  lost : List Marker
  unresolved : List Marker
  isRead : (readStatements settings m.enums {} 0 statements).Sets read lost
  isResolved : (findAllReferences read [] read.tables).Sets (resolved, found) unresolved
  tables : List.Forall₂ (TableDraft.Finishes found.get) resolved.tables m.tables
  indexes : m.indexes = resolved.indexes
  markers : m.markers = lost ++ unresolved

variable {settings : Settings} {tree : Json} {m : Model}

theorem exists_drafts (h : (build settings tree).outcome = .ok m) :
    ∃ statements, ParseTree.statements tree = .ok statements ∧
      Nonempty (m.Drafts settings statements) := by
  unfold build at h
  obtain ⟨statements, hstatements, h⟩ := Traced.bind_eq_ok_iff.1 h
  obtain ⟨enums, _, h⟩ := Traced.bind_eq_ok_iff.1 h
  obtain ⟨⟨⟨tables, draft⟩, markers⟩, hread, h⟩ := Traced.bind_eq_ok_iff.1 h
  cases h
  have hread := Traced.collecting_eq_ok_iff.1 hread
  unfold read at hread
  obtain ⟨read, lost, rest, hlost, hrest, rfl⟩ := Traced.bind_sets_iff.1 hread
  obtain ⟨⟨resolved, found⟩, unresolved, last, hunresolved, hlast, rfl⟩ :=
    Traced.bind_sets_iff.1 hrest
  obtain ⟨finished, third, none, htables, hnone, rfl⟩ := Traced.bind_sets_iff.1 hlast
  obtain ⟨heq, rfl⟩ := Traced.pure_sets_iff.1 hnone
  cases heq
  have hthird : third = [] := by
    have havoids : (draft.tables.mapM fun t => (t.finish found.get : Traced Table)).Avoids
        (fun _ => true) := Traced.avoids_mapM fun _ => Traced.avoids_liftM _
    simpa using htables.filter_eq_nil havoids
  refine ⟨statements, hstatements, ⟨{
    read, resolved := draft, found, lost, unresolved
    isRead := hlost
    isResolved := hunresolved
    tables := (Traced.mapM_eq_ok_iff.1 htables.1).imp fun _ _ ht => TableDraft.finishes ht
    indexes := rfl
    markers := by simp [hthird] }⟩⟩

namespace Drafts

variable {statements : List Json} (d : m.Drafts settings statements)
include d

theorem read_readFrom : d.read.ReadFrom settings statements d.lost :=
  readStatements_reads (ModelDraft.ReadFrom.empty settings) d.isRead

/-- **Everything that a model was built from is accounted for.** -/
theorem readFrom : m.ReadFrom settings statements := by
  have hresolved := d.read_readFrom.marked (findAllReferences_marked d.isResolved)
  refine ⟨?_, ?_, ?_⟩
  · exact forall₂_comp hresolved.tables d.tables fun _ _ _ _ _ ht hfinishes => ht.finish hfinishes
  · rw [d.indexes]
    exact hresolved.indexes
  · have hmarkers : m.tables.map Table.markers = d.resolved.tables.map TableDraft.markers :=
      map_eq_of_forall₂ d.tables fun _ _ _ hfinishes => hfinishes.markers
    rw [List.flatMap_def, hmarkers, ← List.flatMap_def, d.markers]
    exact hresolved.among

end Drafts

end Model

end StrictDdl
