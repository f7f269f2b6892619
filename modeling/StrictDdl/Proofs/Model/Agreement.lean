import StrictDdl.Proofs.Model.Layout

/-! Models of statements that fit together.

Statements that are alike are read in the same way; where their positions differ, so do the
positions of what is read and the statements that faults and markers name, and nothing else
(`readStatement_agrees`). So the models of trees that are alike differ in nothing that can be told
apart (`Model.read_agrees`). -/
namespace StrictDdl

open Read Traced

variable {same : Prop} {Q : Nat → Nat → Prop}

/-! ### Drafts -/

/-- The same index of statements whose positions fit together. -/
inductive Index.Moved (Q : Nat → Nat → Prop) : Index → Index → Prop where
  | mk {i : Index} {position : Nat} : Q i.position position → Moved Q i { i with position }

/-- The same statement without a counterpart, at positions that fit together. -/
inductive UnsupportedStatement.Moved (Q : Nat → Nat → Prop) :
    UnsupportedStatement → UnsupportedStatement → Prop where
  | mk {s : UnsupportedStatement} {position : Nat} : Q s.position position →
    Moved Q s { s with position }

structure ModelDraft.Alike (Q : Nat → Nat → Prop) (m m' : ModelDraft) : Prop where
  tables : List.Forall₂ (TableDraft.Alike Q) m.tables m'.tables
  indexes : List.Forall₂ (Index.Moved Q) m.indexes m'.indexes
  unsupported : List.Forall₂ (UnsupportedStatement.Moved Q) m.unsupported m'.unsupported

namespace ModelDraft

variable {m m' : ModelDraft}

theorem Alike.table? (h : m.Alike Q m') (name : Json) :
    Option.Rel (TableDraft.Alike Q) (m.table? name) (m'.table? name) :=
  find?_rel_of_forall₂ h.tables fun t t' ht => by rw [ht.name_eq]

theorem Alike.isSome_table? (h : m.Alike Q m') (name : Json) :
    (m'.table? name).isSome = (m.table? name).isSome := by
  have htable := h.table? name
  generalize m.table? name = t at htable
  generalize m'.table? name = t' at htable
  cases htable <;> rfl

theorem markIn_forall₂ {tables tables' : List TableDraft}
    (h : List.Forall₂ (TableDraft.Alike Q) tables tables') (name : Json) (marker : Marker) :
    List.Forall₂ (TableDraft.Alike Q) (markIn name marker tables) (markIn name marker tables') := by
  induction h with
  | nil => exact .nil
  | cons ht htables ih =>
    rw [markIn, markIn, ht.name_eq]
    split
    · obtain ⟨hposition, hcolumns, hchecks⟩ := ht
      exact .cons (.mk hposition hcolumns hchecks) htables
    · exact .cons ht ih

theorem markTable_agrees (h : m.Alike Q m') (name : Json) (marker : Marker) :
    Traced.Agrees same (ModelDraft.Alike Q) (m.markTable name marker) (m'.markTable name marker) :=
  (agrees_mark fun _ => ⟨rfl, rfl⟩).bind_eq fun _ =>
    agrees_pure { h with tables := markIn_forall₂ h.tables name marker }

theorem passOver_agrees (h : m.Alike Q m') (label : String) {name name' : Json}
    (hname : name.Alike name') {position position' : Nat} (hposition : Q position position')
    (heq : same → position = position') :
    Traced.Agrees same (ModelDraft.Alike Q) (m.passOver label name position)
      (m'.passOver label name' position') := by
  unfold passOver
  rw [hname.lenientOptional_eq]
  refine (agrees_liftM (Lenient.toRead_plain _).agrees).bind_eq fun name => ?_
  refine (agrees_mark fun hsame => ⟨rfl, by rw [heq hsame]⟩).bind_eq fun _ => ?_
  exact agrees_pure { h with unsupported := List.rel_append h.unsupported (.cons (.mk hposition) .nil) }

end ModelDraft

/-! ### Names -/

theorem relationName?_rel {relation relation' : Json} (h : relation.Alike relation') :
    Option.Rel Json.Alike (relationName? relation) (relationName? relation') := by
  unfold relationName?
  rcases h.obj_or with ⟨ms, ms', rfl, rfl⟩ | ⟨hrelation, hrelation'⟩
  · have hrel := Json.Alike.getD ((Members.Alike.of_obj h).find "rel" (by decide)) h
    dsimp only
    generalize (Members.find? ms "rel").getD (.obj ms) = inner at hrel ⊢
    generalize (Members.find? ms' "rel").getD (.obj ms') = inner' at hrel ⊢
    rcases hrel.obj_or with ⟨inner, inner', rfl, rfl⟩ | ⟨hinner, hinner'⟩
    · -- The name of a relation is plain, so it is the same in objects that are alike.
      dsimp only
      rw [(Members.Alike.of_obj hrel).get_eq (by decide) (by decide)]
      exact Members.Alike.rel_refl _
    · split
      · exact absurd rfl (hinner _)
      · exact .none
  · split
    · exact absurd rfl (hrelation _)
    · exact .none

theorem firstName_rel {body body' : Members} (h : body.Alike body') {name? : Json → Option Json}
    (hname : ∀ j j', j.Alike j' → Option.Rel Json.Alike (name? j) (name? j'))
    {keys : List String} (hkeys : ∀ key ∈ keys, key ∉ ParseTree.hiddenNames) :
    Option.Rel Json.Alike (firstName body name? keys) (firstName body' name? keys) := by
  unfold firstName
  induction keys with
  | nil => exact .none
  | cons key keys ih =>
    obtain ⟨hkey, hkeys⟩ := List.forall_mem_cons.1 hkeys
    have hfirst := hname _ _ (h.get hkey)
    rw [List.findSome?_cons, List.findSome?_cons]
    generalize name? (body.get key) = first at hfirst
    generalize name? (body'.get key) = first' at hfirst
    cases hfirst with
    | none => exact ih hkeys
    | some hfirst => exact .some hfirst

theorem statementName_agrees {body body' : Members} (h : body.Alike body') :
    Read.Agrees True Json.Alike (statementName body) (statementName body') := by
  unfold statementName
  extract_lets plain? list?
  have hplain : Option.Rel Json.Alike
      (firstName body plain?
        ["trigname", "policy_name", "extname", "schemaname", "idxname", "rulename"])
      (firstName body' plain?
        ["trigname", "policy_name", "extname", "schemaname", "idxname", "rulename"]) := by
    refine firstName_rel h (fun j j' hj => ?_) (by decide)
    unfold plain?
    rw [hj.truthy_eq]
    split
    · exact .some hj
    · exact .none
  have hrelation : Option.Rel Json.Alike
      (firstName body relationName? ["relation", "view", "sequence", "typevar", "into"])
      (firstName body' relationName? ["relation", "view", "sequence", "typevar", "into"]) :=
    firstName_rel h (fun _ _ => relationName?_rel) (by decide)
  have hlist : Option.Rel Json.Alike
      (firstName body list? ["funcname", "domainname", "typeName"])
      (firstName body' list? ["funcname", "domainname", "typeName"]) := by
    refine firstName_rel h (fun j j' hj => ?_) (by decide)
    cases hj with
    | @scalar j hj => exact Members.Alike.rel_refl (list? j)
    | arr hitems =>
      cases hitems with
      | nil => exact .none
      | cons hitem hitems => exact .some (.arr (.cons hitem hitems))
    | obj _ _ _ | constant _ | text _ _ => exact .none
  generalize firstName body plain? _ = first at hplain ⊢
  generalize firstName body' plain? _ = first' at hplain ⊢
  generalize firstName body relationName? _ = second at hrelation ⊢
  generalize firstName body' relationName? _ = second' at hrelation ⊢
  generalize firstName body list? _ = third at hlist ⊢
  generalize firstName body' list? _ = third' at hlist ⊢
  cases hplain with
  | some hname => exact .ok hname
  | none =>
    cases hrelation with
    | some hname => exact .ok hname
    | none =>
      cases hlist with
      | none => exact .ok (.refl .null)
      | @some names names' hnames =>
        have hstrings := Node.strings_plain names
        dsimp only
        rw [Node.strings_eq hnames]
        generalize Node.strings names = texts at hstrings ⊢
        cases texts with
        | ok texts => exact (Node.join_plain _ _).agrees.bind_eq fun _ => .ok (.refl _)
        | error fault =>
          have hfault := hstrings fault rfl
          cases fault with
          | structural _ _ => exact .ok (.refl .null)
          | _ => exact .error hfault hfault fun _ => rfl

/-! ### Statements -/

variable (settings : Settings) (enums : EnumRegistry) {m m' : ModelDraft}
  {position position' : Nat} {body body' : Members}

theorem readTable_agrees (hm : m.Alike Q m') (hposition : Q position position')
    (heq : same → position = position') (h : body.Alike body') :
    Traced.Agrees same (ModelDraft.Alike Q) (readTable settings enums m position body)
      (readTable settings enums m' position' body') := by
  have hentity : same → Json.str (statementEntity position) = .str (statementEntity position') :=
    fun hsame => by rw [heq hsame]
  refine (agrees_liftM (Node.require_obj_agrees h (by decide) hentity)).bind
    fun relation relation' hrelation => ?_
  refine (agrees_liftM (Node.require_agrees_eq hrelation (by decide) (by decide) hentity)).bind_eq
    fun name => ?_
  refine .ite (by rw [hm.isSome_table? name]) ?_ ?_
  · exact agrees_ofRead (.error rfl rfl fun hsame => by rw [hentity hsame])
  · have ht : TableDraft.Alike Q { name, position } { name, position := position' } :=
      .mk hposition .nil .nil
    refine ((readParts_agrees settings enums ht h).collecting.weaken).bind fun draft draft' hdraft => ?_
    obtain ⟨table, markers⟩ := draft
    obtain ⟨table', markers'⟩ := draft'
    obtain ⟨⟨hposition, hcolumns, hchecks⟩, hmarkers⟩ := hdraft
    obtain rfl : markers = markers' := hmarkers trivial
    exact agrees_pure { hm with
      tables := List.rel_append hm.tables (.cons (.mk hposition hcolumns hchecks) .nil) }

theorem Lenient.each_text_eq {js js' : List Json} (h : List.Forall₂ Json.Alike js js')
    (position : Nat) : Lenient.each Lenient.text position js' = Lenient.each Lenient.text position js := by
  induction h generalizing position with
  | nil => rfl
  | cons hj _ ih => rw [Lenient.each, Lenient.each, hj.lenientText_eq, ih]

theorem Index.plainColumns?_agrees {params params' : List Json}
    (h : List.Forall₂ Json.Alike params params') :
    Read.Agrees same (Option.Rel (List.Forall₂ Json.Alike)) (plainColumns? params)
      (plainColumns? params') := by
  induction h with
  | nil => exact .ok (.some .nil)
  | cons hparam _ ih =>
    rw [plainColumns?, plainColumns?]
    refine (Node.bodyAs_agrees hparam "IndexElem").bind fun element element' helement => ?_
    have hexpr : (element.get "expr").Alike (element'.get "expr") := helement.get (by decide)
    have hname : (element.get "name").Alike (element'.get "name") := helement.get (by decide)
    refine .ite (by rw [hexpr.isNull_eq, hname.truthy_eq]) (.ok .none) ?_
    refine ih.bind fun columns columns' hcolumns => .ok ?_
    cases hcolumns with
    | none => exact .none
    | some hcolumns => exact .some (.cons hname hcolumns)

theorem Index.columnNames_eq {columns columns' : List Json}
    (h : List.Forall₂ Json.Alike columns columns') : columnNames columns' = columnNames columns := by
  induction h with
  | nil => rfl
  | cons hcolumn _ ih =>
    unfold columnNames at ih ⊢
    rw [List.mapM_cons, List.mapM_cons, hcolumn.text_eq, ih]

theorem Index.ofParts_agrees {name name' : Json} (hname : name.Alike name') (table : Json)
    {columns columns' : List Json} (hcolumns : List.Forall₂ Json.Alike columns columns')
    (unique : Bool) (hposition : Q position position') :
    Read.Agrees same (Index.Moved Q) (ofParts name table columns unique position)
      (ofParts name' table columns' unique position') := by
  unfold ofParts
  rw [hname.lenientText_eq, Lenient.each_text_eq hcolumns]
  generalize (Lenient.text name).under "name" = name
  generalize (Lenient.text table).under "table" = table
  generalize (Lenient.each Lenient.text 0 columns).under "columns" = columns
  cases name <;> cases table <;> cases columns
  · exact .ok (.mk hposition)
  all_goals exact .error rfl rfl fun _ => rfl

theorem readIndex_agrees (hm : m.Alike Q m') (hposition : Q position position')
    (heq : same → position = position') (h : body.Alike body') :
    Traced.Agrees same (ModelDraft.Alike Q) (readIndex settings m position body)
      (readIndex settings m' position' body') := by
  have hentity : same → Json.str (statementEntity position) = .str (statementEntity position') :=
    fun hsame => by rw [heq hsame]
  have hgiven : (body.get "idxname").Alike (body'.get "idxname") := h.get (by decide)
  have hwhere : (body.get "whereClause").Alike (body'.get "whereClause") := h.get (by decide)
  have hunique : (body.get "unique").Alike (body'.get "unique") := h.get (by decide)
  have hmethod : body'.get "accessMethod" = body.get "accessMethod" :=
    h.get_eq (by decide) (by decide)
  refine (agrees_liftM (Node.require_obj_agrees h (by decide) hentity)).bind
    fun relation relation' hrelation => ?_
  refine (agrees_liftM (Node.require_agrees_eq hrelation (by decide) (by decide) hentity)).bind_eq
    fun table => ?_
  refine (agrees_liftM (Node.require_obj_agrees h (by decide) hentity)).bind
    fun params params' hparams => ?_
  extract_lets given named method given' named' method'
  have hnamed : named.Alike named' := by
    unfold named named'
    rw [hgiven.truthy_eq]
    split
    · exact hgiven
    · exact .refl _
  refine (agrees_liftM hparams.elements).bind fun elements elements' helements => ?_
  refine (agrees_liftM (Index.plainColumns?_agrees helements)).bind fun columns? columns?' hcolumns => ?_
  cases hcolumns with
  | none => exact ModelDraft.passOver_agrees hm _ hnamed hposition heq
  | @some columns columns' hcolumns =>
    have hadd : ∀ (m m' : ModelDraft) (name name' : Json), m.Alike Q m' → name.Alike name' →
        Traced.Agrees same (ModelDraft.Alike Q)
          (do
            let index ← Index.ofParts name table columns (body.get "unique").truthy position
            return { m with indexes := m.indexes ++ [index] })
          (do
            let index ← Index.ofParts name' table columns' (body'.get "unique").truthy position'
            return { m' with indexes := m'.indexes ++ [index] }) := by
      intro m m' name name' hm hname
      rw [hunique.truthy_eq]
      exact (agrees_liftM (Index.ofParts_agrees hname table hcolumns _ hposition)).bind
        fun _ _ hindex => agrees_pure { hm with
          indexes := List.rel_append hm.indexes (.cons hindex .nil) }
    have hnaming : ∀ m m' : ModelDraft, m.Alike Q m' → Traced.Agrees same (ModelDraft.Alike Q)
        (do
          let name ← if given.truthy then pure given
            else do
              let names ← Index.columnNames columns
              pure (.str (Sql.indexName settings.indexStem table.display names))
          let index ← Index.ofParts name table columns (body.get "unique").truthy position
          return { m with indexes := m.indexes ++ [index] })
        (do
          let name ← if given'.truthy then pure given'
            else do
              let names ← Index.columnNames columns'
              pure (.str (Sql.indexName settings.indexStem table.display names))
          let index ← Index.ofParts name table columns' (body'.get "unique").truthy position'
          return { m' with indexes := m'.indexes ++ [index] }) := by
      intro m m' hm
      refine .ite (by rw [hgiven.truthy_eq]) (hadd m m' _ _ hm hgiven) ?_
      rw [Index.columnNames_eq hcolumns]
      exact (agrees_liftM (fails_mapM Json.text_plain _).agrees).bind_eq fun _ =>
        hadd m m' _ _ hm (.refl _)
    have hlabel : Read.Agrees same Eq (Marker.readEntity named) (Marker.readEntity named') := by
      refine (Lenient.toRead_plain _).agrees_of_eq ?_
      rw [Marker.readEntity, hnamed.lenientText_eq]
    refine .ite (by rw [hwhere.isNull_eq]) (ModelDraft.passOver_agrees hm _ hnamed hposition heq) ?_
    refine .ite ?_ ?_ (.ite ?_ ?_ (hnaming m m' hm))
    · rw [← Option.not_isSome, ← Option.not_isSome, hm.isSome_table?]
    · exact (agrees_liftM hlabel).bind_eq fun _ =>
        (agrees_mark fun _ => ⟨rfl, rfl⟩).bind_eq fun _ => agrees_pure hm
    · unfold method method'
      rw [hmethod]
    · unfold method method'
      rw [hmethod]
      exact (agrees_liftM hlabel).bind_eq fun _ =>
        (ModelDraft.markTable_agrees hm _ _).bind fun m m' hm => hnaming m m' hm

/-- **A statement is read in the same way in every layout.** -/
theorem readStatement_agrees (hm : m.Alike Q m') (hposition : Q position position')
    (heq : same → position = position') {statement statement' : Json}
    (h : statement.Alike statement') :
    Traced.Agrees same (ModelDraft.Alike Q) (readStatement settings enums m position statement)
      (readStatement settings enums m' position' statement') := by
  unfold readStatement
  refine (agrees_liftM (Node.unwrap_agrees h)).bind fun node node' hnode => ?_
  obtain ⟨kind, body⟩ := node
  obtain ⟨kind', body'⟩ := node'
  obtain ⟨hkind, hbody⟩ := hnode
  obtain rfl : kind' = kind := hkind
  dsimp only
  split
  · exact readTable_agrees settings enums hm hposition heq hbody
  · exact readIndex_agrees settings hm hposition heq hbody
  · exact (agrees_record fun hsame => ⟨rfl, by rw [heq hsame]⟩).bind_eq fun _ => agrees_pure hm
  · exact (agrees_liftM (statementName_agrees hbody).weaken).bind fun name name' hname =>
      ModelDraft.passOver_agrees hm _ hname hposition heq

/-! ### References -/

theorem keyNames_eq {columns columns' : List ColumnDraft}
    (h : List.Forall₂ ColumnDraft.Alike columns columns') :
    (columns'.filter fun c => c.isPrimaryKey).map ColumnDraft.name =
      (columns.filter fun c => c.isPrimaryKey).map ColumnDraft.name := by
  induction h with
  | nil => rfl
  | cons hc _ ih =>
    rw [List.filter_cons, List.filter_cons, hc.isPrimaryKey_eq]
    split
    · rw [List.map_cons, List.map_cons, hc.name_eq, ih]
    · exact ih

theorem TableDraft.Alike.primaryKey_eq {t t' : TableDraft} (h : t.Alike Q t') :
    t'.primaryKey = t.primaryKey := by
  obtain ⟨_, hcolumns, _⟩ := h
  unfold primaryKey
  dsimp only
  rw [keyNames_eq hcolumns]

theorem findReference_eq_of_alike (hm : m.Alike Q m') {c c' : ColumnDraft} (hc : c.Alike c') :
    findReference m' c' = findReference m c := by
  have htable := fun name => hm.table? name
  obtain ⟨_, _⟩ := hc
  unfold findReference
  dsimp only
  split
  · rfl
  · rename_i draft _
    split
    · rfl
    · specialize htable draft.table
      generalize m.table? draft.table = target at htable
      generalize m'.table? draft.table = target' at htable
      cases htable with
      | none => rfl
      | some ht =>
        dsimp only
        rw [ht.primaryKey_eq]

theorem findReferences_agrees (table : Json) (found : FoundColumns) (hm : m.Alike Q m')
    {columns columns' : List ColumnDraft} (h : List.Forall₂ ColumnDraft.Alike columns columns') :
    Traced.Agrees same (fun a b => a.1.Alike Q b.1 ∧ a.2 = b.2)
      (findReferences table m found columns) (findReferences table m' found columns') := by
  induction h generalizing m m' found with
  | nil => exact agrees_pure ⟨hm, rfl⟩
  | cons hc _ ih =>
    have hentity := hc.entity_eq
    rw [findReferences, findReferences, findReference_eq_of_alike hm hc, hentity]
    split
    · exact ih found hm
    · exact ih _ hm
    · exact (ModelDraft.markTable_agrees hm _ _).bind fun _ _ hm => ih found hm

theorem findAllReferences_agrees (found : FoundColumns) (hm : m.Alike Q m')
    {tables tables' : List TableDraft} (h : List.Forall₂ (TableDraft.Alike Q) tables tables') :
    Traced.Agrees same (fun a b => a.1.Alike Q b.1 ∧ a.2 = b.2)
      (findAllReferences m found tables) (findAllReferences m' found tables') := by
  induction h generalizing m m' found with
  | nil => exact agrees_pure ⟨hm, rfl⟩
  | cons ht _ ih =>
    rw [findAllReferences, findAllReferences, ht.name_eq]
    obtain ⟨_, hcolumns, _⟩ := ht
    refine (findReferences_agrees _ found hm hcolumns).bind fun found found' hfound => ?_
    obtain ⟨m, found⟩ := found
    obtain ⟨m', found'⟩ := found'
    obtain ⟨hm, hfound⟩ := hfound
    obtain rfl : found = found' := hfound
    exact ih found hm

/-! ### Models -/

inductive Column.Alike : Column → Column → Prop where
  | mk {c : Column} {default : Option Default} {checks : List CheckConstraint} :
    Option.Rel Default.Alike c.default default →
    List.Forall₂ CheckConstraint.Alike c.checks checks → Alike c { c with default, checks }

inductive Table.Alike (Q : Nat → Nat → Prop) : Table → Table → Prop where
  | mk {t : Table} {position : Nat} {columns : List Column} {checks : List CheckConstraint} :
    Q t.position position → List.Forall₂ Column.Alike t.columns columns →
    List.Forall₂ CheckConstraint.Alike t.checks checks →
    Alike Q t { t with position, columns, checks }

theorem Column.Alike.default {c c' : Column} (h : c.Alike c') :
    Option.Rel Default.Alike c.default c'.default := by
  obtain ⟨hdefault, _⟩ := h
  exact hdefault

theorem Column.Alike.checks {c c' : Column} (h : c.Alike c') :
    List.Forall₂ CheckConstraint.Alike c.checks c'.checks := by
  obtain ⟨_, hchecks⟩ := h
  exact hchecks

theorem Table.Alike.columns {t t' : Table} (h : t.Alike Q t') :
    List.Forall₂ Column.Alike t.columns t'.columns := by
  obtain ⟨_, hcolumns, _⟩ := h
  exact hcolumns

theorem Table.Alike.checks {t t' : Table} (h : t.Alike Q t') :
    List.Forall₂ CheckConstraint.Alike t.checks t'.checks := by
  obtain ⟨_, _, hchecks⟩ := h
  exact hchecks

/-- Models that differ in the expressions behind checks and defaults, which nobody can tell apart,
and in positions, which fit together. -/
structure Model.Alike (Q : Nat → Nat → Prop) (m m' : Model) : Prop where
  enums : m'.enums = m.enums
  tables : List.Forall₂ (Table.Alike Q) m.tables m'.tables
  indexes : List.Forall₂ (Index.Moved Q) m.indexes m'.indexes
  unsupported : List.Forall₂ (UnsupportedStatement.Moved Q) m.unsupported m'.unsupported

theorem ColumnDraft.finish_agrees {c c' : ColumnDraft} (h : c.Alike c') (found : Json) :
    Read.Agrees same Column.Alike (c.finish found) (c'.finish found) := by
  obtain ⟨hdefault, hchecks⟩ := h
  have hkey : (c.finishedKey found).Plain := by
    unfold finishedKey
    split
    · exact fails_ok _
    · exact .ite (Fails.map (Lenient.toRead_plain _) _) (fails_ok _)
  exact hkey.agrees.bind_eq fun _ => (Lenient.toRead_plain _).agrees.bind_eq fun _ =>
    .ok (.mk hdefault hchecks)

theorem TableDraft.finish_agrees {t t' : TableDraft} (h : t.Alike Q t') (found : String → Json) :
    Read.Agrees same (Table.Alike Q) (t.finish found) (t'.finish found) := by
  obtain ⟨hposition, hcolumns, hchecks⟩ := h
  have hfinish : ∀ c c' : ColumnDraft, c.Alike c' →
      Read.Agrees same Column.Alike (c.finish (found c.entity)) (c'.finish (found c'.entity)) := by
    intro c c' hc
    rw [hc.entity_eq]
    exact ColumnDraft.finish_agrees hc _
  exact (Read.agrees_mapM hcolumns hfinish).bind fun _ _ hfinished =>
    (Lenient.toRead_plain _).agrees.bind_eq fun _ => .ok (.mk hposition hfinished hchecks)

/-- **What is read of statements that fit together is the same model.** -/
theorem Model.read_agrees {statements statements' : List Json}
    (h : Traced.Agrees same (ModelDraft.Alike Q) (readStatements settings enums {} 0 statements)
      (readStatements settings enums {} 0 statements')) :
    Traced.Agrees same (fun a b => List.Forall₂ (Table.Alike Q) a.1 b.1 ∧ a.2.Alike Q b.2)
      (read settings enums statements) (read settings enums statements') := by
  refine h.bind fun m m' hm => ?_
  refine (findAllReferences_agrees [] hm hm.tables).bind fun found found' hfound => ?_
  obtain ⟨m, found⟩ := found
  obtain ⟨m', found'⟩ := found'
  obtain ⟨hm, hfound⟩ := hfound
  obtain rfl : found = found' := hfound
  exact (Traced.agrees_mapM hm.tables fun t t' ht =>
    agrees_liftM (TableDraft.finish_agrees ht _)).bind fun _ _ htables => agrees_pure ⟨htables, hm⟩

end StrictDdl
