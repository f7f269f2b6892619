import StrictDdl.Ddl.OfModel
import StrictDdl.Document.OfModel
import StrictDdl.Proofs.Model.Agreement
import StrictDdl.Proofs.Walk

/-! What is written of models that are alike.

Where positions fit together they are in the same order, so the scripts of models that are alike are
the same, and so are their schema documents, with the same markers (`Model.script_agrees`,
`Model.document_agrees`). A check or a default that has no form in the target has become a
marker. -/
namespace StrictDdl

open Read Traced

variable {Q : Nat → Nat → Prop}

/-- Lists that fit together fit together when they are sorted by orders that agree. -/
theorem forall₂_mergeSort {α β : Type} {R : α → β → Prop} {le : α → α → Bool} {le' : β → β → Bool}
    {as : List α} {bs : List β} (h : List.Forall₂ R as bs)
    (hle : ∀ a b a' b', R a b → R a' b' → le a a' = le' b b') :
    List.Forall₂ R (as.mergeSort le) (bs.mergeSort le') := by
  -- Both are views of one list of pairs, which is sorted once.
  have hlength := h.length_eq
  have hpairs : ∀ p ∈ as.zip bs, R p.1 p.2 := by
    intro p hp
    exact (List.forall₂_iff_zip.1 h).2 hp
  have hfst : (as.zip bs).map Prod.fst = as := List.map_fst_zip (Nat.le_of_eq hlength)
  have hsnd : (as.zip bs).map Prod.snd = bs := List.map_snd_zip (Nat.le_of_eq hlength.symm)
  have has : as.mergeSort le = ((as.zip bs).mergeSort fun p q => le p.1 q.1).map Prod.fst := by
    rw [List.map_mergeSort (f := Prod.fst) (s := le) fun _ _ _ _ => rfl, hfst]
  have hbs : bs.mergeSort le' = ((as.zip bs).mergeSort fun p q => le p.1 q.1).map Prod.snd := by
    rw [List.map_mergeSort (fun p hp q hq => hle _ _ _ _ (hpairs p hp) (hpairs q hq)), hsnd]
  rw [has, hbs, List.forall₂_map_left_iff, List.forall₂_map_right_iff, List.forall₂_same]
  intro p hp
  exact hpairs p ((List.mergeSort_perm ..).mem_iff.1 hp)

/-! ### Scripts -/

namespace Column

variable {c c' : Column}

theorem defaultClause_agrees (entity : String) (h : c.Alike c') :
    Traced.Agrees True Eq (c.defaultClause entity) (c'.defaultClause entity) := by
  obtain ⟨hdefault, _⟩ := h
  unfold defaultClause
  dsimp only
  generalize c.default = default at hdefault
  cases hdefault with
  | none => exact agrees_pure rfl
  | some hdefault =>
    cases hdefault with
    | literal value => exact agrees_pure rfl
    | @computed d e e' he =>
      refine (agrees_liftM (Computed.target?_agrees d he)).bind_eq fun target? => ?_
      cases target? with
      | some target => exact agrees_pure rfl
      | none => exact (agrees_record fun _ => ⟨rfl, rfl⟩).bind_eq fun _ => agrees_pure rfl

theorem guards_plain (settings : Settings) (enums : EnumRegistry) (c : Column) :
    (c.guards settings enums).Plain := by
  have hdecimal : (c.decimalGuard settings).Plain := by
    unfold decimalGuard
    split
    · exact .ite (fails_ok _) (.ite (fails_ok _) (fails_error rfl))
    · exact fails_ok _
  exact .ite (fails_ok _) (hdecimal.bind fun _ => fails_ok _)

end Column

namespace CheckConstraint

theorem clause_agrees (entity : String) {c c' : CheckConstraint} (h : c.Alike c') :
    Traced.Agrees True Eq (c.clause entity) (c'.clause entity) := by
  obtain ⟨hnode⟩ := h
  have htext := Expr.text_supported .sqlite hnode.plain
  unfold clause
  dsimp only
  rw [hnode.text_eq]
  generalize c.node.text .sqlite = text at htext
  cases text with
  | ok text => exact agrees_pure rfl
  | error fault =>
    cases fault with
    | unsupported construct detail => exact absurd rfl (htext _ rfl construct detail)
    | unrenderable kind dialect =>
      exact (agrees_record fun _ => ⟨rfl, rfl⟩).bind_eq fun _ => agrees_pure rfl
    | _ => exact agrees_error rfl

theorem clauses_agrees (entity : String) {cs cs' : List CheckConstraint}
    (h : List.Forall₂ CheckConstraint.Alike cs cs') :
    Traced.Agrees True Eq (clauses entity cs) (clauses entity cs') := by
  induction h with
  | nil => exact agrees_pure rfl
  | cons hc _ ih => exact (clause_agrees entity hc).bind_eq fun _ => ih.bind_eq fun _ => agrees_pure rfl

end CheckConstraint

theorem Column.definition_agrees (settings : Settings) (enums : EnumRegistry) (table : String)
    {c c' : Column} (h : c.Alike c') :
    Traced.Agrees True Eq (c.definition settings enums table) (c'.definition settings enums table) := by
  have hdefault := fun entity => defaultClause_agrees entity h
  obtain ⟨_, hchecks⟩ := h
  exact (hdefault _).bind_eq fun _ => (agrees_liftM (guards_plain settings enums c).agrees).bind_eq
    fun _ => (CheckConstraint.clauses_agrees _ hchecks).bind_eq fun _ => agrees_pure rfl

theorem Table.block_agrees (settings : Settings) (enums : EnumRegistry) {t t' : Table}
    (h : t.Alike Q t') :
    Traced.Agrees True Eq (t.block settings enums) (t'.block settings enums) := by
  obtain ⟨_, hcolumns, hchecks⟩ := h
  refine (agrees_record fun _ => ⟨rfl, rfl⟩).bind_eq fun _ => .ite ?_ ?_ ?_
  · rw [List.isEmpty_iff_length_eq_zero, List.isEmpty_iff_length_eq_zero, hcolumns.length_eq]
  · exact (agrees_record fun _ => ⟨rfl, rfl⟩).bind_eq fun _ => agrees_pure rfl
  · refine (Traced.agrees_mapM hcolumns fun c c' hc =>
      Column.definition_agrees settings enums t.name hc).bind fun columns columns' heq => ?_
    rw [List.forall₂_eq_eq_eq] at heq
    subst heq
    exact (CheckConstraint.clauses_agrees _ hchecks).bind_eq fun _ => agrees_pure rfl

namespace Model

variable {m m' : Model}

/-- Blocks are the same, and stand in the same order, where positions do. -/
theorem blocks_agrees (settings : Settings)
    (hQ : ∀ p q p' q', Q p q → Q p' q' → (p ≤ p' ↔ q ≤ q')) (h : m.Alike Q m') :
    Traced.Agrees True (List.Forall₂ fun a b => Q a.1 b.1 ∧ a.2 = b.2) (m.blocks settings)
      (m'.blocks settings) := by
  unfold blocks
  rw [h.enums]
  have htable : ∀ t t' : Table, t.Alike Q t' →
      Traced.Agrees True (fun a b => Q a.1 b.1 ∧ a.2 = b.2)
        (do return (t.position, ← t.block settings m.enums) : Traced (Nat × Ddl.Block))
        (do return (t'.position, ← t'.block settings m.enums)) := by
    intro t t' ht
    refine (Table.block_agrees settings m.enums ht).bind_eq fun _ => agrees_pure ⟨?_, rfl⟩
    obtain ⟨hposition, _, _⟩ := ht
    exact hposition
  have hothers : List.Forall₂ (fun a b => Q a.1 b.1 ∧ a.2 = b.2)
      (m.unsupported.map fun s => (s.position, Ddl.Block.mk [s.label] none))
      (m'.unsupported.map fun s => (s.position, Ddl.Block.mk [s.label] none)) := by
    rw [List.forall₂_map_left_iff, List.forall₂_map_right_iff]
    refine h.unsupported.imp fun s s' hs => ?_
    obtain ⟨hposition⟩ := hs
    exact ⟨hposition, rfl⟩
  refine (Traced.agrees_mapM h.tables htable).bind fun tables tables' htables => agrees_pure ?_
  refine forall₂_mergeSort (List.rel_append htables hothers) fun a b a' b' hab hab' => ?_
  exact decide_eq_decide.2 (hQ _ _ _ _ hab.1 hab'.1)

/-- **The scripts of models that are alike are the same.** -/
theorem script_agrees (settings : Settings)
    (hQ : ∀ p q p' q', Q p q → Q p' q' → (p ≤ p' ↔ q ≤ q')) (h : m.Alike Q m') :
    Traced.Agrees True Eq (m.script settings) (m'.script settings) := by
  have hsorted : List.Forall₂ (Index.Moved Q)
      (m.indexes.mergeSort fun a b => a.position ≤ b.position)
      (m'.indexes.mergeSort fun a b => a.position ≤ b.position) := by
    refine forall₂_mergeSort h.indexes fun i i' j j' hi hj => ?_
    obtain ⟨hi⟩ := hi
    obtain ⟨hj⟩ := hj
    exact decide_eq_decide.2 (hQ _ _ _ _ hi hj)
  have hindexes : (m'.indexes.mergeSort fun a b => a.position ≤ b.position).map Index.create =
      (m.indexes.mergeSort fun a b => a.position ≤ b.position).map Index.create := by
    refine map_eq_of_forall₂ hsorted fun i _ i' hi => ?_
    obtain ⟨_⟩ := hi
    rfl
  unfold script
  refine (blocks_agrees settings hQ h).bind fun blocks blocks' hblocks => ?_
  have hblocks' : blocks'.map Prod.snd = blocks.map Prod.snd :=
    map_eq_of_forall₂ hblocks fun _ _ _ hblock => hblock.2.symm
  rw [hindexes, hblocks', h.tables.length_eq]
  exact (agrees_record fun _ => ⟨rfl, rfl⟩).bind_eq fun _ => agrees_pure rfl

end Model

/-! ### Documents -/

namespace Model

variable {m m' : Model}

theorem table?_rel (h : m.Alike Q m') (name : String) :
    Option.Rel (Table.Alike Q) (m.table? name) (m'.table? name) := by
  refine find?_rel_of_forall₂ h.tables fun t t' ht => ?_
  obtain ⟨_, _, _⟩ := ht
  rfl

theorem column?_rel (h : m.Alike Q m') (table column : String) :
    Option.Rel Column.Alike (m.column? table column) (m'.column? table column) := by
  have htable := table?_rel h table
  unfold column?
  generalize m.table? table = t at htable
  generalize m'.table? table = t' at htable
  cases htable with
  | none => exact .none
  | some ht =>
    obtain ⟨_, hcolumns, _⟩ := ht
    refine find?_rel_of_forall₂ hcolumns fun c c' hc => ?_
    obtain ⟨_, _⟩ := hc
    rfl

theorem referenceStep_rel (h : m.Alike Q m') (k : ColumnKey) :
    Walk.StepRel (Option.Rel Column.Alike) (m.referenceStep k) (m'.referenceStep k) := by
  have hcolumn := column?_rel h k.1 k.2
  unfold referenceStep
  generalize m.column? k.1 k.2 = c at hcolumn
  generalize m'.column? k.1 k.2 = c' at hcolumn
  cases hcolumn with
  | none => exact .stop .none
  | some hc =>
    have halike := hc
    obtain ⟨_, _⟩ := hc
    dsimp only
    split
    · exact .stop (.some halike)
    · exact .go _

/-- The references of a column lead to columns that are alike, or round the same cycle. -/
theorem owner_agrees (h : m.Alike Q m') (table column : String) :
    Read.Agrees True (Option.Rel Column.Alike) (m.owner table column) (m'.owner table column) := by
  have hrun : Walk.ArrivalRel (Option.Rel Column.Alike) (m.references.run (table, column))
      (m'.references.run (table, column)) := Walk.run_rel (referenceStep_rel h) (table, column)
  unfold owner
  generalize m.references.run (table, column) = arrival at hrun
  generalize m'.references.run (table, column) = arrival' at hrun
  cases hrun with
  | arrived _ hcolumn => exact .ok hcolumn
  | cycle path => exact .error rfl rfl fun _ => rfl

theorem sharedEnums_eq (h : m.Alike Q m') (minRefs : Int) :
    m'.sharedEnums minRefs = m.sharedEnums minRefs := by
  have hcolumns : List.Forall₂ Column.Alike (m.tables.flatMap Table.columns)
      (m'.tables.flatMap Table.columns) := by
    refine List.rel_flatMap h.tables fun t t' ht => ?_
    obtain ⟨_, hcolumns, _⟩ := ht
    exact hcolumns
  have hrefs : ∀ name, m'.enumRefs name = m.enumRefs name := by
    intro name
    unfold enumRefs
    rw [List.countP_eq_length_filter, List.countP_eq_length_filter]
    refine (List.Forall₂.length_eq (List.rel_filter (fun c c' hc => ?_) hcolumns)).symm
    obtain ⟨_, _⟩ := hc
    rfl
  unfold sharedEnums
  rw [h.enums]
  simp only [hrefs]

theorem indexFlag?_eq_of_alike (h : m.Alike Q m') (table column : String) :
    m'.indexFlag? table column = m.indexFlag? table column := by
  have hunique : (m'.indexes.filter fun i => i.table = table && i.columns = [column]).map
        Index.unique =
      (m.indexes.filter fun i => i.table = table && i.columns = [column]).map Index.unique := by
    refine map_eq_of_forall₂ (List.rel_filter (fun i i' hi => ?_) h.indexes) fun i _ i' hi => ?_
    all_goals
      obtain ⟨_⟩ := hi
      rfl
  have hflag : ∀ m : Model, m.indexFlag? table column =
      let uniques := (m.indexes.filter fun i => i.table = table && i.columns = [column]).map
        Index.unique
      if uniques.isEmpty then none else if uniques.any id then some .unique else some .plain := by
    intro m
    dsimp only
    rw [List.isEmpty_map, List.any_map]
    rfl
  rw [hflag, hflag, hunique]

theorem dropIndexes_agrees (h : m.Alike Q m') :
    Traced.Agrees True Eq m.dropIndexes m'.dropIndexes := by
  refine Traced.agrees_forM h.indexes fun i i' hi => ?_
  obtain ⟨_⟩ := hi
  exact .ite .rfl (agrees_pure rfl) (agrees_record fun _ => ⟨rfl, rfl⟩)

end Model

namespace Column

variable {m m' : Model} {c c' : Column}

theorem referenceProperty_agrees (h : m.Alike Q m') (table : String) (hc : c.Alike c')
    (fk : ForeignKey) :
    Traced.Agrees True Eq (c.referenceProperty m table fk) (c'.referenceProperty m' table fk) := by
  obtain ⟨_, hchecks⟩ := hc
  refine (agrees_liftM (Model.owner_agrees h table c.name)).bind fun owner owner' howner => ?_
  refine .optional ?_ ?_ ?_
  · cases howner <;> rfl
  · exact fun hrest => (agrees_record fun _ => ⟨rfl, rfl⟩).bind_eq fun _ => hrest
  · refine (Traced.agrees_forM hchecks fun check check' hcheck => ?_).bind_eq fun _ => agrees_pure rfl
    obtain ⟨_⟩ := hcheck
    exact .ite .rfl (agrees_record fun _ => ⟨rfl, rfl⟩) (agrees_pure rfl)

theorem ruledProperty_eq_of_alike (enums shared : EnumRegistry) (hc : c.Alike c') (rules : RuleSet) :
    c'.ruledProperty enums shared rules = c.ruledProperty enums shared rules := by
  obtain ⟨_, _⟩ := hc
  induction rules using ruledProperty.induct with
  | case1 _ r ih => rw [ruledProperty, ruledProperty, ih]
  | case2 _ => rfl
  | case3 _ _ => rfl

end Column

theorem Nesting.within_plain (levels : Nat) : (within levels).Plain :=
  .ite (fails_ok ()) (fails_error rfl)

theorem Document.write_plain (d : Document) : d.write.Plain := by
  have hwithin : (d.allProperties.forM fun p => Nesting.within (p.levels + 1)).Plain :=
    fails_forM (fun _ => Nesting.within_plain _) _
  exact hwithin.bind fun _ => fails_ok _

namespace Model

variable {m m' : Model}

theorem property_agrees (h : m.Alike Q m') (shared : EnumRegistry) (table : String)
    {c c' : Column} (hc : c.Alike c') :
    Traced.Agrees True Eq (m.property shared table c) (m'.property shared table c') := by
  have hreference := Column.referenceProperty_agrees h table hc
  have hruled := Column.ruledProperty_eq_of_alike m.enums shared hc
  obtain ⟨hdefault, _⟩ := hc
  unfold property
  dsimp only
  rw [h.enums, indexFlag?_eq_of_alike h]
  simp only [hruled]
  generalize c.default = default at hdefault ⊢
  generalize c.foreignKey = fk
  -- The same literal, an expression with the same text, or no default.
  obtain (_ | _) | _ := hdefault
  all_goals
    cases fk with
    | some fk => exact (hreference fk).bind_eq fun _ => agrees_pure rfl
    | none => exact (agrees_liftM (Nesting.within_plain _).agrees).bind_eq fun _ => agrees_pure rfl

theorem columnProperties_agrees (h : m.Alike Q m') (shared : EnumRegistry) (table : String)
    {cs cs' : List Column} (hcs : List.Forall₂ Column.Alike cs cs') :
    Traced.Agrees True Eq (m.columnProperties shared table cs)
      (m'.columnProperties shared table cs') := by
  induction hcs with
  | nil => exact agrees_pure rfl
  | cons hc _ ih =>
    have hproperty := property_agrees h shared table hc
    obtain ⟨_, hchecks⟩ := hc
    refine (Traced.agrees_forM hchecks fun check check' hcheck => ?_).bind_eq fun _ =>
      hproperty.bind_eq fun _ => ih.bind_eq fun _ => agrees_pure rfl
    obtain ⟨_⟩ := hcheck
    exact .ite .rfl (agrees_pure rfl) (agrees_record fun _ => ⟨rfl, rfl⟩)

theorem tableSchema_agrees (h : m.Alike Q m') (shared : EnumRegistry) {t t' : Table}
    (ht : t.Alike Q t') :
    Traced.Agrees True Eq (m.tableSchema shared t) (m'.tableSchema shared t') := by
  obtain @⟨_, columns, _, _, hcolumns, hchecks⟩ := ht
  have hrequired : ∀ composite : List String,
      (columns.filter fun c =>
        c.isRequired && !c.isPrimaryKey && !composite.contains c.name).map Column.name =
      (t.columns.filter fun c =>
        c.isRequired && !c.isPrimaryKey && !composite.contains c.name).map Column.name := by
    intro composite
    refine map_eq_of_forall₂ (List.rel_filter (fun c c' hc => ?_) hcolumns) fun c _ c' hc => ?_
    all_goals
      obtain ⟨_, _⟩ := hc
      rfl
  have hkeys : List.Forall₂ Eq t.constraints t.constraints := List.forall₂_refl _
  refine (Traced.agrees_forM hkeys fun k k' hk => ?_).bind_eq fun _ => ?_
  · subst hk
    exact agrees_record fun _ => ⟨rfl, rfl⟩
  · refine (Traced.agrees_forM hchecks fun check check' hcheck => ?_).bind_eq fun _ => ?_
    · obtain ⟨_⟩ := hcheck
      exact agrees_record fun _ => ⟨rfl, rfl⟩
    · refine (columnProperties_agrees h shared t.name hcolumns).bind_eq fun _ => ?_
      dsimp only
      rw [hrequired]
      exact agrees_pure rfl

/-- **The schema documents of models that are alike are the same.** -/
theorem document_agrees (settings : Settings) (h : m.Alike Q m') :
    Traced.Agrees True Eq (m.document settings) (m'.document settings) := by
  have htable : ∀ t t' : Table, t.Alike Q t' → Traced.Agrees True Eq
      (do return (t.name, ← m.tableSchema (m.sharedEnums settings.sharedEnumMinRefs) t) :
        Traced (String × TableSchema))
      (do return (t'.name, ← m'.tableSchema (m.sharedEnums settings.sharedEnumMinRefs) t')) := by
    intro t t' ht
    have hschema := tableSchema_agrees h (m.sharedEnums settings.sharedEnumMinRefs) ht
    obtain ⟨_, _, _⟩ := ht
    exact hschema.bind_eq fun _ => agrees_pure rfl
  unfold document
  dsimp only
  rw [sharedEnums_eq h]
  refine (dropIndexes_agrees h).bind_eq fun _ => ?_
  refine (Traced.agrees_mapM h.tables htable).bind fun tables tables' htables => ?_
  rw [List.forall₂_eq_eq_eq] at htables
  subst htables
  refine (agrees_record fun _ => ⟨rfl, rfl⟩).bind_eq fun _ => ?_
  exact (agrees_liftM (Document.write_plain _).agrees).bind_eq fun _ => agrees_pure rfl

end Model

end StrictDdl
