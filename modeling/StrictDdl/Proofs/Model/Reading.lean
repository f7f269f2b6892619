import Mathlib.Data.List.Nodup
import StrictDdl.Proofs.Model.Effect

/-! What is read of a table.

While the elements of a table are read, its columns are those seen so far, and every check and
reference seen so far is accounted for (`TableParts.Reads`): a check is kept in one place or
lost, a column refers to what the last of its references says, and a reference of several
columns together is marked. One constraint keeps this up by its effect
(`TableParts.Reads.constraint`), and so does a new column; the rest is induction along the
elements (`readParts_reads`). -/
namespace StrictDdl

/-! ### Accounts -/

/-- The marker says that the constraint of a table was lost, and where. -/
structure Marker.LossOf (construct : String) (table : Json) (k : ConstraintSource) (m : Marker) :
    Prop where
  kind : m.kind = .unsupportedConstruct
  construct : m.construct = construct
  entity : m.entity = k.place table

/-- What becomes of a check when it is read. -/
inductive CheckReading where
  /-- It comes to stand with the column or table of this name. -/
  | kept (entity : String) (check : CheckConstraint)
  | lost

namespace CheckReading

def kept? : CheckReading → Option (String × CheckConstraint)
  | .kept entity check => some (entity, check)
  | .lost => none

/-- The check of a table is read so. -/
def Of (k : ConstraintSource) : CheckReading → Prop
  | .kept _ check => check.Of k
  | .lost => k.condition.Unwritable .postgres

end CheckReading

namespace TableParts

/-- All checks of a table, each with the name of the column or table that it stands with. -/
def allChecks (t : TableParts) : List (String × CheckConstraint) :=
  t.columns.flatMap (fun c => c.checks.map (c.entity, ·)) ++ t.checks.map (t.name.display, ·)

/-- The table is what has been read of its source so far, and these markers were set. -/
structure Reads (source : TableSource) (t : TableParts) (markers : List Marker) : Prop where
  name : t.name = source.name
  columns : t.columns.map ColumnParts.name = source.columns
  distinct : (source.columns.filterMap Json.str?).Nodup
  entities : t.columns.map ColumnParts.entity = source.columns.map source.label
  /-- Each check is kept once or lost. -/
  checks : ∃ readings, List.Forall₂ CheckReading.Of
      (source.constraints.filter ConstraintSource.isCheck) readings ∧
    t.allChecks.Perm (readings.filterMap CheckReading.kept?)
  /-- The last reference of a column is the one that counts. -/
  references : ∀ c ∈ t.columns, ∀ s, c.name = .str s →
    c.foreignKey = (source.referencesOf s).getLast?
  /-- A reference of one column is of a column of the table. -/
  referencing : ∀ k ∈ source.constraints, k.isReference = true → k.isComposite = false →
    ∃ column ∈ source.columns, ∀ s, column = .str s ↔ k.referencing = .str s
  /-- Each composite reference is marked by a marker of its own. -/
  composites : ∃ lost, List.Forall₂ (Marker.LossOf (LetterCase.upper ForeignKey.composite) t.name)
      (source.constraints.filter ConstraintSource.isComposite) lost ∧ lost.Sublist markers

end TableParts

theorem filterMap_singleton {α β : Type} (f : α → Option β) (a : α) :
    [a].filterMap f = (f a).toList := by
  cases h : f a <;> simp [h]

/-- No constraint is a check and a reference. -/
theorem ConstraintSource.isReference_of_isCheck {k : ConstraintSource} (h : k.isCheck = true) :
    k.isReference = false := by
  simp only [isCheck, isReference, isA, decide_eq_true_eq] at h ⊢
  rw [h]
  decide

theorem ConstraintSource.isCheck_of_isReference {k : ConstraintSource} (h : k.isReference = true) :
    k.isCheck = false := by
  cases hcheck : k.isCheck with
  | false => rfl
  | true => cases h.symm.trans (isReference_of_isCheck hcheck)

namespace TableParts.Reads

variable {source : TableSource} {t t' : TableParts} {markers more : List Marker}

/-- More markers may be set. -/
theorem mono (h : t.Reads source markers) (hsub : markers.Sublist more) : t.Reads source more := by
  obtain ⟨composites, hcomposites, hsublist⟩ := h.composites
  exact { h with composites := ⟨composites, hcomposites, hsublist.trans hsub⟩ }

theorem entity_eq (h : t.Reads source markers) {c : ColumnParts} (hc : c ∈ t.columns) :
    c.entity = source.label c.name := by
  have hentities := h.entities
  rw [← h.columns, List.map_map, List.map_inj_left] at hentities
  exact hentities c hc

/-- The place of a marker shows from the names. -/
theorem lossOf (h : t.Reads source markers) {construct : String} {k : ConstraintSource} {m : Marker}
    (hloses : m.Loses construct k t) : m.LossOf construct t.name k := by
  obtain ⟨hkind, hconstruct, hentity⟩ := hloses
  refine ⟨hkind, hconstruct, ?_⟩
  unfold ConstraintSource.place
  cases hbehind : k.behind with
  | some column =>
    rw [hbehind] at hentity
    obtain ⟨c, hc, rfl, hentity⟩ := hentity
    rw [← hentity, h.entity_eq hc, TableSource.label, h.name]
  | none =>
    rw [hbehind] at hentity
    rw [hentity]
    rfl

/-! ### One constraint -/

/-- A constraint leaves the names as they are. -/
theorem names_of_effect {k : ConstraintSource} (h : Effect k t more t') :
    t'.name = t.name ∧ t'.columns.map ColumnParts.name = t.columns.map ColumnParts.name ∧
      t'.columns.map ColumnParts.entity = t.columns.map ColumnParts.entity := by
  cases h with
  | none | tableCheck | lostCheck | markedReference => exact ⟨rfl, rfl, rfl⟩
  | columnCheck before c after check _ _ hcolumns => simp [hcolumns]
  | reference before c after draft _ _ _ hcolumns => simp [hcolumns]

/-- A constraint other than a check leaves the checks as they are. -/
theorem allChecks_of_effect {k : ConstraintSource} (h : Effect k t more t')
    (hk : k.isCheck = false) : t'.allChecks = t.allChecks := by
  cases h with
  | none | markedReference => rfl
  | columnCheck _ _ _ _ hcheck => cases hk.symm.trans hcheck
  | tableCheck _ hcheck => cases hk.symm.trans hcheck
  | lostCheck hcheck => cases hk.symm.trans hcheck
  | reference before c after draft _ _ _ hcolumns => simp [allChecks, hcolumns]

/-- A check comes to stand in one place or is lost. -/
theorem exists_reading {k : ConstraintSource} (heffect : Effect k t more t')
    (hk : k.isCheck = true) : ∃ reading : CheckReading,
      reading.Of k ∧ t'.allChecks.Perm (t.allChecks ++ reading.kept?.toList) := by
  cases heffect with
  | none hcheck => cases hk.symm.trans hcheck
  | reference _ _ _ _ hreference =>
    cases hk.symm.trans (ConstraintSource.isCheck_of_isReference hreference)
  | markedReference _ hreference =>
    cases hk.symm.trans (ConstraintSource.isCheck_of_isReference hreference)
  | columnCheck before c after check _ hof hcolumns =>
    refine ⟨.kept c.entity check, hof, ?_⟩
    -- The new check stands behind the others of its column, ahead of those of later columns.
    simp only [allChecks, hcolumns, List.flatMap_append, List.flatMap_cons, List.map_append,
      List.append_assoc]
    refine (List.Perm.refl _).append ((List.Perm.refl _).append ?_)
    exact List.perm_append_comm.trans (by simp [CheckReading.kept?])
  | tableCheck check _ hof =>
    refine ⟨.kept t.name.display check, hof, ?_⟩
    simp [allChecks, CheckReading.kept?]
  | lostCheck _ hunwritable => exact ⟨.lost, hunwritable, by simp [CheckReading.kept?]⟩

/-- A column refers to what the constraint says, if it is a reference of the column. -/
theorem foreignKey_of_effect (h : t.Reads source markers) {k : ConstraintSource}
    (heffect : Effect k t more t') {c' : ColumnParts} (hc' : c' ∈ t'.columns) {s : String}
    (hname : c'.name = .str s) : ∃ c ∈ t.columns, c.name = .str s ∧
      c'.foreignKey = (k.referenceOn? s).or c.foreignKey := by
  cases heffect with
  | none _ hreference =>
    refine ⟨c', hc', hname, ?_⟩
    simp [ConstraintSource.referenceOn?, hreference]
  | columnCheck before c after check hcheck _ hcolumns =>
    have hnone : k.referenceOn? s = none := by
      simp [ConstraintSource.referenceOn?, ConstraintSource.isReference_of_isCheck hcheck]
    simp only [hnone, Option.none_or, hcolumns]
    rcases List.mem_append.1 hc' with hc' | hc'
    · exact ⟨c', List.mem_append_left _ hc', hname, rfl⟩
    · rcases List.mem_cons.1 hc' with rfl | hc'
      · exact ⟨c, by simp, hname, rfl⟩
      · exact ⟨c', by simp [hc'], hname, rfl⟩
  | tableCheck check hcheck _ | lostCheck hcheck _ =>
    refine ⟨c', hc', hname, ?_⟩
    simp [ConstraintSource.referenceOn?, ConstraintSource.isReference_of_isCheck hcheck]
  | markedReference marker _ hnone =>
    refine ⟨c', hc', hname, ?_⟩
    simp [ConstraintSource.referenceOn?, hnone]
  | reference before c after draft hreference hdraft hreferencing hcolumns =>
    -- The other columns have other names than the one that the constraint finds.
    have hother : ∀ b ∈ before ++ after, b.name = .str s → c.name ≠ .str s := by
      intro b hb hbname hcname
      have hdistinct := h.distinct
      rw [← h.columns, hcolumns, List.map_append, List.map_cons, List.filterMap_append, hcname,
        List.filterMap_cons_some (f := Json.str?) (a := .str s) rfl, List.nodup_middle, List.nodup_cons,
        ← List.filterMap_append, ← List.map_append] at hdistinct
      refine hdistinct.1 (List.mem_filterMap.2 ⟨.str s, ?_, rfl⟩)
      exact hbname ▸ List.mem_map_of_mem hb
    have hfound : k.referencing.str? = some s ↔ c.name = .str s := by
      rw [hreferencing, Json.str?_eq_some_iff]
    have hkept : ∀ b ∈ before ++ after, b.name = .str s → ∃ c ∈ t.columns, c.name = .str s ∧
        b.foreignKey = (k.referenceOn? s).or c.foreignKey := by
      intro b hb hbname
      refine ⟨b, ?_, hbname, ?_⟩
      · rw [hcolumns]
        exact (List.sublist_cons_self c after).append_left before |>.subset hb
      · have hne : k.referencing.str? ≠ some s := hfound.not.2 (hother b hb hbname)
        simp [ConstraintSource.referenceOn?, hne]
    rcases List.mem_append.1 hc' with hc' | hc'
    · exact hkept c' (List.mem_append_left _ hc') hname
    · rcases List.mem_cons.1 hc' with rfl | hc'
      · refine ⟨c, by simp [hcolumns], hname, ?_⟩
        simp [ConstraintSource.referenceOn?, hreference, hfound.2 hname, hdraft]
      · exact hkept c' (List.mem_append_right _ hc') hname

/-- A reference of one column finds its column. -/
theorem exists_referencing (h : t.Reads source markers) {k : ConstraintSource}
    (heffect : Effect k t more t') (hk : k.isReference = true) (hsingle : k.isComposite = false) :
    ∃ column ∈ source.columns, ∀ s, column = .str s ↔ k.referencing = .str s := by
  cases heffect with
  | none _ hno => cases hk.symm.trans hno
  | columnCheck _ _ _ _ hcheck | tableCheck _ hcheck | lostCheck hcheck =>
    cases hk.symm.trans (ConstraintSource.isReference_of_isCheck hcheck)
  | reference before c after _ _ _ hname hcolumns =>
    refine ⟨c.name, ?_, hname⟩
    rw [← h.columns, hcolumns]
    exact List.mem_map_of_mem (by simp)
  | markedReference _ _ hnone =>
    rw [ConstraintSource.isComposite, hk, hnone] at hsingle
    cases hsingle

/-- A composite reference is marked. -/
theorem exists_loss (h : t.Reads source markers) {k : ConstraintSource}
    (heffect : Effect k t more t') (hk : k.isComposite = true) : ∃ m ∈ more,
      m.LossOf (LetterCase.upper ForeignKey.composite) t.name k := by
  have hreference : k.isReference = true := (Bool.and_eq_true_iff.1 hk).1
  have hnone : k.reference? = none := Option.isNone_iff_eq_none.1 (Bool.and_eq_true_iff.1 hk).2
  cases heffect with
  | none _ hno => cases hreference.symm.trans hno
  | columnCheck _ _ _ _ hcheck | tableCheck _ hcheck | lostCheck hcheck =>
    cases hreference.symm.trans (ConstraintSource.isReference_of_isCheck hcheck)
  | reference _ _ _ _ _ hsome => cases hnone.symm.trans hsome
  | markedReference marker _ _ hmem hloses => exact ⟨marker, hmem, h.lossOf hloses⟩

/-- **One more constraint is accounted for.** -/
theorem constraint (h : t.Reads source markers) {k : ConstraintSource}
    (heffect : Effect k t more t') : t'.Reads (source.constrain [k]) (markers ++ more) := by
  obtain ⟨hname, hnames, hentities⟩ := names_of_effect heffect
  refine ⟨hname.trans h.name, hnames.trans h.columns, h.distinct, hentities.trans h.entities,
    ?checks, ?references, ?referencing, ?composites⟩
  case checks =>
    obtain ⟨readings, hreadings, hkept⟩ := h.checks
    rw [TableSource.constrain, List.filter_append, List.filter_singleton]
    cases hk : k.isCheck with
    | false =>
      rw [allChecks_of_effect heffect hk]
      exact ⟨readings, by simpa using hreadings, hkept⟩
    | true =>
      obtain ⟨reading, hof, hperm⟩ := exists_reading heffect hk
      refine ⟨readings ++ [reading], List.rel_append hreadings (.cons hof .nil), ?_⟩
      rw [List.filterMap_append, filterMap_singleton]
      exact hperm.trans (hkept.append_right _)
  case references =>
    intro c' hc' s hs
    obtain ⟨c, hc, hcname, hkey⟩ := h.foreignKey_of_effect heffect hc' hs
    rw [hkey, h.references c hc s hcname, TableSource.constrain, TableSource.referencesOf,
      TableSource.referencesOf, List.filterMap_append, filterMap_singleton]
    cases k.referenceOn? s with
    | none => simp
    | some draft => simp
  case referencing =>
    intro k' hk'
    rcases List.mem_append.1 hk' with hk' | hk'
    · exact h.referencing k' hk'
    · obtain rfl := List.mem_singleton.1 hk'
      exact h.exists_referencing heffect
  case composites =>
    obtain ⟨lost, hlost, hsublist⟩ := h.composites
    rw [hname, TableSource.constrain, List.filter_append, List.filter_singleton]
    cases hk : k.isComposite with
    | false =>
      refine ⟨lost, by simpa using hlost, ?_⟩
      exact hsublist.trans (List.sublist_append_left ..)
    | true =>
      obtain ⟨m, hm, hloss⟩ := h.exists_loss heffect hk
      refine ⟨lost ++ [m], List.rel_append hlost (.cons hloss .nil), ?_⟩
      exact hsublist.append (List.singleton_sublist.2 hm)

/-! ### One column -/

/-- A column that is added has a name of its own, and neither checks nor references yet. -/
structure New (source : TableSource) (c : ColumnParts) : Prop where
  fresh : ∀ s, c.name = .str s → .str s ∉ source.columns
  entity : c.entity = source.label c.name
  checks : c.checks = []
  foreignKey : c.foreignKey = none

/-- **One more column is accounted for**, if every constraint so far stands behind another. -/
theorem column (h : t.Reads source markers) {c : ColumnParts} (hnew : New source c)
    (hbehind : ∀ k ∈ source.constraints, ∃ column ∈ source.columns, k.behind = some column) :
    TableParts.Reads (source.addColumn c.name) ⟨t.name, t.columns ++ [c], t.checks⟩ markers := by
  refine ⟨h.name, ?columns, ?distinct, ?entities, ?checks, ?references, ?referencing, h.composites⟩
  case columns =>
    rw [List.map_append, h.columns]
    rfl
  case distinct =>
    rw [TableSource.addColumn, List.filterMap_append, filterMap_singleton]
    cases hs : c.name.str? with
    | none => simpa using h.distinct
    | some s =>
      have hs := Json.str?_eq_some_iff.1 hs
      refine List.nodup_append.2 ⟨h.distinct, List.pairwise_singleton .., ?_⟩
      intro a ha b hb
      obtain rfl : b = s := by simpa using hb
      rintro rfl
      obtain ⟨j, hj, hja⟩ := List.mem_filterMap.1 ha
      rw [Json.str?_eq_some_iff] at hja
      exact hnew.fresh a hs (hja ▸ hj)
  case entities =>
    rw [List.map_append, h.entities, TableSource.addColumn, List.map_append, List.map_singleton,
      List.map_singleton, hnew.entity]
    rfl
  case checks =>
    obtain ⟨readings, hreadings, hkept⟩ := h.checks
    refine ⟨readings, hreadings, ?_⟩
    simpa [allChecks, hnew.checks] using hkept
  case references =>
    intro b hb s hs
    rcases List.mem_append.1 hb with hb | hb
    · exact h.references b hb s hs
    · obtain rfl := List.mem_singleton.1 hb
      have hnil : source.referencesOf s = [] := by
        refine List.filterMap_eq_nil_iff.2 fun k hk => ?_
        obtain ⟨column, hcolumn, hbehind⟩ := hbehind k hk
        have hne : k.referencing.str? ≠ some s := by
          rw [ConstraintSource.referencing, hbehind, ne_eq, Json.str?_eq_some_iff]
          rintro rfl
          exact hnew.fresh s hs hcolumn
        simp [ConstraintSource.referenceOn?, hne]
      rw [hnew.foreignKey]
      exact (congrArg List.getLast? hnil).symm
  case referencing =>
    intro k hk hreference hsingle
    obtain ⟨column, hcolumn, hname⟩ := h.referencing k hk hreference hsingle
    exact ⟨column, List.mem_append_left _ hcolumn, hname⟩

end TableParts.Reads

/-! ### Reading a table -/

namespace TableSource

theorem constrain_append (source : TableSource) (ks ks' : List ConstraintSource) :
    source.constrain (ks ++ ks') = (source.constrain ks).constrain ks' := by
  simp [constrain]

theorem constrain_nil (source : TableSource) : source.constrain [] = source := by
  simp [constrain]

/-- The constraints seen so far stand behind columns seen so far. -/
def AllBehind (source : TableSource) : Prop :=
  ∀ k ∈ source.constraints, ∃ column ∈ source.columns, k.behind = some column

theorem exists_of_mem_behindColumns {elements : List Json} {k : ConstraintSource}
    (hk : k ∈ behindColumns elements) : ∃ column ∈ columnsOf elements, k.behind = some column := by
  obtain ⟨element, helement, hk⟩ := List.mem_flatMap.1 hk
  obtain ⟨constraint, _, rfl⟩ := List.mem_map.1 hk
  exact ⟨_, List.mem_map.2 ⟨element, helement, rfl⟩, rfl⟩

theorem AllBehind.extend {source : TableSource} (h : source.AllBehind) (elements : List Json) :
    (source.extend elements).AllBehind := by
  intro k hk
  rcases List.mem_append.1 hk with hk | hk
  · obtain ⟨column, hcolumn, hbehind⟩ := h k hk
    exact ⟨column, List.mem_append_left _ hcolumn, hbehind⟩
  · obtain ⟨column, hcolumn, hbehind⟩ := exists_of_mem_behindColumns hk
    exact ⟨column, List.mem_append_right _ hcolumn, hbehind⟩

theorem extend_nil (source : TableSource) : source.extend [] = source := by
  simp [extend, columnsOf, behindColumns]

theorem extend_cons (source : TableSource) (element : Json) (elements : List Json) :
    source.extend (element :: elements) = (source.extend [element]).extend elements := by
  cases h : Node.isA columnElement element <;> simp [extend, columnsOf, behindColumns, h]

theorem extend_other (source : TableSource) {element : Json}
    (h : Node.isA columnElement element = false) : source.extend [element] = source := by
  simp [extend, columnsOf, behindColumns, h]

theorem extend_column (source : TableSource) {element : Json}
    (h : Node.isA columnElement element = true) : source.extend [element] =
      (source.addColumn ((Node.content element).get "colname")).constrain
        (ConstraintSource.ofColumn element) := by
  simp [extend, columnsOf, behindColumns, addColumn, constrain, h]

end TableSource

section Reading

open Traced

variable {settings : Settings} {enums : EnumRegistry} {source : TableSource} {t t' : TableDraft}
  {markers more : List Marker}

/-- The constraints behind a column are accounted for, one after another. -/
theorem columnConstraints_reads {c c' : ColumnDraft} {constraints : List Json}
    (ht : (t.add c).parts.Reads source markers)
    (h : (constraints.foldlM (columnConstraint settings) (t, c)).Sets (t', c') more) :
    (t'.add c').parts.Reads
      (source.constrain (constraints.map fun k => ⟨some c.name, Node.content k⟩))
      (markers ++ more) := by
  induction constraints generalizing t c source markers more with
  | nil =>
    obtain ⟨heq, rfl⟩ := pure_sets_iff.1 h
    cases heq
    simpa [TableSource.constrain_nil] using ht
  | cons k ks ih =>
    rw [List.foldlM_cons] at h
    obtain ⟨⟨t₁, c₁⟩, first, rest, hfirst, hrest, rfl⟩ := bind_sets_iff.1 h
    have hname : c₁.name = c.name := (columnConstraint_spec hfirst.1).2.1.name_eq
    have hreads := ih (ht.constraint (columnConstraint_effect hfirst)) hrest
    rwa [← TableSource.constrain_append, List.append_assoc, hname] at hreads

theorem readColumn_reads {body : Members} {element : Json} (hbody : Node.content element = body)
    (ht : t.parts.Reads source markers) (hbehind : source.AllBehind)
    (h : (readColumn settings enums t body).Sets t' more) :
    t'.parts.Reads ((source.addColumn (body.get "colname")).constrain
      (ConstraintSource.ofColumn element))
      (markers ++ more) := by
  obtain ⟨target, t₁, c, first, hfresh, _, hread, hfirst, rfl⟩ := readColumn_sets h
  have hnew : TableParts.Reads.New source (t.newColumn body target).parts := by
    refine ⟨fun s hs hmem => ?_, ?_, rfl, rfl⟩
    · rw [← ht.columns, TableDraft.parts, List.map_map] at hmem
      obtain ⟨b, hb, hbname⟩ := List.mem_map.1 hmem
      have hother := List.find?_eq_none.1 hfresh b hb
      have hbname : b.name = .str s := hbname
      have hs : body.get "colname" = .str s := hs
      simp [hbname, hs, Json.same] at hother
    · rw [TableSource.label, ← ht.name]
      rfl
  have hadd := ht.column hnew hbehind
  have hreads := columnConstraints_reads (by rw [TableDraft.parts_add]; exact hadd) hread
  rw [ConstraintSource.ofColumn, hbody]
  exact hreads.mono ((List.Sublist.refl markers).append hfirst.sublist)

theorem readElement_reads {kind : String} {body : Members} {element : Json}
    (hunwrap : Node.unwrap element = .ok (kind, body)) (ht : t.parts.Reads source markers)
    (hbehind : source.AllBehind) (h : (readElement settings enums t kind body).Sets t' more) :
    t'.parts.Reads (source.extend [element]) (markers ++ more) := by
  have hisA : Node.isA columnElement element = (kind = columnElement : Bool) :=
    (Node.unwrap_eq_ok hunwrap).2 columnElement
  unfold readElement at h
  split at h
  · rename_i hkind
    have hbody := Node.content_of_unwrap hunwrap
    rw [source.extend_column (by rw [hisA, decide_eq_true hkind]), hbody]
    exact readColumn_reads hbody ht hbehind h
  · rename_i hkind
    obtain ⟨entity, _, h⟩ := liftM_bind_sets_iff.1 h
    obtain ⟨_, _, _, _, hrest, rfl⟩ := bind_sets_iff.1 h
    obtain ⟨rfl, rfl⟩ := pure_sets_iff.1 hrest
    rw [source.extend_other (by rw [hisA, decide_eq_false hkind])]
    exact ht.mono (List.sublist_append_left ..)

/-- The constraints among the columns are put aside in order. -/
theorem readElements_aside {aside aside' : List Members} {elements : List Json}
    (h : (readElements settings enums t aside elements).Sets (t', aside') markers) :
    aside' = aside ++ (elements.filter (Node.isA constraintElement)).map Node.content := by
  induction elements generalizing t aside markers with
  | nil =>
    obtain ⟨heq, rfl⟩ := pure_sets_iff.1 h
    cases heq
    exact (List.append_nil _).symm
  | cons element elements ih =>
    unfold readElements at h
    obtain ⟨⟨kind, body⟩, hunwrap, h⟩ := liftM_bind_sets_iff.1 h
    dsimp only at h
    rw [List.filter_cons, (Node.unwrap_eq_ok hunwrap).2]
    split at h
    · rename_i hkind
      rw [ih h, if_pos (decide_eq_true hkind), List.map_cons, Node.content_of_unwrap hunwrap,
        List.append_assoc]
      rfl
    · rename_i hkind
      obtain ⟨t₁, first, rest, _, hrest, rfl⟩ := bind_sets_iff.1 h
      rw [ih hrest, if_neg (by simpa using hkind)]

/-- The columns are accounted for. -/
theorem readElements_reads {aside aside' : List Members} {elements : List Json}
    (ht : t.parts.Reads source markers) (hbehind : source.AllBehind)
    (h : (readElements settings enums t aside elements).Sets (t', aside') more) :
    t'.parts.Reads (source.extend elements) (markers ++ more) := by
  induction elements generalizing t aside source markers more with
  | nil =>
    obtain ⟨heq, rfl⟩ := pure_sets_iff.1 h
    cases heq
    rwa [TableSource.extend_nil, List.append_nil]
  | cons element elements ih =>
    unfold readElements at h
    obtain ⟨⟨kind, body⟩, hunwrap, h⟩ := liftM_bind_sets_iff.1 h
    dsimp only at h
    rw [TableSource.extend_cons]
    split at h
    · rename_i hkind
      have hother : Node.isA columnElement element = false := by
        rw [(Node.unwrap_eq_ok hunwrap).2, hkind]
        decide
      rw [source.extend_other hother]
      exact ih ht hbehind h
    · obtain ⟨t₁, first, rest, hfirst, hrest, rfl⟩ := bind_sets_iff.1 h
      rw [← List.append_assoc]
      exact ih (readElement_reads hunwrap ht hbehind hfirst) (hbehind.extend [element]) hrest

/-- The constraints among the columns are accounted for, one after another. -/
theorem tableConstraints_reads {aside : List Members} (ht : t.parts.Reads source markers)
    (h : (aside.foldlM (tableConstraint settings) t).Sets t' more) :
    t'.parts.Reads (source.constrain (aside.map (⟨none, ·⟩))) (markers ++ more) := by
  induction aside generalizing t source markers more with
  | nil =>
    obtain ⟨rfl, rfl⟩ := pure_sets_iff.1 h
    simpa [TableSource.constrain_nil] using ht
  | cons body aside ih =>
    rw [List.foldlM_cons] at h
    obtain ⟨t₁, first, rest, hfirst, hrest, rfl⟩ := bind_sets_iff.1 h
    have hreads := ih (ht.constraint (tableConstraint_effect hfirst)) hrest
    rwa [← TableSource.constrain_append, List.append_assoc] at hreads

/-- **Everything that a table consists of is accounted for.** -/
theorem readParts_reads {body : Members} {name : Json} {position : Nat}
    (h : (readParts settings enums { name, position } body).Sets t' markers) :
    t'.parts.Reads (.ofParts name (body.get "tableElts").listed) markers := by
  obtain ⟨t₁, aside, first, second, helements, hconstraints, hpadded⟩ := readParts_sets h
  have hempty : TableParts.Reads ⟨name, [], []⟩
      (TableDraft.parts { name, position }) [] := by
    refine ⟨rfl, rfl, List.Pairwise.nil, rfl, ⟨[], .nil, .refl _⟩, ?_, by simp,
      ⟨[], .nil, .refl _⟩⟩
    simp [TableDraft.parts]
  obtain rfl := readElements_aside helements
  have hreads := readElements_reads hempty (by simp [TableSource.AllBehind]) helements
  have hreads := tableConstraints_reads hreads hconstraints
  rw [List.nil_append, List.nil_append, List.map_map] at hreads
  exact hreads.mono hpadded.sublist

end Reading

end StrictDdl
