import StrictDdl.Proofs.Model.Statement
import StrictDdl.Proofs.Text.LetterCase

/-! What holds of every model that is built from a parse tree.

Tables have names of their own and so have the columns of a table; a table has one primary
key at most, and its keys are made of its columns; and the rules of a column are those of
its type, overridden by those of its checks one after another (`Model.build_sound`). All of
it holds of the drafts at every step of the reading. -/
namespace StrictDdl

/-! ### Columns -/

namespace RuleSet

/-- The rules of a column after those of its checks. -/
def withChecks (r : RuleSet) (rules : List ValueRules) : RuleSet :=
  rules.foldl (fun r values => r.merge (.ofValues values)) r

theorem withChecks_append (r : RuleSet) (a b : List ValueRules) :
    r.withChecks (a ++ b) = (r.withChecks a).withChecks b := List.foldl_append

theorem isArray_withChecks (r : RuleSet) (rules : List ValueRules) :
    (r.withChecks rules).isArray = r.isArray := by
  induction rules generalizing r with
  | nil => rfl
  | cons values rules ih =>
    rw [withChecks, List.foldl_cons, ← withChecks, ih]
    rfl

theorem isArray_arrayOf (r : ValueRules) (depth : Nat) :
    ((ofValues r).arrayOf depth).isArray = decide (depth > 0) := by
  cases depth <;> rfl

end RuleSet

namespace CheckConstraint

/-- The rules that the check amounts to on a column, as far as it does. -/
def rules? (settings : Settings) (family : Family) (column : Json) (k : CheckConstraint) :
    Option ValueRules :=
  match Check.classify (k.columns.map .str) k.node column
      (family.isWhole && settings.adjustStrictBounds) with
  | .ok rules => rules
  | .error _ => none

end CheckConstraint

theorem CheckDraft.finish_spec {settings : Settings} {draft : CheckDraft} {c : ColumnDraft}
    {rules : Option ValueRules} {check : CheckConstraint}
    (hrules : draft.rules? settings c = .ok rules) (h : draft.finish rules.isSome = .ok check) :
    check.rules? settings c.target.family c.name = rules ∧ check.classified = rules.isSome := by
  unfold finish at h
  obtain ⟨g, columns, hg, hcolumns, rfl⟩ := Lenient.and_eq_ok_iff.1 (Lenient.toRead_eq_ok_iff.1 h)
  obtain ⟨name, _, rfl⟩ := Lenient.map_eq_ok_iff.1 hg
  have hcolumns := Lenient.eq_map_str_of_each_text (Lenient.under_eq_ok_iff.1 hcolumns)
  refine ⟨?_, rfl⟩
  rw [rules?, hcolumns] at hrules
  simp only [CheckConstraint.rules?, hrules]

/-- What holds of a column while it is read: its type is one of those there are, and its
rules are those of the type and of the checks that were found to be rules. -/
structure ColumnDraft.Sound (settings : Settings) (enums : EnumRegistry) (c : ColumnDraft) :
    Prop where
  target : ∃ name modifiers qualifier, c.target = Target.ofName name modifiers enums qualifier
  classified : ∀ k ∈ c.checks,
    k.classified = (k.rules? settings c.target.family c.name).isSome
  rules : c.rules = c.target.rules.withChecks
    (c.checks.filterMap (·.rules? settings c.target.family c.name))

theorem ColumnDraft.Sound.change {settings : Settings} {enums : EnumRegistry} {c c' : ColumnDraft}
    (h : c.Sound settings enums) (hchange : c.Change settings c') : c'.Sound settings enums := by
  cases hchange with
  | attributes hname htarget hrules hchecks =>
    obtain ⟨target, classified, rules⟩ := h
    constructor
    · rwa [htarget]
    · rwa [htarget, hname, hchecks]
    · rwa [htarget, hname, hchecks, hrules]
  | check draft hdraft =>
    obtain ⟨rules, check, hrules, hcheck, rfl⟩ := draft.onColumn_eq_ok hdraft
    obtain ⟨hsome, hclassified⟩ := draft.finish_spec hrules hcheck
    refine ⟨h.target, ?_, ?_⟩
    · intro k hk
      rcases List.mem_append.1 hk with hk | hk
      · exact h.classified k hk
      · obtain rfl := List.mem_singleton.1 hk
        rw [hclassified, hsome]
    · rw [List.filterMap_append, RuleSet.withChecks_append, ← h.rules, List.filterMap_cons, hsome]
      cases rules with
      | none => rfl
      | some r => rfl

/-! ### Tables -/

/-- Names none of which is the same as another. -/
def Json.Distinct (names : List Json) : Prop := names.Pairwise fun a b => a.same b = false

theorem Json.Distinct.append {names : List Json} (h : Distinct names) {name : Json}
    (hfresh : ∀ a ∈ names, a.same name = false) : Distinct (names ++ [name]) := by
  refine List.pairwise_append.2 ⟨h, List.pairwise_singleton .., ?_⟩
  intro a ha b hb
  obtain rfl := List.mem_singleton.1 hb
  exact hfresh a ha

/-- Only a text is the same as a text. -/
theorem Json.eq_str_of_same {j : Json} {s : String} (h : j.same (.str s) = true) : j = .str s := by
  cases j <;> simp_all [same, same.sameNumber, number?]

/-- Texts that are distinct as values are distinct. -/
theorem Json.Distinct.nodup {texts : List String} (h : Distinct (texts.map .str)) :
    texts.Nodup := by
  rw [Distinct, List.pairwise_map] at h
  refine h.imp ?_
  intro s t hst heq
  subst heq
  simp [same] at hst

/-- What holds of a table while it is read. -/
structure TableDraft.Sound (settings : Settings) (enums : EnumRegistry) (t : TableDraft) :
    Prop where
  names : Json.Distinct (t.columns.map ColumnDraft.name)
  primaryKeys : t.columns.countP (·.isPrimaryKey) + t.constraints.countP (·.isPrimary) ≤ 1
  /-- What a key is made of are columns of the table. -/
  keys : ∀ k ∈ t.constraints, ∀ name ∈ k.columns, .str name ∈ t.columns.map ColumnDraft.name
  columns : ∀ c ∈ t.columns, c.Sound settings enums

namespace TableDraft.Sound

variable {settings : Settings} {enums : EnumRegistry} {t t' : TableDraft}

theorem sameColumns (h : t.Sound settings enums) (hsame : t.SameColumns t') :
    t'.Sound settings enums := by
  obtain ⟨_, _, hcolumns, hconstraints⟩ := hsame
  obtain ⟨names, primaryKeys, keys, columns⟩ := h
  constructor
  · rwa [hcolumns]
  · rwa [hcolumns, hconstraints]
  · rwa [hcolumns, hconstraints]
  · rwa [hcolumns]

theorem count_of_no_key (h : t.hasPrimaryKey = false) :
    t.columns.countP (·.isPrimaryKey) = 0 ∧ t.constraints.countP (·.isPrimary) = 0 := by
  simp only [hasPrimaryKey, Bool.or_eq_false_iff, List.any_eq_false] at h
  exact ⟨List.countP_eq_zero.2 h.1, List.countP_eq_zero.2 h.2⟩

/-- A text that finds a column is the name of one. -/
theorem mem_names_of_column? {name : String} (h : (t.column? (.str name)).isSome) :
    .str name ∈ t.columns.map ColumnDraft.name := by
  obtain ⟨c, hc⟩ := Option.isSome_iff_exists.1 h
  rw [TableDraft.column?] at hc
  have hsame := List.find?_some hc
  refine List.mem_map.2 ⟨c, List.mem_of_find?_eq_some hc, ?_⟩
  exact Json.eq_str_of_same hsame

theorem change (h : t.Sound settings enums) (hchange : t.Change settings t') :
    t'.Sound settings enums := by
  cases hchange with
  | checks hsame => exact h.sameColumns hsame
  | column before c c' after hcolumns heq hc hkey =>
    subst heq
    obtain ⟨names, primaryKeys, keys, columns⟩ := h
    rw [hcolumns] at names primaryKeys keys columns
    refine ⟨?_, ?_, ?_, ?_⟩
    · simpa only [List.map_append, List.map_cons, hc.name_eq] using names
    · have hnew : c'.isPrimaryKey → c.isPrimaryKey ∨
          t.columns.countP (·.isPrimaryKey) + t.constraints.countP (·.isPrimary) = 0 := by
        intro hc'
        refine (hkey hc').imp_right fun hnone => ?_
        obtain ⟨hzero, hzero'⟩ := count_of_no_key hnone
        omega
      rw [hcolumns] at hnew
      simp only [List.countP_append, List.countP_cons] at primaryKeys hnew ⊢
      cases hc : c.isPrimaryKey <;> cases hc' : c'.isPrimaryKey <;>
        simp only [hc, hc', if_true, Bool.false_eq_true, if_false, false_or, forall_const] at * <;>
        omega
    · simpa only [List.map_append, List.map_cons, hc.name_eq] using keys
    · intro a ha
      rcases List.mem_append.1 ha with ha | ha
      · exact columns a (List.mem_append_left _ ha)
      · rcases List.mem_cons.1 ha with rfl | ha
        · exact (columns c (by simp)).change hc
        · exact columns a (by simp [ha])
  | key k heq hprimary hcolumns =>
    subst heq
    refine ⟨h.names, ?_, ?_, h.columns⟩
    · have := h.primaryKeys
      rw [List.countP_append, List.countP_singleton]
      by_cases hk : k.isPrimary
      · obtain ⟨hcolumns, hconstraints⟩ := count_of_no_key (hprimary hk)
        simp only [hk, if_true]
        omega
      · simp only [hk]
        exact this
    · intro l hl name hname
      rcases List.mem_append.1 hl with hl | hl
      · exact h.keys l hl name hname
      · obtain rfl := List.mem_singleton.1 hl
        exact mem_names_of_column? (hcolumns name hname)

/-- A new column with a name of its own. -/
theorem addColumn (h : t.Sound settings enums) {c : ColumnDraft} (hc : c.Sound settings enums)
    (hname : t.column? c.name = none) (hkey : c.isPrimaryKey → t.hasPrimaryKey = false) :
    TableDraft.Sound settings enums { t with columns := t.columns ++ [c] } := by
  refine ⟨?_, ?_, ?_, ?_⟩
  · rw [List.map_append]
    refine h.names.append ?_
    intro a ha
    obtain ⟨b, hb, rfl⟩ := List.mem_map.1 ha
    simpa using List.find?_eq_none.1 hname b hb
  · have := h.primaryKeys
    rw [List.countP_append, List.countP_singleton]
    by_cases hprimary : c.isPrimaryKey
    · obtain ⟨hcolumns, hconstraints⟩ := count_of_no_key (hkey hprimary)
      simp only [hprimary, if_true]
      omega
    · simp only [hprimary]
      exact this
  · intro k hk name hname
    rw [List.map_append]
    exact List.mem_append_left _ (h.keys k hk name hname)
  · intro a ha
    rcases List.mem_append.1 ha with ha | ha
    · exact h.columns a ha
    · obtain rfl := List.mem_singleton.1 ha
      exact hc

end TableDraft.Sound

/-! ### Reading a table -/

section Reading

variable {settings : Settings} {enums : EnumRegistry} {t t' : TableDraft} {markers : List Marker}

theorem Target.exists_ofName {type : TypeName} {entity : Json} {target : Target}
    (h : Target.ofTypeName type enums entity = .ok target) :
    ∃ name modifiers qualifier, target = Target.ofName name modifiers enums qualifier := by
  unfold ofTypeName at h
  obtain ⟨⟨qualifier, j⟩, _, h⟩ := Read.bind_eq_ok_iff.1 h
  obtain ⟨name, _, h⟩ := Read.bind_eq_ok_iff.1 h
  obtain ⟨modifiers, _, h⟩ := Read.bind_eq_ok_iff.1 h
  unfold find at h
  obtain ⟨_, _, h⟩ := Read.bind_eq_ok_iff.1 h
  cases h
  exact ⟨name, modifiers, qualifier, rfl⟩

/-- The constraints behind a column leave the other columns of its table alone. -/
theorem columnConstraints_sound {constraints : List Json} {c c' : ColumnDraft}
    (hc : c.Sound settings enums) (hkey : c.isPrimaryKey = false)
    (h : (constraints.foldlM (columnConstraint settings) (t, c)).outcome = .ok (t', c')) :
    t.SameColumns t' ∧ c'.Sound settings enums ∧ c'.name = c.name ∧
      (c'.isPrimaryKey → t.hasPrimaryKey = false) := by
  let P (draft : TableDraft × ColumnDraft) : Prop :=
    t.SameColumns draft.1 ∧ draft.2.Sound settings enums ∧ draft.2.name = c.name ∧
      (draft.2.isPrimaryKey → t.hasPrimaryKey = false)
  have hstep : ∀ draft constraint draft', constraint ∈ constraints → P draft →
      (columnConstraint settings draft constraint).outcome = .ok draft' → P draft' := by
    rintro ⟨t₁, c₁⟩ constraint ⟨t₂, c₂⟩ _ ⟨hsame, hsound, hname, hprimary⟩ hread
    obtain ⟨hsame', hchange, hadmits⟩ := columnConstraint_spec hread
    refine ⟨hsame.trans hsame', hsound.change hchange, hchange.name_eq.trans hname, ?_⟩
    intro hc₂
    rcases hadmits hc₂ with hc₁ | hnone
    · exact hprimary hc₁
    · rwa [hsame.hasPrimaryKey_eq] at hnone
  have hstart : P (t, c) := ⟨.refl _, hc, rfl, by simp [hkey]⟩
  exact Traced.foldlM_invariant (P := P) hstep hstart h

/-- A column as its element says, before the constraints behind it are read. -/
def TableDraft.newColumn (t : TableDraft) (body : Members) (target : Target) : ColumnDraft where
  name := body.get "colname"
  entity := t.name.display ++ "." ++ (body.get "colname").display
  target := target
  isRequired := (body.get "is_not_null").truthy
  isSerial := target.family = .serial
  rules := target.rules

/-- A column that is read has a name of its own, and the constraints behind it are read one after
another. -/
theorem readColumn_sets {body : Members} (h : (readColumn settings enums t body).Sets t' markers) :
    ∃ target t₁ c first, t.column? (body.get "colname") = none ∧
      Target.ofTypeName (.ofJson (body.get "typeName")) enums
        (.str (t.newColumn body target).entity) = .ok target ∧
      ((body.get "constraints").listed.foldlM (columnConstraint settings)
        (t, t.newColumn body target)).Sets (t₁, c) first ∧
      Marker.Padded first markers ∧ t' = { t₁ with columns := t₁.columns ++ [c] } := by
  unfold readColumn at h
  obtain ⟨name, hname, h⟩ := Traced.liftM_bind_sets_iff.1 h
  obtain ⟨_, ⟨⟩, rfl⟩ := Node.require_eq_ok hname
  dsimp only at h
  split at h
  · cases h.1
  · rename_i hfresh
    obtain ⟨type, htype, h⟩ := Traced.liftM_bind_sets_iff.1 h
    obtain ⟨_, ⟨⟩, rfl⟩ := Node.require_eq_ok htype
    obtain ⟨target, htarget, h⟩ := Traced.liftM_bind_sets_iff.1 h
    obtain ⟨more, hmore, h⟩ := Traced.sets_of_optional (Marker.Padded.refl _) (fun h => by
      obtain ⟨_, missed, rest, hmissed, hrest, rfl⟩ := Traced.bind_sets_iff.1 h
      obtain rfl := hmissed.2
      exact ⟨rest, Marker.padded_behind rest rfl, hrest⟩) h
    obtain ⟨constraints, hconstraints, h⟩ := Traced.liftM_bind_sets_iff.1 h
    obtain ⟨⟨t₁, c⟩, first, rest, hread, hend, rfl⟩ := Traced.bind_sets_iff.1 h
    obtain ⟨_, silent, _, hrecord, hrest, rfl⟩ := Traced.bind_sets_iff.1 hend
    obtain ⟨rfl, rfl⟩ := Traced.pure_sets_iff.1 hrest
    obtain rfl := hrecord.2
    refine ⟨target, t₁, c, first, Option.not_isSome_iff_eq_none.1 hfresh, htarget, ?_,
      (Marker.padded_before first rfl).trans hmore, rfl⟩
    rw [Json.listed_eq hconstraints]
    exact hread

/-- The elements of a table come first, and the constraints among them after all columns. -/
theorem readParts_sets {body : Members} (h : (readParts settings enums t body).Sets t' markers) :
    ∃ t₁ aside first second,
      (readElements settings enums t [] (body.get "tableElts").listed).Sets (t₁, aside) first ∧
      (aside.foldlM (tableConstraint settings) t₁).Sets t' second ∧
      Marker.Padded (first ++ second) markers := by
  unfold readParts at h
  dsimp only at h
  -- The marks for partitions and parents come first and change nothing.
  obtain ⟨more, hmore, h⟩ := Traced.sets_of_optional (Marker.Padded.refl _) (fun h => by
    obtain ⟨_, _, h⟩ := Traced.liftM_bind_sets_iff.1 h
    obtain ⟨_, lost, rest, hlost, hrest, rfl⟩ := Traced.bind_sets_iff.1 h
    obtain rfl := hlost.2
    exact ⟨rest, Marker.padded_behind rest rfl, hrest⟩) h
  obtain ⟨most, hmost, h⟩ := Traced.sets_of_optional (Marker.Padded.refl _) (fun h => by
    obtain ⟨_, _, h⟩ := Traced.liftM_bind_sets_iff.1 h
    obtain ⟨_, _, h⟩ := Traced.liftM_bind_sets_iff.1 h
    obtain ⟨_, lost, rest, hlost, hrest, rfl⟩ := Traced.bind_sets_iff.1 h
    obtain rfl := hlost.2
    exact ⟨rest, Marker.padded_behind rest rfl, hrest⟩) h
  obtain ⟨elements, helements, h⟩ := Traced.liftM_bind_sets_iff.1 h
  obtain ⟨⟨t₁, aside⟩, first, rest, hfirst, hrest, rfl⟩ := Traced.bind_sets_iff.1 h
  obtain ⟨t₂, second, rest', hsecond, hrest', rfl⟩ := Traced.bind_sets_iff.1 hrest
  obtain ⟨_, counted, _, hserial, hend, rfl⟩ := Traced.bind_sets_iff.1 hrest'
  obtain ⟨_, silent, _, hrecord, hlast, rfl⟩ := Traced.bind_sets_iff.1 hend
  obtain ⟨rfl, rfl⟩ := Traced.pure_sets_iff.1 hlast
  obtain rfl := hrecord.2
  have hcounted : counted.filter Marker.isCheck = [] :=
    hserial.filter_eq_nil (markSerial_avoids fun _ _ => rfl)
  rw [Json.listed_eq helements]
  refine ⟨t₁, aside, first, second, hfirst, hsecond, Marker.Padded.trans ?_ (hmost.trans hmore)⟩
  rw [← List.append_assoc]
  refine Marker.padded_before _ ?_
  rw [List.filter_append, hcounted]
  rfl

theorem readColumn_sound {body : Members} (ht : t.Sound settings enums)
    (h : (readColumn settings enums t body).outcome = .ok t') :
    t'.Sound settings enums ∧ t.Same t' := by
  obtain ⟨target, t₁, c, _, hfresh, htarget, hread, _, rfl⟩ := readColumn_sets ⟨h, rfl⟩
  obtain ⟨hsame, hsound, hname, hkey⟩ := columnConstraints_sound (c := t.newColumn body target)
    ⟨Target.exists_ofName htarget, by simp [TableDraft.newColumn], rfl⟩ rfl hread.1
  have hcolumn : t₁.column? c.name = none := by
    rw [TableDraft.column?, hsame.2.2.1, hname]
    exact hfresh
  refine ⟨(ht.sameColumns hsame).addColumn hsound hcolumn ?_, hsame.same⟩
  rwa [hsame.hasPrimaryKey_eq]

theorem readElements_sound {aside aside' : List Members} {elements : List Json}
    (ht : t.Sound settings enums)
    (h : (readElements settings enums t aside elements).outcome = .ok (t', aside')) :
    t'.Sound settings enums ∧ t.Same t' := by
  induction elements generalizing t aside with
  | nil =>
    cases h
    exact ⟨ht, .refl _⟩
  | cons element elements ih =>
    unfold readElements at h
    obtain ⟨⟨kind, body⟩, _, h⟩ := Traced.bind_eq_ok_iff.1 h
    dsimp only at h
    split at h
    · exact ih ht h
    · obtain ⟨t₁, ht₁, h⟩ := Traced.bind_eq_ok_iff.1 h
      have hsound : t₁.Sound settings enums ∧ t.Same t₁ := by
        unfold readElement at ht₁
        split at ht₁
        · exact readColumn_sound ht ht₁
        · obtain ⟨entity, _, ht₁⟩ := Traced.bind_eq_ok_iff.1 ht₁
          cases ht₁
          exact ⟨ht, .refl _⟩
      obtain ⟨hsound', hsame'⟩ := ih hsound.1 h
      exact ⟨hsound', hsound.2.trans hsame'⟩

theorem tableConstraints_sound {aside : List Members} (ht : t.Sound settings enums)
    (h : (aside.foldlM (tableConstraint settings) t).outcome = .ok t') :
    t'.Sound settings enums ∧ t.Same t' := by
  let P (t₁ : TableDraft) : Prop := t₁.Sound settings enums ∧ t.Same t₁
  have hstep : ∀ t₁ body t₂, body ∈ aside → P t₁ →
      (tableConstraint settings t₁ body).outcome = .ok t₂ → P t₂ := by
    rintro t₁ body t₂ _ ⟨hsound, hsame⟩ hread
    have hchange := tableConstraint_spec hread
    exact ⟨hsound.change hchange, hsame.trans hchange.same⟩
  exact Traced.foldlM_invariant (P := P) hstep ⟨ht, .refl _⟩ h

/-- A table that is read is sound and stays the same table. -/
theorem readParts_sound {body : Members} (ht : t.Sound settings enums)
    (h : (readParts settings enums t body).outcome = .ok t') :
    t'.Sound settings enums ∧ t.Same t' := by
  obtain ⟨t₁, aside, _, _, helements, hconstraints, _⟩ := readParts_sets ⟨h, rfl⟩
  obtain ⟨hsound, hsame⟩ := readElements_sound ht helements.1
  obtain ⟨hsound', hsame'⟩ := tableConstraints_sound hsound hconstraints.1
  exact ⟨hsound', hsame.trans hsame'⟩

end Reading

/-! ### Statements -/

/-- What holds of the tables found so far. -/
structure ModelDraft.Sound (settings : Settings) (enums : EnumRegistry) (m : ModelDraft) :
    Prop where
  names : Json.Distinct (m.tables.map TableDraft.name)
  tables : ∀ t ∈ m.tables, t.Sound settings enums

section Statements

variable {settings : Settings} {enums : EnumRegistry} {m m' : ModelDraft}

theorem ModelDraft.Sound.sameTables (hm : m.Sound settings enums) (h : m.SameTables m') :
    m'.Sound settings enums := by
  obtain ⟨tables, htables, rfl⟩ := h
  have hnames : tables.map TableDraft.name = m.tables.map TableDraft.name :=
    map_eq_of_forall₂ htables fun _ _ _ hsame => hsame.1
  refine ⟨hnames ▸ hm.names, ?_⟩
  intro t ht
  obtain ⟨before, hbefore, hsame⟩ := exists_of_forall₂ htables.flip ht
  exact (hm.tables before hbefore).sameColumns hsame

/-- Whatever becomes of a statement, a sound draft stays sound. -/
theorem ModelDraft.Sound.step (hm : m.Sound settings enums) {position : Nat} {statement : Json}
    {skipped : List Marker} {fate : Fate}
    (h : m.Step settings enums position statement m' skipped fate) : m'.Sound settings enums := by
  cases h with
  | @table name body t lost hfresh hparts =>
    have hempty : TableDraft.Sound settings enums { name, position } :=
      ⟨List.Pairwise.nil, Nat.zero_le 1, by simp, by simp⟩
    obtain ⟨hsound, hsame⟩ := readParts_sound hempty hparts
    refine ⟨?_, ?_⟩
    · rw [List.map_append]
      refine hm.names.append ?_
      intro a ha
      obtain ⟨b, hb, rfl⟩ := List.mem_map.1 ha
      have hnone := List.find?_eq_none.1 hfresh b hb
      simpa [hsame.1] using hnone
    · intro a ha
      rcases List.mem_append.1 ha with ha | ha
      · exact hm.tables a ha
      · obtain rfl := List.mem_singleton.1 ha
        exact hsound.sameColumns (.refl _)
  | index hsame _ =>
    obtain ⟨names, tables⟩ := hm.sameTables hsame
    exact ⟨names, tables⟩
  | unsupported _ => exact ⟨hm.names, hm.tables⟩
  | enum => exact hm
  | skipped _ => exact hm

theorem readStatements_sound (hm : m.Sound settings enums) {position : Nat}
    {statements : List Json}
    (h : (readStatements settings enums m position statements).outcome = .ok m') :
    m'.Sound settings enums := by
  induction statements generalizing m position with
  | nil =>
    cases h
    exact hm
  | cons statement statements ih =>
    obtain ⟨m₁, hm₁, h⟩ := Traced.bind_eq_ok_iff.1 h
    obtain ⟨fate, _, hstep⟩ := readStatement_step ⟨hm₁, rfl⟩
    exact ih (hm.step hstep) h

/-- Looking up references sets markers on tables and does nothing else. -/
theorem findReferences_sets {table : Json} {found found' : FoundColumns}
    {columns : List ColumnDraft} {markers : List Marker}
    (h : (findReferences table m found columns).Sets (m', found') markers) :
    markers.filter Marker.isSkippedIndex = [] ∧ m.SameTables m' := by
  induction columns generalizing m found markers with
  | nil =>
    obtain ⟨heq, rfl⟩ := Traced.pure_sets_iff.1 h
    cases heq
    exact ⟨rfl, .refl _⟩
  | cons c columns ih =>
    unfold findReferences at h
    split at h
    · exact ih h
    · exact ih h
    · obtain ⟨m₁, first, rest, hmark, hrest, rfl⟩ := Traced.bind_sets_iff.1 h
      obtain ⟨rfl, hsame⟩ := ModelDraft.markTable_sets hmark
      obtain ⟨havoids, hsame'⟩ := ih hrest
      exact ⟨by rw [List.filter_append, havoids]; rfl, hsame.trans hsame'⟩

theorem findAllReferences_sets {found found' : FoundColumns} {tables : List TableDraft}
    {markers : List Marker} (h : (findAllReferences m found tables).Sets (m', found') markers) :
    markers.filter Marker.isSkippedIndex = [] ∧ m.SameTables m' := by
  induction tables generalizing m found markers with
  | nil =>
    obtain ⟨heq, rfl⟩ := Traced.pure_sets_iff.1 h
    cases heq
    exact ⟨rfl, .refl _⟩
  | cons t tables ih =>
    obtain ⟨⟨m₁, found₁⟩, first, rest, hfirst, hrest, rfl⟩ := Traced.bind_sets_iff.1 h
    obtain ⟨havoids, hsame⟩ := findReferences_sets hfirst
    obtain ⟨havoids', hsame'⟩ := ih hrest
    exact ⟨by rw [List.filter_append, havoids, havoids']; rfl, hsame.trans hsame'⟩

end Statements

/-! ### The finished model -/

/-- What holds of a column: its rules are those of its type and of the checks that were
found to be rules, its enumeration is a declared one, and a reference names a table and a
column. -/
structure Column.Sound (settings : Settings) (enums : EnumRegistry) (c : Column) : Prop where
  family : (c.target enums).family = c.family
  declared : ∀ name ∈ c.enumName, enums.contains name
  foreignKey : ∀ fk ∈ c.foreignKey, fk.table ≠ "" ∧ fk.column ≠ ""
  classified : ∀ k ∈ c.checks, k.classified = (k.rules? settings c.family (.str c.name)).isSome
  rules : c.rules = (c.target enums).rules.withChecks
    (c.checks.filterMap (·.rules? settings c.family (.str c.name)))

/-- What holds of a table. -/
structure Table.Sound (settings : Settings) (enums : EnumRegistry) (t : Table) : Prop where
  names : (t.columns.map Column.name).Nodup
  primaryKeys : t.columns.countP (·.isPrimaryKey) + t.constraints.countP (·.isPrimary) ≤ 1
  keys : ∀ k ∈ t.constraints, ∀ name ∈ k.columns, name ∈ t.columns.map Column.name
  columns : ∀ c ∈ t.columns, c.Sound settings enums

/-- What holds of a model. -/
structure Model.Sound (settings : Settings) (m : Model) : Prop where
  names : (m.tables.map Table.name).Nodup
  enums : ∀ e ∈ m.enums, e.name ≠ ""
  tables : ∀ t ∈ m.tables, t.Sound settings m.enums

section Finish

variable {settings : Settings} {enums : EnumRegistry}

/-- The type of a finished column is found again from what is kept of it. -/
theorem Column.target_eq {c : Column} {name : String} {qualifier : Json} {target : Target}
    (htarget : target = Target.ofName name c.modifiers enums qualifier)
    (hsource : c.sourceType = target.sourceName) (henum : c.enumName = target.enumName) :
    c.target enums = target := by
  rw [Target.ofName] at htarget
  split at htarget
  · rename_i hisEnum
    have hcontains : enums.contains name := (Bool.and_eq_true_iff.1 hisEnum).2
    subst htarget
    simp [Column.target, henum, Target.ofSpec, Target.ofName, Target.isEnum, hcontains]
  · subst htarget
    have hnone : c.enumName = none := henum
    have hsource : c.sourceType = LetterCase.lower (Text.trim name) := hsource
    rw [Column.target, hnone]
    simp only [Target.ofName, hsource, LetterCase.lower_trim_idem]
    rfl

/-- The rules of a type stand on the innermost items. -/
theorem Column.target_rules_eq (c : Column) (enums : EnumRegistry) :
    ∃ values, (c.target enums).rules = (RuleSet.ofValues values).arrayOf c.modifiers.arrayDepth := by
  rw [Column.target]
  split
  · rw [Target.ofName]
    split <;> exact ⟨_, rfl⟩
  · rw [Target.ofName]
    split <;> exact ⟨_, rfl⟩

theorem Target.ofName_modifiers (name : String) (modifiers : Modifiers) (enums : EnumRegistry)
    (qualifier : Json) : (ofName name modifiers enums qualifier).modifiers = modifiers := by
  rw [ofName]
  split <;> rfl

/-- An enumeration that a type has is a declared one. -/
theorem Target.contains_of_enumName {source name : String} {modifiers : Modifiers}
    {qualifier : Json} (h : (ofName source modifiers enums qualifier).enumName = some name) :
    enums.contains name := by
  rw [ofName] at h
  split at h
  · rename_i hisEnum
    cases h
    exact (Bool.and_eq_true_iff.1 hisEnum).2
  · cases h

/-- A reference that is kept names a table and a column. -/
theorem ColumnDraft.names_of_finishedKey {d : ColumnDraft} {found : Json} {key : Option ForeignKey}
    (h : d.finishedKey found = .ok key) : ∀ fk ∈ key, fk.table ≠ "" ∧ fk.column ≠ "" := by
  unfold finishedKey at h
  split at h
  · cases h
    simp
  · split at h
    · obtain ⟨fk, hfk, rfl⟩ := Read.map_eq_ok_iff.1 h
      unfold ForeignKey.Draft.resolve at hfk
      obtain ⟨f, column, hf, hcolumn, rfl⟩ :=
        Lenient.and_eq_ok_iff.1 (Lenient.toRead_eq_ok_iff.1 hfk)
      obtain ⟨table, htable, rfl⟩ := Lenient.map_eq_ok_iff.1 hf
      have htable := Lenient.fullText_eq_ok_iff.1 (Lenient.under_eq_ok_iff.1 htable)
      have hcolumn := Lenient.fullText_eq_ok_iff.1 (Lenient.under_eq_ok_iff.1 hcolumn)
      rintro fk ⟨⟩
      exact ⟨htable.2, hcolumn.2⟩
    · cases h
      simp

theorem ColumnDraft.Sound.finish_sound {d : ColumnDraft} {found : Json} {c : Column}
    (hd : d.Sound settings enums) (h : d.finish found = .ok c) :
    c.Sound settings enums ∧ d.name = .str c.name ∧ c.isPrimaryKey = d.isPrimaryKey := by
  unfold ColumnDraft.finish at h
  obtain ⟨key, hkey, h⟩ := Read.bind_eq_ok_iff.1 h
  obtain ⟨name, hname, h⟩ := Read.bind_eq_ok_iff.1 h
  cases h
  have hname : d.name = .str name :=
    Lenient.eq_str_of_fullText (Lenient.under_eq_ok_iff.1 (Lenient.toRead_eq_ok_iff.1 hname))
  obtain ⟨⟨source, modifiers, qualifier, htarget⟩, hclassified, hrules⟩ := hd
  have hmodifiers : d.target.modifiers = modifiers := by
    rw [htarget, Target.ofName_modifiers]
  generalize hc : Column.mk name _ _ _ _ _ _ _ _ _ _ _ _ = c
  have hfind : c.target enums = d.target := by
    subst hc
    rw [← hmodifiers] at htarget
    exact Column.target_eq htarget rfl rfl
  subst hc
  rw [hname] at hclassified hrules
  refine ⟨⟨?_, ?_, names_of_finishedKey hkey, hclassified, ?_⟩, hname, rfl⟩
  · rw [hfind]
  · intro name henum
    exact Target.contains_of_enumName (htarget ▸ henum)
  · rw [hfind]
    exact hrules

theorem finish_columns_sound {found : String → Json} {ds : List ColumnDraft} {cs : List Column}
    (h : List.Forall₂ (fun (d : ColumnDraft) c => d.finish (found d.entity) = .ok c) ds cs)
    (hds : ∀ d ∈ ds, d.Sound settings enums) :
    ds.map ColumnDraft.name = (cs.map Column.name).map .str ∧
      cs.countP (·.isPrimaryKey) = ds.countP (·.isPrimaryKey) ∧
      ∀ c ∈ cs, c.Sound settings enums := by
  induction h with
  | nil => exact ⟨rfl, rfl, by simp⟩
  | cons head _ ih =>
    obtain ⟨hd, hds⟩ := List.forall_mem_cons.1 hds
    obtain ⟨hnames, hcount, hsound⟩ := ih hds
    obtain ⟨hc, hname, hkey⟩ := hd.finish_sound head
    refine ⟨?_, ?_, List.forall_mem_cons.2 ⟨hc, hsound⟩⟩
    · rw [List.map_cons, List.map_cons, List.map_cons, hname, hnames]
    · rw [List.countP_cons, List.countP_cons, hcount, hkey]

theorem TableDraft.Sound.finish_sound {d : TableDraft} {found : String → Json} {t : Table}
    (hd : d.Sound settings enums) (h : d.finish found = .ok t) :
    t.Sound settings enums ∧ d.name = .str t.name := by
  unfold TableDraft.finish at h
  obtain ⟨columns, hcolumns, h⟩ := Read.bind_eq_ok_iff.1 h
  obtain ⟨name, hname, h⟩ := Read.bind_eq_ok_iff.1 h
  cases h
  have hname : d.name = .str name :=
    Lenient.eq_str_of_fullText (Lenient.under_eq_ok_iff.1 (Lenient.toRead_eq_ok_iff.1 hname))
  obtain ⟨hnames, hcount, hsound⟩ :=
    finish_columns_sound (Read.mapM_eq_ok_iff.1 hcolumns) hd.columns
  have hdistinct := hd.names
  have hprimary := hd.primaryKeys
  have hkeys := hd.keys
  rw [hnames] at hdistinct hkeys
  rw [← hcount] at hprimary
  refine ⟨⟨hdistinct.nodup, hprimary, ?_, hsound⟩, hname⟩
  intro k hk key hkey
  obtain ⟨s, hs, heq⟩ := List.mem_map.1 (hkeys k hk key hkey)
  cases heq
  exact hs

theorem finish_tables_sound {found : String → Json} {ds : List TableDraft} {ts : List Table}
    (h : List.Forall₂ (fun (d : TableDraft) t => d.finish found = .ok t) ds ts)
    (hds : ∀ d ∈ ds, d.Sound settings enums) :
    ds.map TableDraft.name = (ts.map Table.name).map .str ∧ ∀ t ∈ ts, t.Sound settings enums := by
  induction h with
  | nil => exact ⟨rfl, by simp⟩
  | cons head _ ih =>
    obtain ⟨hd, hds⟩ := List.forall_mem_cons.1 hds
    obtain ⟨hnames, hsound⟩ := ih hds
    obtain ⟨ht, hname⟩ := hd.finish_sound head
    refine ⟨?_, List.forall_mem_cons.2 ⟨ht, hsound⟩⟩
    rw [List.map_cons, List.map_cons, List.map_cons, hname, hnames]

theorem EnumType.name_ne_of_ofStatement {position : Nat} {statement : Json} {e : EnumType}
    (h : ofStatement enums position statement = .ok e) : e.name ≠ "" := by
  unfold ofStatement at h
  obtain ⟨body, _, h⟩ := Read.bind_eq_ok_iff.1 h
  obtain ⟨given, _, h⟩ := Read.bind_eq_ok_iff.1 h
  obtain ⟨names, _, h⟩ := Read.bind_eq_ok_iff.1 h
  split at h
  · cases h
  · obtain ⟨key, _, h⟩ := Read.bind_eq_ok_iff.1 h
    extract_lets known at h
    split at h
    · cases h
    · obtain ⟨labels, _, h⟩ := Read.bind_eq_ok_iff.1 h
      unfold ofParts at h
      obtain ⟨f, _, hf, _, rfl⟩ := Lenient.and_eq_ok_iff.1 (Lenient.toRead_eq_ok_iff.1 h)
      obtain ⟨name, hname, rfl⟩ := Lenient.map_eq_ok_iff.1 hf
      exact (Lenient.fullText_eq_ok_iff.1 (Lenient.under_eq_ok_iff.1 hname)).2

/-- Every enumeration that is declared has a name. -/
theorem EnumRegistry.name_ne_of_declared {statements : List Json}
    (h : (declared statements).outcome = .ok enums) : ∀ e ∈ enums, e.name ≠ "" := by
  obtain ⟨added, rfl, hadded⟩ := declaredFrom_spec h
  intro e he
  obtain ⟨_, _, _, _, earlier, hof⟩ := exists_of_forall₂ hadded.flip he
  exact EnumType.name_ne_of_ofStatement hof

/-- **Every model that is built is sound.** -/
theorem Model.build_sound {tree : Json} {m : Model} (h : (build settings tree).outcome = .ok m) :
    m.Sound settings := by
  unfold build at h
  obtain ⟨statements, _, h⟩ := Traced.bind_eq_ok_iff.1 h
  obtain ⟨enums, henums, h⟩ := Traced.bind_eq_ok_iff.1 h
  obtain ⟨⟨⟨tables, draft⟩, markers⟩, hread, h⟩ := Traced.bind_eq_ok_iff.1 h
  cases h
  obtain ⟨hread, _⟩ := Traced.collecting_eq_ok_iff.1 hread
  unfold read at hread
  obtain ⟨m₁, hm₁, hread⟩ := Traced.bind_eq_ok_iff.1 hread
  obtain ⟨⟨m₂, found⟩, hm₂, hread⟩ := Traced.bind_eq_ok_iff.1 hread
  obtain ⟨tables', htables, hread⟩ := Traced.bind_eq_ok_iff.1 hread
  cases hread
  have hempty : ModelDraft.Sound settings enums {} := ⟨List.Pairwise.nil, by simp⟩
  obtain ⟨_, hsame⟩ := findAllReferences_sets ⟨hm₂, rfl⟩
  have hsound := (readStatements_sound hempty hm₁).sameTables hsame
  obtain ⟨hnames, htables⟩ := finish_tables_sound (Traced.mapM_eq_ok_iff.1 htables) hsound.tables
  have hdistinct := hsound.names
  rw [hnames] at hdistinct
  exact ⟨hdistinct.nodup, EnumRegistry.name_ne_of_declared henums, htables⟩

end Finish

/-! ### Finding columns -/

/-- An item with a name of its own is the first with that name. -/
theorem find?_of_nodup {α : Type} {name : α → String} {as : List α} (h : (as.map name).Nodup)
    {a : α} (ha : a ∈ as) : as.find? (fun b => name b = name a) = some a := by
  induction as with
  | nil => cases ha
  | cons b as ih =>
    obtain ⟨hfresh, hnodup⟩ := List.nodup_cons.1 h
    rw [List.find?_cons]
    rcases List.mem_cons.1 ha with rfl | ha
    · simp
    · have hne : name b ≠ name a := fun heq => hfresh (heq ▸ List.mem_map_of_mem ha)
      simp only [hne, decide_false]
      exact ih hnodup ha

theorem Model.Sound.column?_eq {settings : Settings} {m : Model} (h : m.Sound settings) {t : Table}
    (ht : t ∈ m.tables) {c : Column} (hc : c ∈ t.columns) : m.column? t.name c.name = some c := by
  rw [column?, table?, find?_of_nodup h.names ht, Option.bind_some, Table.column?,
    find?_of_nodup (h.tables t ht).names hc]

end StrictDdl
