import StrictDdl.Proofs.Validation

/-! Merging as an operation.

The later set wins, rule by rule, and if it is for arrays its nesting takes the place of the
other one as a whole. So merging is associative, and the empty rule set changes nothing
where items belong to arrays (`RuleSet.IsProper`). Of many rule sets the last one with a rule of a
kind sets it, and the last one for arrays gives the nesting; no grouping makes a difference
(`RuleSet.merge_grouped`). -/
namespace StrictDdl

/-- What the rule of a kind is given. -/
def RuleKind.Operand : RuleKind → Type
  | .minimum => Number
  | .maximum => Number
  | .exclusiveMinimum => Number
  | .exclusiveMaximum => Number
  | .enum => List Scalar
  | .pattern => String
  | .maxLength => Int
  | .multipleOf => Binary64

/-! ### Value rules -/

namespace ValueRules

/-- The rule of a kind, if it is set. -/
def get? (r : ValueRules) : (kind : RuleKind) → Option kind.Operand
  | .minimum => r.minimum
  | .maximum => r.maximum
  | .exclusiveMinimum => r.exclusiveMinimum
  | .exclusiveMaximum => r.exclusiveMaximum
  | .enum => r.enumValues
  | .pattern => r.pattern
  | .maxLength => r.maxLength
  | .multipleOf => r.multipleOf

variable (a b c : ValueRules)

theorem eq_of_get? {a b : ValueRules} (h : ∀ kind, a.get? kind = b.get? kind) : a = b := by
  cases a
  cases b
  simp only [ValueRules.mk.injEq]
  exact ⟨h .minimum, h .maximum, h .exclusiveMinimum, h .exclusiveMaximum, h .enum, h .pattern,
    h .maxLength, h .multipleOf⟩

@[simp] theorem get?_empty (kind : RuleKind) : ({} : ValueRules).get? kind = none := by
  cases kind <;> rfl

@[simp] theorem get?_merge (kind : RuleKind) :
    (a.merge b).get? kind = (b.get? kind).or (a.get? kind) := by
  cases kind <;> rfl

theorem merge_assoc : (a.merge b).merge c = a.merge (b.merge c) :=
  eq_of_get? fun kind => by simp only [get?_merge, Option.or_assoc]

theorem merge_self : a.merge a = a :=
  eq_of_get? fun kind => by rw [get?_merge, Option.or_self]

theorem empty_merge : merge {} a = a :=
  eq_of_get? fun kind => by rw [get?_merge, get?_empty, Option.or_none]

theorem merge_empty : a.merge {} = a :=
  eq_of_get? fun kind => by rw [get?_merge, get?_empty, Option.none_or]

theorem isEmpty_iff : a.isEmpty ↔ ∀ kind, a.get? kind = none := by
  rw [isEmpty, decide_eq_true_eq]
  constructor
  · rintro rfl
    exact get?_empty
  · intro h
    exact eq_of_get? fun kind => by rw [h, get?_empty]

theorem isEmpty_merge : (a.merge b).isEmpty ↔ a.isEmpty ∧ b.isEmpty := by
  simp only [isEmpty_iff, get?_merge, Option.or_eq_none_iff, forall_and]
  exact and_comm

end ValueRules

/-! ### Rule sets -/

namespace RuleSet

/-- Only rules for arrays have rules for items. -/
def IsProper (r : RuleSet) : Prop := r.items.isSome → r.isArray

instance (r : RuleSet) : Decidable r.IsProper :=
  inferInstanceAs (Decidable (r.items.isSome → r.isArray))

theorem isProper_empty : IsProper {} := by decide

theorem isProper_ofValues (values : ValueRules) : (ofValues values).IsProper := by
  intro h
  cases h

theorem IsProper.arrayOf {r : RuleSet} (h : r.IsProper) (depth : Nat) :
    (r.arrayOf depth).IsProper := by
  cases depth with
  | zero => exact h
  | succ depth => exact fun _ => rfl

theorem IsProper.items_eq_none {r : RuleSet} (h : r.IsProper) (harray : r.isArray = false) :
    r.items = none := by
  by_contra hsome
  rw [h (Option.isSome_iff_ne_none.2 hsome)] at harray
  cases harray

theorem IsProper.merge {a b : RuleSet} (ha : a.IsProper) : (a.merge b).IsProper := by
  intro h
  show (b.isArray || a.isArray) = true
  cases hb : b.isArray with
  | true => rfl
  | false =>
    rw [Bool.false_or]
    apply ha
    rwa [RuleSet.merge, hb] at h

/-! The laws. -/

section Laws

variable (a b c : RuleSet)

theorem merge_assoc : (a.merge b).merge c = a.merge (b.merge c) := by
  simp only [merge, RuleSet.mk.injEq]
  refine ⟨ValueRules.merge_assoc .., (Bool.or_assoc ..).symm, ?_⟩
  by_cases hc : c.isArray
  · simp [hc]
  · simp [hc]

theorem merge_self : a.merge a = a := by
  obtain ⟨values, isArray, items⟩ := a
  simp only [merge, RuleSet.mk.injEq, Bool.or_self, ite_self, and_true]
  exact values.merge_self

theorem merge_empty : a.merge {} = a := by
  obtain ⟨values, isArray, items⟩ := a
  simp only [merge, RuleSet.mk.injEq]
  exact ⟨values.merge_empty, rfl, rfl⟩

theorem empty_merge {a : RuleSet} (h : a.IsProper) : merge {} a = a := by
  obtain ⟨values, isArray, items⟩ := a
  simp only [merge, RuleSet.mk.injEq]
  refine ⟨values.empty_merge, Bool.or_false .., ?_⟩
  cases isArray with
  | true => rfl
  | false => exact (h.items_eq_none rfl).symm

theorem isEmpty_merge : (a.merge b).isEmpty ↔ a.isEmpty ∧ b.isEmpty := by
  simp only [isEmpty, merge, Bool.and_eq_true, Bool.not_eq_true', Bool.or_eq_false_iff,
    ValueRules.isEmpty_merge]
  tauto

end Laws

/-! ### Many rule sets -/

/-- The merge of some rule sets, one after another. -/
def mergeAll (rs : List RuleSet) : RuleSet := rs.foldl merge {}

theorem mergeAll_concat (rs : List RuleSet) (r : RuleSet) :
    mergeAll (rs ++ [r]) = (mergeAll rs).merge r := List.foldl_concat ..

theorem mergeAll_append (as : List RuleSet) {bs : List RuleSet} (h : ∀ r ∈ bs, r.IsProper) :
    mergeAll (as ++ bs) = (mergeAll as).merge (mergeAll bs) := by
  induction bs using List.reverseRecOn with
  | nil => rw [List.append_nil, mergeAll, mergeAll, List.foldl_nil, merge_empty]
  | append_singleton bs r ih =>
    rw [← List.append_assoc, mergeAll_concat, mergeAll_concat,
      ih fun s hs => h s (List.mem_append_left _ hs), merge_assoc]

/-- Rule sets put together by merging two at a time. -/
inductive Grouping where
  | nothing
  | one (r : RuleSet)
  | both (earlier later : Grouping)

namespace Grouping

/-- The rule sets in order. -/
def members : Grouping → List RuleSet
  | .nothing => []
  | .one r => [r]
  | .both earlier later => earlier.members ++ later.members

def merged : Grouping → RuleSet
  | .nothing => {}
  | .one r => r
  | .both earlier later => earlier.merged.merge later.merged

/-- No grouping makes a difference. -/
theorem merged_eq {g : Grouping} (h : ∀ r ∈ g.members, r.IsProper) :
    g.merged = mergeAll g.members := by
  induction g with
  | nothing => rfl
  | one r => exact (empty_merge (h r (List.mem_singleton_self r))).symm
  | both earlier later ihearlier ihlater =>
    obtain ⟨hearlier, hlater⟩ := List.forall_mem_append.1 h
    rw [merged, ihearlier hearlier, ihlater hlater, members, mergeAll_append _ hlater]

end Grouping

/-- The last of some rule sets that is for arrays. -/
def lastArray? (rs : List RuleSet) : Option RuleSet := (rs.filter (·.isArray)).getLast?

theorem lastArray?_concat (rs : List RuleSet) (r : RuleSet) :
    lastArray? (rs ++ [r]) = if r.isArray then some r else lastArray? rs := by
  rw [lastArray?, List.filter_append]
  cases hr : r.isArray with
  | true => simp [hr]
  | false => simp [hr, lastArray?]

/-- The rule set that some rule sets amount to: the last one with a rule of a kind sets it,
and the last one for arrays says how deep they are and what their items are. -/
structure Combines (rs : List RuleSet) (r : RuleSet) : Prop where
  rule (kind : RuleKind) : r.values.get? kind = (rs.filterMap (·.values.get? kind)).getLast?
  isArray : r.isArray = (lastArray? rs).isSome
  items : r.items = (lastArray? rs).bind RuleSet.items
  arrayDepth : r.arrayDepth = ((lastArray? rs).map RuleSet.arrayDepth).getD 0
  innermost : ∀ last ∈ lastArray? rs, last.items.isSome → r.innermost = last.innermost
  /-- Without items there is nothing inside. -/
  outermost : (∀ last ∈ lastArray? rs, last.items = none) → r.innermost = r

theorem get?_mergeAll (rs : List RuleSet) (kind : RuleKind) :
    (mergeAll rs).values.get? kind = (rs.filterMap (·.values.get? kind)).getLast? := by
  induction rs using List.reverseRecOn with
  | nil => exact ValueRules.get?_empty kind
  | append_singleton rs r ih =>
    rw [mergeAll_concat, merge, ValueRules.get?_merge, ih, List.filterMap_append]
    cases hr : r.values.get? kind with
    | none => simp [hr]
    | some operand => simp [hr]

/-- The nesting is that of the last rule set for arrays. -/
theorem nesting_mergeAll (rs : List RuleSet) :
    (mergeAll rs).isArray = (lastArray? rs).isSome ∧
      (mergeAll rs).items = (lastArray? rs).bind RuleSet.items := by
  induction rs using List.reverseRecOn with
  | nil => exact ⟨rfl, rfl⟩
  | append_singleton rs r ih =>
    obtain ⟨hisArray, hitems⟩ := ih
    rw [mergeAll_concat, lastArray?_concat, merge]
    by_cases hr : r.isArray
    · simp [hr]
    · simp [hr, hisArray, hitems]

/-! What the nesting says of a rule set. -/

section Nesting

variable {r a b : RuleSet}

theorem arrayDepth_of_not_isArray (h : r.isArray = false) : r.arrayDepth = 0 := by
  obtain ⟨values, isArray, items⟩ := r
  dsimp only at h
  subst h
  rfl

theorem innermost_of_items {items : RuleSet} (harray : r.isArray) (hitems : r.items = some items) :
    r.innermost = items.innermost := by
  obtain ⟨values, isArray, _⟩ := r
  dsimp only at harray hitems
  subst harray hitems
  rfl

theorem innermost_eq_self (h : r.isArray = false ∨ r.items = none) : r.innermost = r := by
  obtain ⟨values, isArray, items⟩ := r
  rcases h with h | h
  · dsimp only at h
    subst h
    rfl
  · dsimp only at h
    subst h
    cases isArray <;> rfl

/-- Rule sets with the same nesting are equally deep. -/
theorem arrayDepth_congr (hisArray : a.isArray = b.isArray) (hitems : a.items = b.items) :
    a.arrayDepth = b.arrayDepth := by
  obtain ⟨_, isArray, items⟩ := a
  obtain ⟨_, _, _⟩ := b
  dsimp only at hisArray hitems
  subst hisArray hitems
  cases isArray <;> cases items <;> rfl

end Nesting

theorem isArray_of_lastArray? {rs : List RuleSet} {last : RuleSet} (h : lastArray? rs = some last) :
    last.isArray :=
  (List.mem_filter.1 (List.mem_of_getLast? h)).2

/-- **Rule sets that are merged one after another amount to their last rules and their last
nesting.** -/
theorem combines_mergeAll (rs : List RuleSet) : Combines rs (mergeAll rs) := by
  obtain ⟨hisArray, hitems⟩ := nesting_mergeAll rs
  cases hlast : lastArray? rs with
  | none =>
    have hplain : (mergeAll rs).isArray = false := by rw [hisArray, hlast]; rfl
    refine ⟨get?_mergeAll rs, hisArray, hitems, ?_, ?_, fun _ => innermost_eq_self (.inl hplain)⟩
    · rw [hlast]
      exact arrayDepth_of_not_isArray hplain
    · rw [hlast]
      simp
  | some last =>
    have hboth : (mergeAll rs).isArray = last.isArray := by
      rw [hisArray, hlast, isArray_of_lastArray? hlast]
      rfl
    have hsame : (mergeAll rs).items = last.items := by rw [hitems, hlast]; rfl
    refine ⟨get?_mergeAll rs, hisArray, hitems, ?_, ?_, ?_⟩
    · rw [hlast]
      exact arrayDepth_congr hboth hsame
    · rintro last' hlast' hsome
      cases hlast.symm.trans hlast'
      obtain ⟨items, hin⟩ := Option.isSome_iff_exists.1 hsome
      rw [innermost_of_items (isArray_of_lastArray? hlast) hin,
        innermost_of_items (hboth.trans (isArray_of_lastArray? hlast)) (hsame.trans hin)]
    · intro hnone
      exact innermost_eq_self (.inr (hsame.trans (hnone last hlast)))

end RuleSet

/-! ### The rules of a column -/

namespace Column

variable {settings : Settings} {enums : EnumRegistry} {c : Column}

/-- Types and checks only have rules for items where there is an array. -/
theorem isProper_of_source {r : RuleSet} (h : r ∈ c.ruleSources settings enums) : r.IsProper := by
  rw [ruleSources, List.mem_cons, List.mem_map] at h
  rcases h with rfl | ⟨values, _, rfl⟩
  · obtain ⟨values, hvalues⟩ := c.target_rules_eq enums
    rw [hvalues]
    exact (RuleSet.isProper_ofValues values).arrayOf _
  · exact RuleSet.isProper_ofValues values

/-- The rules of a column are those of its type and its checks, merged in order. -/
theorem Sound.rules_eq_mergeAll (h : c.Sound settings enums) :
    c.rules = RuleSet.mergeAll (c.ruleSources settings enums) := by
  have hproper : ∀ r ∈ c.ruleSources settings enums, r.IsProper := fun r => isProper_of_source
  have htype := hproper _ (List.mem_cons_self ..)
  rw [h.rules, ← h.checkRules_eq, ruleSources, RuleSet.mergeAll, List.foldl_cons,
    RuleSet.empty_merge htype, List.foldl_map]
  rfl

end Column

namespace RuleSet

/-- **Merging is a monoid in which the right side wins.** It is associative and idempotent, the
empty rule set is neutral, and only empty rule sets give an empty one. In any grouping some rule
sets give the same: the last rule of each kind and the nesting of the last array. So the
rules of a column are those of its type and its checks in any grouping. -/
theorem merge_rightBiased :
    IsProper {} ∧
    (∀ a b c : RuleSet, a.IsProper → b.IsProper → c.IsProper →
      (a.merge b).IsProper ∧ (a.merge b).merge c = a.merge (b.merge c) ∧ a.merge a = a ∧
        merge {} a = a ∧ a.merge {} = a ∧ ((a.merge b).isEmpty ↔ a.isEmpty ∧ b.isEmpty)) ∧
    (∀ g : Grouping, (∀ r ∈ g.members, r.IsProper) →
      g.merged = mergeAll g.members ∧ Combines g.members g.merged) ∧
    ∀ (settings : Settings) (tree : Json) (m : Model), (Model.build settings tree).outcome = .ok m →
      ∀ t ∈ m.tables, ∀ c ∈ t.columns, (∀ r ∈ c.ruleSources settings m.enums, r.IsProper) ∧
        ∀ g : Grouping, g.members = c.ruleSources settings m.enums → g.merged = c.rules := by
  refine ⟨isProper_empty, fun a b c ha _ _ => ?_, fun g hg => ?_,
    fun settings tree m hm t ht c hc => ?_⟩
  · exact ⟨ha.merge, merge_assoc .., merge_self a, empty_merge ha, merge_empty a,
      isEmpty_merge ..⟩
  · have hmerged := Grouping.merged_eq hg
    refine ⟨hmerged, ?_⟩
    rw [hmerged]
    exact combines_mergeAll g.members
  · have hsound := ((Model.build_sound hm).tables t ht).columns c hc
    have hproper : ∀ r ∈ c.ruleSources settings m.enums, r.IsProper :=
      fun r hr => Column.isProper_of_source hr
    refine ⟨hproper, fun g hg => ?_⟩
    rw [Grouping.merged_eq (hg ▸ hproper), hg, hsound.rules_eq_mergeAll]

end RuleSet

namespace Sample

def between (low high : Int) : RuleSet :=
  .ofValues { minimum := some (.int low), maximum := some (.int high) }

/-- The rules of short texts in a grid. -/
def shortTexts : RuleSet := (RuleSet.ofValues { maxLength := some 3 }).arrayOf 2

/-- A range, then a grid, then a range that wins over the first. -/
def ranges : RuleSet.Grouping :=
  .both (.one (between 0 9)) (.both (.one shortTexts) (.both .nothing (.one (between 1 5))))

end Sample

theorem RuleSet.ranges_merged :
    (Sample.ranges.merged = mergeAll [Sample.between 0 9, Sample.shortTexts, Sample.between 1 5] ∧
      Combines Sample.ranges.members Sample.ranges.merged) ∧
    (merge {} Sample.shortTexts = Sample.shortTexts ∧
      Sample.shortTexts.merge Sample.shortTexts = Sample.shortTexts) ∧
    ∃ m, (Model.build {} Sample.amounts).outcome = .ok m ∧ ∀ t ∈ m.tables, ∀ c ∈ t.columns,
      ∀ g : Grouping, g.members = c.ruleSources {} m.enums → g.merged = c.rules := by
  obtain ⟨_, hlaws, hgroupings, hcolumns⟩ := merge_rightBiased
  obtain ⟨_, _, hself, hneutral, _, _⟩ :=
    hlaws Sample.shortTexts (Sample.between 0 9) (Sample.between 1 5) (by decide) (by decide)
      (by decide)
  refine ⟨hgroupings Sample.ranges (by decide), ⟨hneutral, hself⟩, ?_⟩
  have hok : (Model.build {} Sample.amounts).outcome.isOk = true := by decide +kernel
  obtain ⟨m, hm⟩ := Read.exists_of_isOk hok
  exact ⟨m, hm, fun t ht c hc => (hcolumns {} Sample.amounts m hm t ht c hc).2⟩

end StrictDdl
