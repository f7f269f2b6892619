import StrictDdl.Proofs.Expr.Meaning
import StrictDdl.Proofs.Rules

/-! Checks that are bounds.

A check that is taken for bounds says exactly what the bounds say, of every exact number
(`Check.classify_range`): the comparisons on either side of the column, the stricter of two bounds
(`Bounds.contains_meet`), and on a column of whole numbers the next whole bound in place of a
strict one (`Bounds.keeps_rules_iff`). -/
namespace StrictDdl

open Sql

/-! ### Numbers by their exact values -/

namespace Number

variable {m n : Number} {x y : Rat}

theorem place?_of_rat? (h : n.rat? = some x) : n.place? = some (.point x) := by
  cases n with
  | int k =>
    cases h
    rfl
  | float b =>
    cases b with
    | finite negative k e =>
      cases h
      rfl
    | infinite negative => cases h
    | nan => cases h

theorem lt_eq_of_rat? (hm : m.rat? = some x) (hn : n.rat? = some y) : m.lt n = decide (x < y) := by
  simp only [lt, place?_of_rat? hm, place?_of_rat? hn, Place.lt]

theorem same_eq_of_rat? (hm : m.rat? = some x) (hn : n.rat? = some y) :
    m.same n = decide (x = y) := by
  simp only [same, place?_of_rat? hm, place?_of_rat? hn, Place.same]
  rfl

theorem floor_of_rat? (h : n.rat? = some x) : n.floor = .ok x.floor := by
  cases n with
  | int k =>
    cases h
    rw [floor, Rat.floor_intCast]
  | float b => simp only [floor, show b.toRat? = some x from h]

theorem ceil_of_rat? (h : n.rat? = some x) : n.ceil = .ok x.ceil := by
  cases n with
  | int k =>
    cases h
    rw [ceil, Rat.ceil_intCast]
  | float b => simp only [ceil, show b.toRat? = some x from h]

end Number

/-! ### Bounds -/

namespace Bound

/-- Whether the number is on the inner side of a lower bound. -/
def AdmitsAbove (b : Bound) (v : Rat) : Prop :=
  ∃ x, b.value.rat? = some x ∧ if b.strict then x < v else x ≤ v

/-- Whether the number is on the inner side of an upper bound. -/
def AdmitsBelow (b : Bound) (v : Rat) : Prop :=
  ∃ x, b.value.rat? = some x ∧ if b.strict then v < x else v ≤ x

def IsFinite (b : Bound) : Prop := ∃ x, b.value.rat? = some x

end Bound

namespace Bounds

/-- Whether the number is within the bounds. -/
def Contains (b : Bounds) (v : Rat) : Prop :=
  (∀ low ∈ b.lower, low.AdmitsAbove v) ∧ ∀ high ∈ b.upper, high.AdmitsBelow v

def IsFinite (b : Bounds) : Prop :=
  (∀ low ∈ b.lower, low.IsFinite) ∧ ∀ high ∈ b.upper, high.IsFinite

/-- Of two bounds the one is chosen that implies the other. -/
theorem forall_tightest_iff {tighter : Number → Number → Bool} {admits : Bound → Prop}
    {a? b? : Option Bound}
    (h : ∀ a ∈ a?, ∀ b ∈ b?,
      if tighter b.value a.value || (b.value.same a.value && b.strict) then admits b → admits a
      else admits a → admits b) :
    (∀ c ∈ tightest tighter a? b?, admits c) ↔ (∀ a ∈ a?, admits a) ∧ ∀ b ∈ b?, admits b := by
  cases a? with
  | none => cases b? <;> simp [tightest]
  | some a =>
    cases b? with
    | none => simp [tightest]
    | some b =>
      have hab := h a rfl b rfl
      simp only [tightest, Option.mem_def]
      split
      · rename_i hchosen
        rw [if_pos hchosen] at hab
        simpa using hab
      · rename_i hchosen
        rw [if_neg hchosen] at hab
        simpa using hab

theorem mem_of_mem_tightest {tighter : Number → Number → Bool} {a? b? : Option Bound} {c : Bound}
    (h : c ∈ tightest tighter a? b?) : c ∈ a? ∨ c ∈ b? := by
  cases a? <;> cases b? <;> simp only [tightest] at h
  · simp at h
  · exact .inr h
  · exact .inl h
  · split at h
    · exact .inr h
    · exact .inl h

variable {a b : Bounds} {v : Rat}

theorem lower_meet (a b : Bounds) :
    (a.meet b).lower = tightest (fun x y => y.lt x) a.lower b.lower := rfl

theorem upper_meet (a b : Bounds) :
    (a.meet b).upper = tightest Number.lt a.upper b.upper := rfl

theorem IsFinite.meet (ha : a.IsFinite) (hb : b.IsFinite) : (a.meet b).IsFinite := by
  constructor
  · intro low hlow
    rw [lower_meet] at hlow
    rcases mem_of_mem_tightest hlow with h | h
    · exact ha.1 low h
    · exact hb.1 low h
  · intro high hhigh
    rw [upper_meet] at hhigh
    rcases mem_of_mem_tightest hhigh with h | h
    · exact ha.2 high h
    · exact hb.2 high h

/-- A number is within both ranges exactly if it is within what they have in common. -/
theorem contains_meet (ha : a.IsFinite) (hb : b.IsFinite) :
    (a.meet b).Contains v ↔ a.Contains v ∧ b.Contains v := by
  have hlower : (∀ low ∈ (a.meet b).lower, low.AdmitsAbove v) ↔
      (∀ low ∈ a.lower, low.AdmitsAbove v) ∧ ∀ low ∈ b.lower, low.AdmitsAbove v := by
    rw [lower_meet]
    refine forall_tightest_iff fun l hl k hk => ?_
    obtain ⟨x, hx⟩ := ha.1 l hl
    obtain ⟨y, hy⟩ := hb.1 k hk
    simp only [Number.lt_eq_of_rat? hx hy, Number.same_eq_of_rat? hy hx, Bound.AdmitsAbove, hx, hy]
    grind
  have hupper : (∀ high ∈ (a.meet b).upper, high.AdmitsBelow v) ↔
      (∀ high ∈ a.upper, high.AdmitsBelow v) ∧ ∀ high ∈ b.upper, high.AdmitsBelow v := by
    rw [upper_meet]
    refine forall_tightest_iff fun l hl k hk => ?_
    obtain ⟨x, hx⟩ := ha.2 l hl
    obtain ⟨y, hy⟩ := hb.2 k hk
    simp only [Number.lt_eq_of_rat? hy hx, Number.same_eq_of_rat? hy hx, Bound.AdmitsBelow, hx, hy]
    grind
  rw [Contains, hlower, hupper, Contains, Contains]
  exact and_and_and_comm

end Bounds

/-! ### Comparisons -/

theorem Number.Place.le_point (x y : Rat) : Place.le (.point x) (.point y) = decide (x ≤ y) := by
  rw [Bool.eq_iff_iff]
  simp only [le, lt, same, Bool.or_eq_true, decide_eq_true_eq, beq_iff_eq]
  grind

namespace Sql

theorem flipped?_eq_some {op op' : String} (h : flipped? op = some op') :
    (op = ">=" ∧ op' = "<=") ∨ (op = "<=" ∧ op' = ">=") ∨ (op = ">" ∧ op' = "<") ∨
      (op = "<" ∧ op' = ">") := by
  obtain ⟨before, after, hsplit, _⟩ := List.lookup_eq_some_iff.1 h
  have hmem : (op, op') ∈ [(">=", "<="), ("<=", ">="), (">", "<"), ("<", ">")] := by
    rw [hsplit]
    simp
  simpa using hmem

theorem flipped?_flipped {op op' : String} (h : flipped? op = some op') :
    flipped? op' = some op := by
  rcases flipped?_eq_some h with ⟨rfl, rfl⟩ | ⟨rfl, rfl⟩ | ⟨rfl, rfl⟩ | ⟨rfl, rfl⟩ <;> rfl

/-- A comparison says the same with its sides exchanged. -/
theorem Value.compare?_flipped {op op' : String} (h : flipped? op = some op') (a b : Value) :
    compare? op a b = compare? op' b a := by
  rcases flipped?_eq_some h with ⟨rfl, rfl⟩ | ⟨rfl, rfl⟩ | ⟨rfl, rfl⟩ | ⟨rfl, rfl⟩ <;> rfl

theorem Value.ofNumber_of_rat? {n : Number} {x : Rat} (h : n.rat? = some x) :
    ofNumber n = ofRat x := by
  rw [ofNumber, Number.place?_of_rat? h, ofRat]

theorem Value.rat?_of_isFinite {n : Number} (h : (ofNumber n).isFinite = true) :
    ∃ x, n.rat? = some x := by
  cases n with
  | int k => exact ⟨k, rfl⟩
  | float b =>
    cases b with
    | finite negative m e => exact ⟨_, rfl⟩
    | infinite negative => cases negative <;> cases h
    | nan => cases h

end Sql

namespace Bounds

/-- The bounds are finite, and they admit what the expression is true of. -/
def Says (b : Bounds) (column : Json) (e : Expr) : Prop :=
  b.IsFinite ∧ ∀ v : Rat, ∃ t, e.truth? column (.ofRat v) = some t ∧ (t = .yes ↔ b.Contains v)

theorem ofComparison_finite {op : String} {n : Number} {x : Rat} (hn : n.rat? = some x) :
    (ofComparison op n).IsFinite := by
  have hfinite (strict : Bool) : Bound.IsFinite ⟨n, strict⟩ := ⟨x, hn⟩
  unfold ofComparison
  split
  · exact ⟨by rintro _ ⟨⟩; exact hfinite _, by rintro _ ⟨⟩⟩
  · split
    · exact ⟨by rintro _ ⟨⟩; exact hfinite _, by rintro _ ⟨⟩⟩
    · exact ⟨by rintro _ ⟨⟩, by rintro _ ⟨⟩; exact hfinite _⟩

/-- A comparison is true of the numbers within its bound. -/
theorem ofComparison_contains {op op' : String} (hop : Sql.flipped? op = some op') {n : Number}
    {x : Rat} (hn : n.rat? = some x) (v : Rat) :
    ∃ t, Value.compare? op (.ofRat v) (.ofRat x) = some t ∧
      (t = .yes ↔ (ofComparison op n).Contains v) := by
  rcases Sql.flipped?_eq_some hop with ⟨rfl, rfl⟩ | ⟨rfl, rfl⟩ | ⟨rfl, rfl⟩ | ⟨rfl, rfl⟩ <;>
    refine ⟨_, rfl, ?_⟩ <;>
    simp [Truth.ofBool_eq_yes_iff, Number.Place.le_point, Number.Place.lt, Contains, ofComparison,
      Bound.AdmitsAbove, Bound.AdmitsBelow, hn]

end Bounds

namespace Check

open StrictDdl.Expr

variable {column : Json} {symbol : Read (List Json)} {left right : Expr} {b : Bounds}

/-- The column on one side and a number on the other. -/
theorem ofComparison_of_sides {op : String} {subject value : Expr}
    (h : (do
      if ← subject.isColumn column then
        match (← value.constant?).bind numberOf? with
        | some n => return some (Bounds.ofComparison op n)
        | none => return none
      else return none : Read (Option Bounds)) = .ok (some b)) :
    subject.isReferenceTo column ∧
      ∃ n, value.literal? = some (.ofNumber n) ∧ b = .ofComparison op n := by
  obtain ⟨isColumn, hcolumn, h⟩ := Read.bind_eq_ok_iff.1 h
  split at h
  · rename_i hisColumn
    obtain ⟨value?, hvalue, h⟩ := Read.bind_eq_ok_iff.1 h
    split at h
    · rename_i n hn
      cases h
      exact ⟨(isReferenceTo_of_isColumn hcolumn).trans hisColumn, n,
        literal?_of_number hvalue hn, rfl⟩
    · cases h
  · cases h

/-- The column is compared with a number, on one side or on the other. -/
theorem comparisonBounds_eq_ok (h : comparisonBounds column symbol left right = .ok (some b)) :
    ∃ op op' n, symbol? symbol = some op ∧ Sql.flipped? op = some op' ∧
      ((left.isReferenceTo column ∧ right.literal? = some (.ofNumber n) ∧
          b = .ofComparison op n) ∨
        (right.isReferenceTo column ∧ left.literal? = some (.ofNumber n) ∧
          b = .ofComparison op' n)) := by
  obtain ⟨name, hname, h⟩ := Read.bind_eq_ok_iff.1 h
  obtain ⟨key, hkey, h⟩ := Read.bind_eq_ok_iff.1 h
  split at h
  · rename_i op
    have hsymbol : symbol? symbol = some op := by
      refine symbol?_of_operatorName (hname.trans (congrArg _ ?_))
      unfold Json.key at hkey
      split at hkey
      · exact Except.ok.inj hkey
      · cases hkey
    split at h
    · cases h
    · rename_i op' hop
      obtain ⟨onRight, _, h⟩ := Read.bind_eq_ok_iff.1 h
      extract_lets rest at h
      have hrest (swapped : Bool) (h : rest swapped = .ok (some b)) : ∃ n,
          (left.isReferenceTo column ∧ right.literal? = some (.ofNumber n) ∧
            b = .ofComparison op n) ∨
          (right.isReferenceTo column ∧ left.literal? = some (.ofNumber n) ∧
            b = .ofComparison op' n) := by
        cases swapped with
        | false =>
          obtain ⟨hcolumn, n, hn, hb⟩ := ofComparison_of_sides h
          exact ⟨n, .inl ⟨hcolumn, hn, hb⟩⟩
        | true =>
          obtain ⟨hcolumn, n, hn, hb⟩ := ofComparison_of_sides h
          exact ⟨n, .inr ⟨hcolumn, hn, hb⟩⟩
      refine ⟨op, op', ?_⟩
      split at h
      · obtain ⟨swapped, _, h⟩ := Read.bind_eq_ok_iff.1 h
        obtain ⟨n, hn⟩ := hrest swapped h
        exact ⟨n, hsymbol, hop, hn⟩
      · obtain ⟨n, hn⟩ := hrest false h
        exact ⟨n, hsymbol, hop, hn⟩
  · cases h

theorem comparisonBounds_says (h : comparisonBounds column symbol left right = .ok (some b))
    (hfinite : ∀ k ∈ (Expr.operator .plain symbol left right).literals, k.isFinite) :
    b.Says column (.operator .plain symbol left right) := by
  obtain ⟨op, op', n, hsymbol, hop, hsides⟩ := comparisonBounds_eq_ok h
  have hminus : symbol? symbol ≠ some "-" := by
    rw [hsymbol]
    rintro ⟨⟩
    cases hop
  rw [literals_operator (.inr hminus)] at hfinite
  rcases hsides with ⟨hcolumn, hn, rfl⟩ | ⟨hcolumn, hn, rfl⟩
  · obtain ⟨x, hx⟩ := Value.rat?_of_isFinite
      (hfinite (.ofNumber n) (List.mem_append_right _ (by simp [literals_of_literal? _ hn])))
    refine ⟨Bounds.ofComparison_finite hx, fun v => ?_⟩
    obtain ⟨t, ht, hiff⟩ := Bounds.ofComparison_contains hop hx v
    refine ⟨t, ?_, hiff⟩
    rw [truth?_comparison hsymbol (operand?_of_isReferenceTo hcolumn) (operand?_of_literal? hn),
      Value.ofNumber_of_rat? hx, ht]
  · obtain ⟨x, hx⟩ := Value.rat?_of_isFinite
      (hfinite (.ofNumber n) (List.mem_append_left _ (by simp [literals_of_literal? _ hn])))
    refine ⟨Bounds.ofComparison_finite hx, fun v => ?_⟩
    obtain ⟨t, ht, hiff⟩ := Bounds.ofComparison_contains (Sql.flipped?_flipped hop) hx v
    refine ⟨t, ?_, hiff⟩
    rw [truth?_comparison hsymbol (operand?_of_literal? hn) (operand?_of_isReferenceTo hcolumn),
      Value.ofNumber_of_rat? hx, Value.compare?_flipped hop, ht]

/-- The column is between two numbers. -/
theorem betweenBounds_eq_ok (h : betweenBounds column left right = .ok (some b)) :
    left.isReferenceTo column ∧ ∃ low high m n, right.elements? = some [low, high] ∧
      low.literal? = some (.ofNumber m) ∧ high.literal? = some (.ofNumber n) ∧
      b = ⟨some ⟨m, false⟩, some ⟨n, false⟩⟩ := by
  obtain ⟨isColumn, hcolumn, h⟩ := Read.bind_eq_ok_iff.1 h
  split at h
  · rename_i hisColumn
    refine ⟨(isReferenceTo_of_isColumn hcolumn).trans hisColumn, ?_⟩
    obtain ⟨elements?, hlisted, h⟩ := Read.bind_eq_ok_iff.1 h
    split at h
    · cases h
    · rename_i es
      obtain ⟨values?, hvalues, h⟩ := Read.bind_eq_ok_iff.1 h
      split at h
      · rename_i low high
        split at h
        · rename_i m n hm hn
          cases h
          cases constants?_eq_ok hvalues with
          | cons hlow hrest =>
            cases hrest with
            | cons hhigh hrest =>
              cases hrest
              exact ⟨_, _, m, n, elements?_of_listed? hlisted, literal?_of_number hlow hm,
                literal?_of_number hhigh hn, rfl⟩
        · cases h
      · cases h
  · cases h

theorem betweenBounds_says (h : betweenBounds column left right = .ok (some b))
    (hfinite : ∀ k ∈ (Expr.operator (.between false false) symbol left right).literals,
      k.isFinite) :
    b.Says column (.operator (.between false false) symbol left right) := by
  obtain ⟨hcolumn, low, high, m, n, hright, hlow, hhigh, rfl⟩ := betweenBounds_eq_ok h
  rw [literals_operator (.inl (by simp)), literals_of_elements? right hright] at hfinite
  have hends : ∀ k ∈ [Value.ofNumber m, Value.ofNumber n], k.isFinite := fun k hk =>
    hfinite k (List.mem_append_right _
      (by simpa [literalsOf, literals_of_literal? _ hlow, literals_of_literal? _ hhigh] using hk))
  obtain ⟨x, hx⟩ := Value.rat?_of_isFinite (hends (.ofNumber m) (by simp))
  obtain ⟨y, hy⟩ := Value.rat?_of_isFinite (hends (.ofNumber n) (by simp))
  refine ⟨⟨by rintro _ ⟨⟩; exact ⟨x, hx⟩, by rintro _ ⟨⟩; exact ⟨y, hy⟩⟩, fun v => ?_⟩
  obtain ⟨t, ht, htiff⟩ := Bounds.ofComparison_contains (show Sql.flipped? ">=" = some "<=" from rfl) hx v
  obtain ⟨u, hu, huiff⟩ := Bounds.ofComparison_contains (show Sql.flipped? "<=" = some ">=" from rfl) hy v
  refine ⟨.all [t, u], ?_, ?_⟩
  · rw [truth?, test?, hright]
    simp [operand?_of_isReferenceTo hcolumn, operand?_of_literal? hlow, operand?_of_literal? hhigh,
      Value.ofNumber_of_rat? hx, Value.ofNumber_of_rat? hy, ht, hu]
  · rw [Truth.all_eq_yes_iff]
    simp [htiff, huiff, Bounds.Contains, Bounds.ofComparison]

mutual

/-- **An expression that sets bounds is true of the numbers within them.** -/
theorem bounds?_says (column : Json) (e : Expr) {b : Bounds}
    (h : bounds? column e = .ok (some b)) (hfinite : ∀ k ∈ e.literals, k.isFinite) :
    b.Says column e := by
  have hother (e : Expr) :
      (do e.sound ["A_Expr", "BoolExpr"]; return none : Read (Option Bounds)) ≠ .ok (some b) := by
    intro h
    obtain ⟨_, _, h⟩ := Read.bind_eq_ok_iff.1 h
    cases h
  cases e with
  | operator form symbol left right =>
    cases form with
    | plain => exact comparisonBounds_says h hfinite
    | between negated symmetric =>
      cases negated <;> cases symmetric
      · exact betweenBounds_says h hfinite
      all_goals exact absurd h (hother _)
    | _ => exact absurd h (hother _)
  | connective op operands =>
    cases op with
    | conjunction =>
      rw [literals] at hfinite
      obtain ⟨hb, hsays⟩ := meetAll?_says column {} operands h hfinite ⟨nofun, nofun⟩
      refine ⟨hb, fun v => ?_⟩
      obtain ⟨ts, hts, hiff⟩ := hsays v
      refine ⟨.all ts, by rw [truth?, hts, Option.map_some], ?_⟩
      rw [Truth.all_eq_yes_iff, hiff]
      exact (and_iff_right ⟨nofun, nofun⟩).symm
    | _ => exact absurd h (hother _)
  | unlisted => cases h
  | _ => exact absurd h (hother _)

/-- The bounds met so far narrow with each operand. -/
theorem meetAll?_says (column : Json) (found : Bounds) (es : List Expr) {b : Bounds}
    (h : meetAll? column found es = .ok (some b)) (hfinite : ∀ k ∈ literalsOf es, k.isFinite)
    (hfound : found.IsFinite) :
    b.IsFinite ∧ ∀ v : Rat, ∃ ts, truths? column (.ofRat v) es = some ts ∧
      (b.Contains v ↔ found.Contains v ∧ ∀ t ∈ ts, t = .yes) := by
  cases es with
  | nil =>
    cases h
    exact ⟨hfound, fun v => ⟨[], rfl, by simp⟩⟩
  | cons e es =>
    rw [meetAll?] at h
    rw [literalsOf] at hfinite
    obtain ⟨c?, hc, h⟩ := Read.bind_eq_ok_iff.1 h
    split at h
    · cases h
    · rename_i c
      obtain ⟨hcfinite, hcsays⟩ :=
        bounds?_says column e hc fun k hk => hfinite k (List.mem_append_left _ hk)
      obtain ⟨hb, hsays⟩ := meetAll?_says column (found.meet c) es h
        (fun k hk => hfinite k (List.mem_append_right _ hk)) (hfound.meet hcfinite)
      refine ⟨hb, fun v => ?_⟩
      obtain ⟨t, ht, htiff⟩ := hcsays v
      obtain ⟨ts, hts, hiff⟩ := hsays v
      refine ⟨t :: ts, by rw [truths?, ht, hts]; rfl, ?_⟩
      rw [hiff, Bounds.contains_meet hfound hcfinite, List.forall_mem_cons, htiff, and_assoc]

end

end Check

/-! ### Bounds as rules -/

/-- Whether a rule of this kind is one end of a range. -/
def RuleKind.IsBound (kind : RuleKind) : Prop :=
  kind ∈ [minimum, maximum, exclusiveMinimum, exclusiveMaximum]

namespace ValueRule

/-- Whether a rule admits the exact number. Those on texts admit any number. -/
def AdmitsRat (v : Rat) : ValueRule → Prop
  | .minimum bound => ∃ p, bound.place? = some p ∧ p.le (.point v)
  | .maximum bound => ∃ p, bound.place? = some p ∧ Number.Place.le (.point v) p
  | .exclusiveMinimum bound => ∃ p, bound.place? = some p ∧ p.lt (.point v)
  | .exclusiveMaximum bound => ∃ p, bound.place? = some p ∧ Number.Place.lt (.point v) p
  | .enum values => ∃ w ∈ values, ∃ n, w.numeric? = some n ∧ n.rat? = some v
  | .pattern _ => True
  | .maxLength _ => True
  | .multipleOf step => ∀ y, step.toRat? = some y → ∃ k : Int, v = k * y

variable {n : Number} {x v : Rat}

theorem admitsRat_minimum (h : n.rat? = some x) : (minimum n).AdmitsRat v ↔ x ≤ v := by
  simp [AdmitsRat, Number.place?_of_rat? h, Number.Place.le_point]

theorem admitsRat_maximum (h : n.rat? = some x) : (maximum n).AdmitsRat v ↔ v ≤ x := by
  simp [AdmitsRat, Number.place?_of_rat? h, Number.Place.le_point]

theorem admitsRat_exclusiveMinimum (h : n.rat? = some x) :
    (exclusiveMinimum n).AdmitsRat v ↔ x < v := by
  simp [AdmitsRat, Number.place?_of_rat? h, Number.Place.lt]

theorem admitsRat_exclusiveMaximum (h : n.rat? = some x) :
    (exclusiveMaximum n).AdmitsRat v ↔ v < x := by
  simp [AdmitsRat, Number.place?_of_rat? h, Number.Place.lt]

end ValueRule

namespace Bound

/-- The rule of a lower bound. Above a bound a whole number is at least the next one. -/
def lowerRule (b : Bound) (whole : Bool) : Read ValueRule :=
  if !b.strict then .ok (.minimum b.value)
  else if whole then b.value.floor.map fun n => .minimum (.int (n + 1))
  else .ok (.exclusiveMinimum b.value)

/-- The rule of an upper bound. -/
def upperRule (b : Bound) (whole : Bool) : Read ValueRule :=
  if !b.strict then .ok (.maximum b.value)
  else if whole then b.value.ceil.map fun n => .maximum (.int (n - 1))
  else .ok (.exclusiveMaximum b.value)

variable {b : Bound} {whole : Bool} {v : Rat}

theorem lowerRule_spec (hfinite : b.IsFinite) (hwhole : whole → ∃ n : Int, v = n) :
    ∃ rule, b.lowerRule whole = .ok rule ∧ (rule.AdmitsRat v ↔ b.AdmitsAbove v) := by
  obtain ⟨x, hx⟩ := hfinite
  obtain ⟨n, strict⟩ := b
  cases strict with
  | false => exact ⟨_, rfl, by simp [ValueRule.admitsRat_minimum hx, AdmitsAbove, hx]⟩
  | true =>
    cases whole with
    | false => exact ⟨_, rfl, by simp [ValueRule.admitsRat_exclusiveMinimum hx, AdmitsAbove, hx]⟩
    | true =>
      obtain ⟨k, rfl⟩ := hwhole rfl
      refine ⟨_, by simp [lowerRule, Number.floor_of_rat? hx]; rfl, ?_⟩
      rw [ValueRule.admitsRat_minimum rfl, Rat.intCast_le_intCast, Int.add_one_le_iff,
        Rat.floor_lt_iff]
      simp [AdmitsAbove, hx]

theorem upperRule_spec (hfinite : b.IsFinite) (hwhole : whole → ∃ n : Int, v = n) :
    ∃ rule, b.upperRule whole = .ok rule ∧ (rule.AdmitsRat v ↔ b.AdmitsBelow v) := by
  obtain ⟨x, hx⟩ := hfinite
  obtain ⟨n, strict⟩ := b
  cases strict with
  | false => exact ⟨_, rfl, by simp [ValueRule.admitsRat_maximum hx, AdmitsBelow, hx]⟩
  | true =>
    cases whole with
    | false => exact ⟨_, rfl, by simp [ValueRule.admitsRat_exclusiveMaximum hx, AdmitsBelow, hx]⟩
    | true =>
      obtain ⟨k, rfl⟩ := hwhole rfl
      refine ⟨_, by simp [upperRule, Number.ceil_of_rat? hx]; rfl, ?_⟩
      rw [ValueRule.admitsRat_maximum rfl, Rat.intCast_le_intCast, Int.le_sub_one_iff,
        Rat.lt_ceil_iff]
      simp [AdmitsBelow, hx]

theorem kind_of_lowerRule {rule : ValueRule} (h : b.lowerRule whole = .ok rule) :
    rule.kind ∈ [RuleKind.minimum, .exclusiveMinimum] := by
  unfold lowerRule at h
  split at h
  · cases h
    simp [ValueRule.kind]
  · split at h
    · obtain ⟨n, _, rfl⟩ := Read.map_eq_ok_iff.1 h
      simp [ValueRule.kind]
    · cases h
      simp [ValueRule.kind]

theorem kind_of_upperRule {rule : ValueRule} (h : b.upperRule whole = .ok rule) :
    rule.kind ∈ [RuleKind.maximum, .exclusiveMaximum] := by
  unfold upperRule at h
  split at h
  · cases h
    simp [ValueRule.kind]
  · split at h
    · obtain ⟨n, _, rfl⟩ := Read.map_eq_ok_iff.1 h
      simp [ValueRule.kind]
    · cases h
      simp [ValueRule.kind]

end Bound

namespace ValueRules

/-! What a rule set of one rule sets. -/

variable {n : Number} {rule : ValueRule}

theorem not_sets_empty : ¬ ({} : ValueRules).Sets rule := by
  cases rule <;> simp [Sets]

theorem sets_minimum_iff :
    ({ minimum := some n } : ValueRules).Sets rule ↔ ValueRule.minimum n = rule := by
  cases rule <;> simp [Sets]

theorem sets_maximum_iff :
    ({ maximum := some n } : ValueRules).Sets rule ↔ ValueRule.maximum n = rule := by
  cases rule <;> simp [Sets]

theorem sets_exclusiveMinimum_iff :
    ({ exclusiveMinimum := some n } : ValueRules).Sets rule ↔ ValueRule.exclusiveMinimum n = rule := by
  cases rule <;> simp [Sets]

theorem sets_exclusiveMaximum_iff :
    ({ exclusiveMaximum := some n } : ValueRules).Sets rule ↔ ValueRule.exclusiveMaximum n = rule := by
  cases rule <;> simp [Sets]

/-- A kind of rule that is there is the kind of a rule that is set. -/
theorem exists_sets_of_has {r : ValueRules} {kind : RuleKind} (h : r.has kind = true) :
    ∃ rule, r.Sets rule ∧ rule.kind = kind := by
  cases kind <;> obtain ⟨n, hn⟩ := Option.isSome_iff_exists.1 h
  · exact ⟨.minimum n, hn, rfl⟩
  · exact ⟨.maximum n, hn, rfl⟩
  · exact ⟨.exclusiveMinimum n, hn, rfl⟩
  · exact ⟨.exclusiveMaximum n, hn, rfl⟩
  · exact ⟨.enum (n.map Scalar.toJson), by simp [Sets, hn], rfl⟩
  · exact ⟨.pattern n, hn, rfl⟩
  · exact ⟨.maxLength n, hn, rfl⟩
  · exact ⟨.multipleOf n, hn, rfl⟩

/-- Rules of different kinds are all kept. -/
theorem sets_merge_iff {a b : ValueRules}
    (h : ∀ first second, a.Sets first → b.Sets second → first.kind ≠ second.kind) :
    (a.merge b).Sets rule ↔ a.Sets rule ∨ b.Sets rule := by
  constructor
  · intro hmerge
    cases rule <;> simp only [Sets, merge, Option.or_eq_some_iff, Option.map_eq_some_iff] at hmerge ⊢ <;> grind
  · rintro (ha | hb)
    · refine sets_merge_left ha (Bool.eq_false_iff.2 fun hhas => ?_)
      obtain ⟨second, hsecond, hkind⟩ := exists_sets_of_has hhas
      exact h rule second ha hsecond hkind.symm
    · exact sets_merge_right hb

end ValueRules

namespace Bounds

variable {b : Bounds} {whole : Bool} {rules : ValueRules}

/-- The rules of a range are those of its ends. -/
theorem sets_rules_iff (h : b.rules whole = .ok (some rules)) (rule : ValueRule) :
    rules.Sets rule ↔ (∃ low ∈ b.lower, low.lowerRule whole = .ok rule) ∨
      ∃ high ∈ b.upper, high.upperRule whole = .ok rule := by
  obtain ⟨lower, upper⟩ := b
  unfold Bounds.rules at h
  extract_lets withLow at h
  obtain ⟨low, hrest, hlow⟩ : ∃ low, withLow low = .ok (some rules) ∧ ∀ rule, low.Sets rule ↔
      ∃ b ∈ lower, b.lowerRule whole = .ok rule := by
    rcases lower with _ | ⟨v, _ | _⟩
    · exact ⟨{}, h, by simp [ValueRules.not_sets_empty]⟩
    · exact ⟨_, h, by simp [ValueRules.sets_minimum_iff, Bound.lowerRule]⟩
    · cases whole with
      | true =>
        obtain ⟨low, hlow, h⟩ := Read.bind_eq_ok_iff.1 h
        obtain ⟨n, hn, rfl⟩ := Read.map_eq_ok_iff.1 hlow
        exact ⟨_, h, by simp [ValueRules.sets_minimum_iff, Bound.lowerRule, hn, Except.map]⟩
      | false =>
        exact ⟨_, h, by simp [ValueRules.sets_exclusiveMinimum_iff, Bound.lowerRule]⟩
  subst withLow
  beta_reduce at hrest
  extract_lets withHigh at hrest
  obtain ⟨high, hrules, hhigh⟩ : ∃ high, withHigh high = .ok (some rules) ∧ ∀ rule, high.Sets rule ↔
      ∃ b ∈ upper, b.upperRule whole = .ok rule := by
    rcases upper with _ | ⟨v, _ | _⟩
    · exact ⟨{}, hrest, by simp [ValueRules.not_sets_empty]⟩
    · exact ⟨_, hrest, by simp [ValueRules.sets_maximum_iff, Bound.upperRule]⟩
    · cases whole with
      | true =>
        obtain ⟨high, hhigh, hrest⟩ := Read.bind_eq_ok_iff.1 hrest
        obtain ⟨n, hn, rfl⟩ := Read.map_eq_ok_iff.1 hhigh
        exact ⟨_, hrest, by simp [ValueRules.sets_maximum_iff, Bound.upperRule, hn, Except.map]⟩
      | false =>
        exact ⟨_, hrest, by simp [ValueRules.sets_exclusiveMaximum_iff, Bound.upperRule]⟩
  obtain rfl : low.merge high = rules := by
    have hmerge := Except.ok.inj hrules
    split at hmerge
    · cases hmerge
    · exact Option.some.inj hmerge
  rw [ValueRules.sets_merge_iff, hlow, hhigh]
  intro first second hfirst hsecond
  obtain ⟨b, _, hb⟩ := (hlow first).1 hfirst
  obtain ⟨c, _, hc⟩ := (hhigh second).1 hsecond
  have hfirstKind := Bound.kind_of_lowerRule hb
  have hsecondKind := Bound.kind_of_upperRule hc
  grind

theorem isBound_of_sets_rules (h : b.rules whole = .ok (some rules)) {rule : ValueRule}
    (hrule : rules.Sets rule) : rule.kind.IsBound := by
  rcases (sets_rules_iff h rule).1 hrule with ⟨low, _, hlow⟩ | ⟨high, _, hhigh⟩
  · have hkind := Bound.kind_of_lowerRule hlow
    grind [RuleKind.IsBound]
  · have hkind := Bound.kind_of_upperRule hhigh
    grind [RuleKind.IsBound]

/-- **The rules of a range admit the numbers within it**, the whole ones of them if the rules are
for whole numbers. -/
theorem keeps_rules_iff (h : b.rules whole = .ok (some rules)) (hfinite : b.IsFinite) (v : Rat)
    (hwhole : whole → ∃ n : Int, v = n) :
    (∀ rule, rules.Sets rule → rule.AdmitsRat v) ↔ b.Contains v := by
  simp only [sets_rules_iff h]
  constructor
  · intro hkeeps
    constructor
    · intro low hlow
      obtain ⟨rule, hrule, hiff⟩ := Bound.lowerRule_spec (hfinite.1 low hlow) hwhole
      exact hiff.1 (hkeeps rule (.inl ⟨low, hlow, hrule⟩))
    · intro high hhigh
      obtain ⟨rule, hrule, hiff⟩ := Bound.upperRule_spec (hfinite.2 high hhigh) hwhole
      exact hiff.1 (hkeeps rule (.inr ⟨high, hhigh, hrule⟩))
  · rintro ⟨hlower, hupper⟩ rule (⟨low, hlow, hrule⟩ | ⟨high, hhigh, hrule⟩)
    · obtain ⟨rule', hrule', hiff⟩ := Bound.lowerRule_spec (hfinite.1 low hlow) hwhole
      cases hrule.symm.trans hrule'
      exact hiff.2 (hlower low hlow)
    · obtain ⟨rule', hrule', hiff⟩ := Bound.upperRule_spec (hfinite.2 high hhigh) hwhole
      cases hrule.symm.trans hrule'
      exact hiff.2 (hupper high hhigh)

end Bounds

namespace Check

variable {mentioned : List Json} {e : Expr} {column : Json} {whole : Bool} {rules : ValueRules}

/-- The rules of a check are those of a range, of a list of values, or of a pattern. -/
theorem classify_cases (h : classify mentioned e column whole = .ok (some rules)) :
    (∃ b, bounds? column e = .ok (some b) ∧ b.rules whole = .ok (some rules)) ∨
      (∃ vs, values? column e = .ok (some vs) ∧ enumRule vs = .ok rules) ∨
        ∃ p, rules = { pattern := some p } := by
  unfold classify at h
  split at h
  · split at h
    · obtain ⟨b?, hb, h⟩ := Read.bind_eq_ok_iff.1 h
      split at h
      · rename_i b
        exact .inl ⟨b, hb, h⟩
      · obtain ⟨values?, hvalues, h⟩ := Read.bind_eq_ok_iff.1 h
        split at h
        · rename_i vs
          obtain ⟨r, hr, hrules⟩ := Read.map_eq_ok_iff.1 h
          cases hrules
          exact .inr (.inl ⟨vs, hvalues, hr⟩)
        · obtain ⟨p?, _, h⟩ := Read.bind_eq_ok_iff.1 h
          obtain ⟨p, rfl, hrules⟩ := Option.map_eq_some_iff.1 (Except.ok.inj h)
          exact .inr (.inr ⟨p, hrules.symm⟩)
    · cases h
  · cases h

/-- Only the bounds of a check are rules that are bounds. -/
theorem bounds?_of_classify (h : classify mentioned e column whole = .ok (some rules))
    (hbounds : ∀ rule, rules.Sets rule → rule.kind.IsBound) :
    ∃ b, bounds? column e = .ok (some b) ∧ b.rules whole = .ok (some rules) := by
  rcases classify_cases h with hrange | ⟨vs, _, hr⟩ | ⟨p, rfl⟩
  · exact hrange
  · have hkind := hbounds _ (sets_of_enumRule hr)
    simp [ValueRule.kind, RuleKind.IsBound] at hkind
  · have hkind := hbounds (.pattern p) rfl
    simp [ValueRule.kind, RuleKind.IsBound] at hkind

/-- **Bounds say exactly what their check says**: of the exact numbers, on a column of whole
numbers of the whole ones, they admit those that make the check true. -/
theorem classify_range (h : classify mentioned e column whole = .ok (some rules))
    (hbounds : ∀ rule, rules.Sets rule → rule.kind.IsBound)
    (hfinite : ∀ k ∈ e.literals, k.isFinite) (v : Rat) (hwhole : whole → ∃ n : Int, v = n) :
    ∃ t, e.truth? column (.ofRat v) = some t ∧
      ((∀ rule, rules.Sets rule → rule.AdmitsRat v) ↔ t = .yes) := by
  obtain ⟨b, hb, hrules⟩ := bounds?_of_classify h hbounds
  obtain ⟨hbfinite, hsays⟩ := bounds?_says column e hb hfinite
  obtain ⟨t, ht, hiff⟩ := hsays v
  exact ⟨t, ht, (Bounds.keeps_rules_iff hrules hbfinite v hwhole).trans hiff.symm⟩

namespace Sample

def reference : Expr := .column (.ok [.str "c"])

/-- The check `c > 0.5 AND 3 > c`. -/
def within : Expr :=
  .connective .conjunction
    [.operator .plain (.ok [.str ">"]) reference
      (.constant (.ok (.float (.finite false 1 (-1)))) (.ok (.str "0.5"))),
    .operator .plain (.ok [.str ">"]) (.constant (.ok (.int 3)) (.ok (.int 3))) reference]

end Sample

/-- The whole numbers above one half and below 3 are those from 1 to 2. -/
theorem classify_range_whole :
    classify [.str "c"] Sample.within (.str "c") true =
        .ok (some { minimum := some (.int 1), maximum := some (.int 2) }) ∧
      ∃ t, Sample.within.truth? (.str "c") (.ofRat 2) = some t ∧
        ((∀ rule, ({ minimum := some (.int 1), maximum := some (.int 2) } : ValueRules).Sets rule →
          rule.AdmitsRat 2) ↔ t = .yes) := by
  have hclass : classify [.str "c"] Sample.within (.str "c") true =
      .ok (some { minimum := some (.int 1), maximum := some (.int 2) }) := by
    have hfloor : (Number.float (.finite false 1 (-1))).floor = .ok 0 := by
      rw [Number.floor_of_rat? rfl]
      exact congrArg _ (by decide +kernel)
    show Bounds.rules ⟨some ⟨.float (.finite false 1 (-1)), true⟩, some ⟨.int 3, true⟩⟩ true = _
    simp only [Bounds.rules, hfloor]
    rfl
  refine ⟨hclass, classify_range hclass ?_ ?_ 2 fun _ => ⟨2, rfl⟩⟩
  · intro rule hrule
    cases rule <;> simp [ValueRules.Sets, ValueRule.kind, RuleKind.IsBound] at hrule ⊢
  · decide

end Check

end StrictDdl
