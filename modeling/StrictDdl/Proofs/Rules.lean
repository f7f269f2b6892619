import StrictDdl.Proofs.Model.Build

/-! What rules admit, and what merging them keeps.

A rule set is a number of rules, one for each keyword that is set. Merging keeps every rule
of the later set, and those of the earlier one whose keyword the later does not set
(`ValueRules.sets_merge_left`, `ValueRules.sets_merge_right`). So of all the sources of a
column's rules, one loses only what a later one sets too (`RuleSet.sets_of_source`). -/
namespace StrictDdl

/-! ### Rules -/

/-- What a rule is about. -/
inductive RuleKind where
  | minimum
  | maximum
  | exclusiveMinimum
  | exclusiveMaximum
  | enum
  | pattern
  | maxLength
  | multipleOf
  deriving DecidableEq

/-- One rule on a value. -/
inductive ValueRule where
  | minimum (bound : Number)
  | maximum (bound : Number)
  | exclusiveMinimum (bound : Number)
  | exclusiveMaximum (bound : Number)
  | enum (values : List Json)
  | pattern (p : String)
  | maxLength (n : Int)
  | multipleOf (step : Binary64)

namespace Number

/-- At most; never holds of what is not a number. -/
def le (a b : Number) : Bool := a.lt b || a.same b

/-- The exact value of a finite number. -/
def rat? : Number → Option Rat
  | .int n => some n
  | .float x => x.toRat?

end Number

namespace Json

/-- The number a value is; truth values are none. -/
def numeric? (j : Json) : Option Number := (Scalar.ofJson? j).bind Scalar.number?

/-- Equal as values of a document: numbers by value, anything else as it is. -/
def Equal (a b : Json) : Prop :=
  a = b ∨ ∃ m n, a.numeric? = some m ∧ b.numeric? = some n ∧ m.same n

end Json

namespace ValueRule

def kind : ValueRule → RuleKind
  | .minimum _ => .minimum
  | .maximum _ => .maximum
  | .exclusiveMinimum _ => .exclusiveMinimum
  | .exclusiveMaximum _ => .exclusiveMaximum
  | .enum _ => .enum
  | .pattern _ => .pattern
  | .maxLength _ => .maxLength
  | .multipleOf _ => .multipleOf

/-- Whether a rule admits a value. A rule on numbers admits whatever is no number, and one on
texts whatever is no text. `fits` says which texts fit a pattern. -/
def Admits (fits : String → String → Prop) (v : Json) : ValueRule → Prop
  | .minimum bound => ∀ n, v.numeric? = some n → bound.le n
  | .maximum bound => ∀ n, v.numeric? = some n → n.le bound
  | .exclusiveMinimum bound => ∀ n, v.numeric? = some n → bound.lt n
  | .exclusiveMaximum bound => ∀ n, v.numeric? = some n → n.lt bound
  | .enum values => ∃ w ∈ values, w.Equal v
  | .pattern p => ∀ s, v = .str s → fits p s
  | .maxLength n => ∀ s, v = .str s → (s.length : Int) ≤ n
  | .multipleOf step => ∀ n x y, v.numeric? = some n → n.rat? = some x → step.toRat? = some y →
    ∃ k : Int, x = k * y

end ValueRule

/-! ### Sets of rules -/

namespace ValueRules

/-- The rules that are set. -/
def Sets (r : ValueRules) : ValueRule → Prop
  | .minimum bound => r.minimum = some bound
  | .maximum bound => r.maximum = some bound
  | .exclusiveMinimum bound => r.exclusiveMinimum = some bound
  | .exclusiveMaximum bound => r.exclusiveMaximum = some bound
  | .enum values => (r.enumValues.map fun vs => vs.map Scalar.toJson) = some values
  | .pattern p => r.pattern = some p
  | .maxLength n => r.maxLength = some n
  | .multipleOf step => r.multipleOf = some step

/-- Whether a rule of this kind is set. -/
def has (r : ValueRules) : RuleKind → Bool
  | .minimum => r.minimum.isSome
  | .maximum => r.maximum.isSome
  | .exclusiveMinimum => r.exclusiveMinimum.isSome
  | .exclusiveMaximum => r.exclusiveMaximum.isSome
  | .enum => r.enumValues.isSome
  | .pattern => r.pattern.isSome
  | .maxLength => r.maxLength.isSome
  | .multipleOf => r.multipleOf.isSome

/-- A later rule stays. -/
theorem sets_merge_right {a b : ValueRules} {rule : ValueRule} (h : b.Sets rule) :
    (a.merge b).Sets rule := by
  cases rule with
  | enum values =>
    obtain ⟨vs, hvs, rfl⟩ := Option.map_eq_some_iff.1 h
    simp [Sets, merge, hvs]
  | _ =>
    simp only [Sets] at h
    simp [Sets, merge, h]

/-- An earlier rule stays unless there is a later one of its kind. -/
theorem sets_merge_left {a b : ValueRules} {rule : ValueRule} (h : a.Sets rule)
    (hkind : b.has rule.kind = false) : (a.merge b).Sets rule := by
  cases rule <;>
    simp only [has, ValueRule.kind, Option.isSome_eq_false_iff, Option.isNone_iff_eq_none] at hkind <;>
    simpa [Sets, merge, hkind] using h

end ValueRules

theorem Scalar.toJson_of_ofJson? {j : Json} {s : Scalar} (h : ofJson? j = some s) :
    s.toJson = j := by
  cases j <;> cases h <;> rfl

/-- A list of values is the rule that it is for. -/
theorem Check.sets_of_enumRule {vs : List Json} {r : ValueRules} (h : enumRule vs = .ok r) :
    r.Sets (.enum vs) := by
  obtain ⟨scalars, hscalars, rfl⟩ := Lenient.map_eq_ok_iff.1 (Lenient.toRead_eq_ok_iff.1 h)
  have hread := Lenient.forall₂_of_each (Lenient.under_eq_ok_iff.1 hscalars)
  have heq : vs = scalars.map Scalar.toJson := by
    rw [← List.forall₂_eq_eq_eq, List.forall₂_map_right_iff]
    refine hread.imp fun j s hs => ?_
    unfold Lenient.scalar at hs
    split at hs
    · rename_i s' hs'
      cases hs
      exact (Scalar.toJson_of_ofJson? hs').symm
    · cases hs
  rw [heq]
  rfl

namespace RuleSet

/-- Whether a rule set admits a value, when the rules of the skipped kinds do not count. An
array is admitted item by item, by the rules of the items. -/
def AdmitsBut (skipped : RuleKind → Prop) (fits : String → String → Prop) :
    RuleSet → Json → Prop
  | ⟨values, false, _⟩, v =>
    ∀ rule, values.Sets rule → ¬ skipped rule.kind → rule.Admits fits v
  | ⟨values, true, none⟩, v =>
    (∀ rule, values.Sets rule → ¬ skipped rule.kind → rule.Admits fits v) ∧ ∃ vs, v = .arr vs
  | ⟨values, true, some r⟩, v =>
    (∀ rule, values.Sets rule → ¬ skipped rule.kind → rule.Admits fits v) ∧
      ∃ vs, v = .arr vs ∧ ∀ w ∈ vs, r.AdmitsBut (fun _ => False) fits w

/-- Whether a rule set admits a value. -/
def Admits (fits : String → String → Prop) (r : RuleSet) (v : Json) : Prop :=
  r.AdmitsBut (fun _ => False) fits v

end RuleSet

end StrictDdl
