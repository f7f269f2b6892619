import Mathlib.Algebra.Order.Field.Power
import Mathlib.Data.Rat.Cast.Order
import Mathlib.Tactic.FieldSimp
import Mathlib.Tactic.Linarith
import Mathlib.Tactic.Positivity
import Mathlib.Tactic.Ring
import StrictDdl.Numeric.Shortest

/-! Shortest decimals.

The search for a decimal always finds one within the interval of its number, with seventeen
digits at most (`Binary64.contains_shortest`). The intervals of different numbers have no point in
common: where two of them touch, one of the numbers is odd and has no ends
(`Binary64.eq_of_contains`). So the decimal of a number belongs to no other number. -/
namespace StrictDdl.Binary64

/-- A significand and an exponent of the format: the largest significand that the least exponent
allows. -/
structure IsCanonical (m : Nat) (e : Int) : Prop where
  bound : m < significandBound
  least : leastExponent ≤ e
  most : e ≤ greatestExponent
  full : leastExponent < e → significandBound / 2 ≤ m

/-- The exact value of a decimal. -/
def Decimal.value (d : Decimal) : ℚ := d.digits * (10 : ℚ) ^ d.exponent

namespace Interval

/-- Whether the number is within the interval. -/
def Contains (i : Interval) (v : ℚ) : Prop :=
  if i.closed then i.low * (2 : ℚ) ^ i.unit ≤ v ∧ v ≤ i.high * (2 : ℚ) ^ i.unit
  else i.low * (2 : ℚ) ^ i.unit < v ∧ v < i.high * (2 : ℚ) ^ i.unit

theorem zpow_eq_div {x : ℚ} (hx : x ≠ 0) (k : Int) : x ^ k = x ^ k.toNat / x ^ (-k).toNat := by
  rw [← zpow_natCast x k.toNat, ← zpow_natCast x (-k).toNat, ← zpow_sub₀ hx]
  congr 1
  omega

theorem power_pos (i : Interval) (k : Int) : 0 < (i.power k).1 ∧ 0 < (i.power k).2 :=
  ⟨Nat.mul_pos (Nat.pow_pos (by decide)) (Nat.pow_pos (by decide)),
    Nat.mul_pos (Nat.pow_pos (by decide)) (Nat.pow_pos (by decide))⟩

/-- A power of ten, in units of the interval. -/
theorem power_eq (i : Interval) (k : Int) :
    ((i.power k).1 : ℚ) * (2 : ℚ) ^ i.unit = (i.power k).2 * (10 : ℚ) ^ k := by
  have hten : (10 : ℚ) ^ (-k).toNat ≠ 0 := by positivity
  have htwo : (2 : ℚ) ^ (-i.unit).toNat ≠ 0 := by positivity
  rw [zpow_eq_div (by norm_num : (2 : ℚ) ≠ 0), zpow_eq_div (by norm_num : (10 : ℚ) ≠ 0)]
  simp only [power, Nat.pow_eq, Nat.cast_mul, Nat.cast_pow, Nat.cast_ofNat]
  field_simp

variable {i : Interval} {k : Int} {n d : Nat}

/-- What is compared of a decimal is the decimal itself, up to a factor. -/
theorem decimal_scaled (i : Interval) (k : Int) (d : Nat) :
    (d : ℚ) * (i.power k).1 * (2 : ℚ) ^ i.unit = (i.power k).2 * (d * (10 : ℚ) ^ k) := by
  rw [mul_assoc, i.power_eq k]
  ring

theorem le_mul_iff : n * (i.power k).2 ≤ d * (i.power k).1 ↔
    (n : ℚ) * (2 : ℚ) ^ i.unit ≤ d * (10 : ℚ) ^ k := by
  have hb : (0 : ℚ) < (i.power k).2 := by exact_mod_cast (i.power_pos k).2
  have hunit : (0 : ℚ) < (2 : ℚ) ^ i.unit := by positivity
  calc n * (i.power k).2 ≤ d * (i.power k).1
      ↔ (n : ℚ) * (i.power k).2 ≤ d * (i.power k).1 := by exact_mod_cast Iff.rfl
    _ ↔ (n : ℚ) * (i.power k).2 * (2 : ℚ) ^ i.unit ≤ d * (i.power k).1 * (2 : ℚ) ^ i.unit :=
        (mul_le_mul_iff_left₀ hunit).symm
    _ ↔ _ := by rw [i.decimal_scaled, mul_right_comm, mul_comm, mul_le_mul_iff_right₀ hb]

theorem mul_le_iff : d * (i.power k).1 ≤ n * (i.power k).2 ↔
    (d : ℚ) * (10 : ℚ) ^ k ≤ n * (2 : ℚ) ^ i.unit := by
  have hb : (0 : ℚ) < (i.power k).2 := by exact_mod_cast (i.power_pos k).2
  have hunit : (0 : ℚ) < (2 : ℚ) ^ i.unit := by positivity
  calc d * (i.power k).1 ≤ n * (i.power k).2
      ↔ (d : ℚ) * (i.power k).1 ≤ n * (i.power k).2 := by exact_mod_cast Iff.rfl
    _ ↔ (d : ℚ) * (i.power k).1 * (2 : ℚ) ^ i.unit ≤ n * (i.power k).2 * (2 : ℚ) ^ i.unit :=
        (mul_le_mul_iff_left₀ hunit).symm
    _ ↔ _ := by
      rw [i.decimal_scaled, mul_right_comm (n : ℚ), mul_comm ((n : ℚ) * _), mul_le_mul_iff_right₀ hb]

/-- What is tested of a decimal is that it is within the interval. -/
theorem holds_iff : i.holds k d = true ↔ i.Contains (d * (10 : ℚ) ^ k) := by
  unfold holds Contains
  cases i.closed with
  | true =>
    simp only [if_true, Bool.and_eq_true, decide_eq_true_eq]
    exact and_congr le_mul_iff mul_le_iff
  | false =>
    simp only [Bool.false_eq_true, if_false, Bool.and_eq_true, decide_eq_true_eq]
    exact and_congr (lt_iff_lt_of_le_iff_le mul_le_iff) (lt_iff_lt_of_le_iff_le le_mul_iff)

/-! ### The search -/

theorem contains_candidate? (h : i.candidate? k = some d) : i.Contains (d * (10 : ℚ) ^ k) := by
  rw [← holds_iff]
  unfold candidate? at h
  dsimp only at h
  split at h
  · rename_i hbelow habove
    split at h
    · cases h
      exact hbelow
    · split at h
      · cases h
        exact habove
      · split at h
        · cases h
          exact hbelow
        · cases h
          exact habove
  · rename_i hbelow _
    cases h
    exact hbelow
  · rename_i _ habove
    cases h
    exact habove
  · cases h

theorem holds_of_lt (hlow : i.low * (i.power k).2 < d * (i.power k).1)
    (hhigh : d * (i.power k).1 < i.high * (i.power k).2) : i.holds k d = true := by
  unfold holds
  cases i.closed with
  | true => simp [Nat.le_of_lt hlow, Nat.le_of_lt hhigh]
  | false => simp [hlow, hhigh]

/-- A step that is smaller than the interval does not jump over it. -/
theorem exists_candidate? (hlow : i.low < i.centre) (hhigh : i.centre < i.high)
    (hstep : (i.power k).1 < (i.high - i.low) * (i.power k).2) :
    ∃ d, i.candidate? k = some d := by
  obtain ⟨ha, hb⟩ := i.power_pos k
  have hsome : i.holds k (i.centre * (i.power k).2 / (i.power k).1) = true ∨
      i.holds k (i.centre * (i.power k).2 / (i.power k).1 + 1) = true := by
    have hlow' := Nat.mul_lt_mul_of_pos_right hlow hb
    have hhigh' := Nat.mul_lt_mul_of_pos_right hhigh hb
    have hdiv := Nat.div_add_mod (i.centre * (i.power k).2) (i.power k).1
    have hmod := Nat.mod_lt (i.centre * (i.power k).2) ha
    rw [Nat.sub_mul] at hstep
    rw [Nat.mul_comm] at hdiv
    generalize i.centre * (i.power k).2 / (i.power k).1 = below at hdiv ⊢
    have hnext : (below + 1) * (i.power k).1 = below * (i.power k).1 + (i.power k).1 :=
      Nat.succ_mul ..
    by_cases hbelow : i.low * (i.power k).2 < below * (i.power k).1
    · exact .inl (holds_of_lt hbelow (by omega))
    · exact .inr (holds_of_lt (by omega) (by omega))
  unfold candidate?
  dsimp only
  split
  · split
    · exact ⟨_, rfl⟩
    · split
      · exact ⟨_, rfl⟩
      · split <;> exact ⟨_, rfl⟩
  · exact ⟨_, rfl⟩
  · exact ⟨_, rfl⟩
  · rename_i hbelow habove
    rw [hbelow, habove] at hsome
    simp at hsome

/-- The search ends with the first step at which it finds something. -/
theorem contains_search {leading : Int} (used left : Nat)
    (h : ∃ n, n < left ∧ ∃ d, i.candidate? (leading - (used + n : Nat) + 1) = some d) :
    i.Contains ((i.search leading used left).1 * (10 : ℚ) ^ (i.search leading used left).2) := by
  induction left generalizing used with
  | zero =>
    obtain ⟨n, hn, _⟩ := h
    exact absurd hn (Nat.not_lt_zero n)
  | succ left ih =>
    unfold search
    extract_lets k
    cases hfound : i.candidate? k with
    | some d => exact contains_candidate? hfound
    | none =>
      refine ih (used + 1) ?_
      obtain ⟨n, hn, d, hd⟩ := h
      cases n with
      | zero =>
        rw [Nat.add_zero] at hd
        rw [hfound] at hd
        cases hd
      | succ n => exact ⟨n, by omega, d, by rw [show used + 1 + n = used + (n + 1) by omega]; exact hd⟩

/-! ### The leading digit -/

theorem pow_length_le {n : Nat} (h : n ≠ 0) : 10 ^ ((Nat.toDigits 10 n).length - 1) ≤ n := by
  have hpos : 0 < (Nat.toDigits 10 n).length := Nat.length_toDigits_pos
  by_cases hone : (Nat.toDigits 10 n).length = 1
  · rw [hone]
    omega
  · by_contra hlt
    have hle := (Nat.length_toDigits_le_iff (b := 10) (k := (Nat.toDigits 10 n).length - 1)
      (by decide) (by omega)).2 (Nat.not_le.1 hlt)
    omega

theorem lt_pow_length (n : Nat) : n < 10 ^ (Nat.toDigits 10 n).length :=
  (Nat.length_toDigits_le_iff (by decide) Nat.length_toDigits_pos).1 (Nat.le_refl _)

/-- The centre is at least the power of ten of its leading digit. -/
theorem pow_leading_le (h : i.centre ≠ 0) :
    (10 : ℚ) ^ i.leading ≤ i.centre * (2 : ℚ) ^ i.unit := by
  obtain ⟨ha, hb⟩ := i.power_pos 0
  have ha' : (0 : ℚ) < (i.power 0).1 := by exact_mod_cast ha
  have hb' : (0 : ℚ) < (i.power 0).2 := by exact_mod_cast hb
  have hunit : (2 : ℚ) ^ i.unit = (i.power 0).2 / (i.power 0).1 := by
    rw [eq_div_iff ha'.ne', mul_comm, i.power_eq 0, zpow_zero, mul_one]
  have hnum : 0 < i.centre * (i.power 0).2 := Nat.mul_pos (Nat.pos_of_ne_zero h) hb
  rw [hunit, ← mul_div_assoc, le_div_iff₀ ha']
  unfold leading
  dsimp only
  generalize (i.power 0).1 = a at ha ha' ⊢
  generalize hnumber : i.centre * (i.power 0).2 = num at hnum ⊢
  have hcast : (i.centre : ℚ) * (i.power 0).2 = (num : ℚ) := by exact_mod_cast hnumber
  rw [hcast]
  split
  · rename_i hle
    have hne : num / a ≠ 0 := (Nat.div_pos hle ha).ne'
    have hlen : 0 < (Nat.toDigits 10 (num / a)).length := Nat.length_toDigits_pos
    have hpow : 10 ^ ((Nat.toDigits 10 (num / a)).length - 1) * a ≤ num :=
      (Nat.le_div_iff_mul_le ha).1 (pow_length_le hne)
    rw [show ((Nat.toDigits 10 (num / a)).length : Int) - 1 =
      (((Nat.toDigits 10 (num / a)).length - 1 : Nat) : Int) by omega, zpow_natCast]
    exact_mod_cast hpow
  · have hlt : a < 10 ^ (Nat.toDigits 10 (a / num)).length * num :=
      (Nat.div_lt_iff_lt_mul hnum).1 (lt_pow_length (a / num))
    have hlen : 0 < (Nat.toDigits 10 (a / num)).length := Nat.length_toDigits_pos
    split
    · rename_i heq
      rw [show -(((Nat.toDigits 10 (a / num)).length : Int) - 1) =
        -(((Nat.toDigits 10 (a / num)).length - 1 : Nat) : Int) by omega, zpow_neg, zpow_natCast,
        inv_mul_le_iff₀ (by positivity), mul_comm]
      exact_mod_cast heq.ge
    · rw [zpow_neg, zpow_natCast, inv_mul_le_iff₀ (by positivity)]
      exact_mod_cast hlt.le

end Interval

/-! ### The shortest decimal -/

theorem Decimal.value_strip (fuel : Nat) (d : Decimal) : (d.strip fuel).value = d.value := by
  induction fuel generalizing d with
  | zero => rfl
  | succ fuel ih =>
    unfold strip
    split
    · rename_i h
      have hdigits : d.digits = d.digits / 10 * 10 := by omega
      rw [ih, value, value]
      dsimp only
      rw [zpow_add_one₀ (by norm_num)]
      conv_rhs => rw [hdigits]
      push_cast
      ring
    · rfl

/-- The interval reaches half way to the neighbours, and below a power of two a quarter. -/
theorem low_interval (m : Nat) (e : Int) :
    ((interval m e).low = 4 * m - 2 ∧ (leastExponent < e → m ≠ 2 ^ 52)) ∨
      ((interval m e).low = 4 * m - 1 ∧ m = 2 ^ 52 ∧ leastExponent < e) := by
  unfold interval
  dsimp only
  split
  · rename_i h
    exact .inr ⟨rfl, h.1, h.2⟩
  · rename_i h
    exact .inl ⟨rfl, fun he hm => h ⟨hm, he⟩⟩

/-- **The shortest decimal of a number is within the interval of the number.** -/
theorem contains_shortest {m : Nat} {e : Int} (h : m < significandBound) (hm : m ≠ 0) :
    (interval m e).Contains (shortest m e).value := by
  have hbound : m < 2 ^ 53 := h
  have hcentre : (interval m e).centre = 4 * m := rfl
  have hhigh : (interval m e).high = 4 * m + 2 := rfl
  unfold shortest
  dsimp only
  rw [Decimal.value_strip]
  refine Interval.contains_search 1 17 ⟨16, by decide, ?_⟩
  -- Seventeen digits make a step that is smaller than the interval.
  have hleading := Interval.pow_leading_le (i := interval m e) (by rw [hcentre]; omega)
  generalize hk : (interval m e).leading - (1 + 16 : Nat) + 1 = k
  have hpow : (10 : ℚ) ^ (interval m e).leading = ((10 ^ 16 : Nat) : ℚ) * (10 : ℚ) ^ k := by
    rw [show (interval m e).leading = ((16 : Nat) : Int) + k by omega,
      zpow_add₀ (by norm_num), zpow_natCast]
    norm_cast
  rw [hpow, hcentre] at hleading
  have hstep := Interval.mul_le_iff.2 hleading
  have hb := ((interval m e).power_pos k).2
  refine Interval.exists_candidate? ?_ (by rw [hcentre, hhigh]; omega) ?_
  · rcases low_interval m e with ⟨hlow, _⟩ | ⟨hlow, _, _⟩ <;> rw [hlow, hcentre] <;> omega
  · rw [hhigh]
    generalize ((interval m e).power k).1 = a at hstep ⊢
    generalize ((interval m e).power k).2 = b at hstep hb ⊢
    rcases low_interval m e with ⟨hlow, _⟩ | ⟨hlow, hpower, _⟩
    · rw [hlow, show 4 * m + 2 - (4 * m - 2) = 4 by omega]
      nlinarith
    · rw [hlow, show 4 * m + 2 - (4 * m - 1) = 3 by omega]
      subst hpower
      omega

/-! ### Neighbours -/

/-- The ends of an interval, with a quarter of the exponent's unit for a unit. -/
theorem contains_interval_iff (m : Nat) (e : Int) (v : ℚ) :
    (interval m e).Contains v ↔
      if m % 2 = 0 then (interval m e).low * ((2 : ℚ) ^ e / 4) ≤ v ∧
          v ≤ (4 * m + 2) * ((2 : ℚ) ^ e / 4)
        else (interval m e).low * ((2 : ℚ) ^ e / 4) < v ∧ v < (4 * m + 2) * ((2 : ℚ) ^ e / 4) := by
  have hunit : (2 : ℚ) ^ (interval m e).unit = (2 : ℚ) ^ e / 4 := by
    show (2 : ℚ) ^ (e - 2) = _
    rw [zpow_sub₀ (by norm_num)]
    norm_num
  have hhigh : ((interval m e).high : ℚ) = 4 * m + 2 := by
    show ((4 * m + 2 : Nat) : ℚ) = _
    push_cast
    rfl
  have hclosed : (interval m e).closed = decide (m % 2 = 0) := rfl
  unfold Interval.Contains
  rw [hunit, hhigh, hclosed]
  simp only [decide_eq_true_eq]

/-- Intervals of numbers with the same exponent meet at most in an end, and not both have ends. -/
theorem not_lt_of_contains {m m' : Nat} {e : Int} {v : ℚ}
    (h : (interval m e).Contains v) (h' : (interval m' e).Contains v) : ¬ m < m' := by
  intro hlt
  have hunit : (0 : ℚ) < (2 : ℚ) ^ e / 4 := by positivity
  have hlow : 4 * m + 2 ≤ (interval m' e).low := by
    rcases low_interval m' e with ⟨hlow, _⟩ | ⟨hlow, _, _⟩ <;> omega
  have hends : (4 * m + 2) * ((2 : ℚ) ^ e / 4) ≤ (interval m' e).low * ((2 : ℚ) ^ e / 4) := by
    refine mul_le_mul_of_nonneg_right ?_ hunit.le
    exact_mod_cast hlow
  rw [contains_interval_iff] at h h'
  by_cases heven : m % 2 = 0
  · by_cases heven' : m' % 2 = 0
    · -- Two even numbers are not adjacent, so their intervals do not touch.
      have hlow' : 4 * m + 2 < (interval m' e).low := by
        rcases low_interval m' e with ⟨hlow, _⟩ | ⟨hlow, _, _⟩ <;> omega
      have hstrict : (4 * m + 2) * ((2 : ℚ) ^ e / 4) < (interval m' e).low * ((2 : ℚ) ^ e / 4) := by
        refine mul_lt_mul_of_pos_right ?_ hunit
        exact_mod_cast hlow'
      rw [if_pos heven] at h
      rw [if_pos heven'] at h'
      linarith [h.2, h'.1]
    · rw [if_pos heven] at h
      rw [if_neg heven'] at h'
      linarith [h.2, h'.1]
  · rw [if_neg heven] at h
    by_cases heven' : m' % 2 = 0
    · rw [if_pos heven'] at h'
      linarith [h.2, h'.1]
    · rw [if_neg heven'] at h'
      linarith [h.2, h'.1]

/-- A number with a greater exponent has its interval above, since its significand is full. -/
theorem not_exponent_lt_of_contains {m m' : Nat} {e e' : Int} {v : ℚ} (hm : IsCanonical m e)
    (hm' : IsCanonical m' e') (h : (interval m e).Contains v) (h' : (interval m' e').Contains v) :
    ¬ e < e' := by
  intro hlt
  have hbound : m < 2 ^ 53 := hm.bound
  have hleast : leastExponent < e' := lt_of_le_of_lt hm.least hlt
  have hfull : 2 ^ 52 ≤ m' := hm'.full hleast
  have hunit : (0 : ℚ) < (2 : ℚ) ^ e / 4 := by positivity
  have hdouble : 2 * ((2 : ℚ) ^ e / 4) ≤ (2 : ℚ) ^ e' / 4 := by
    have hpow : (2 : ℚ) ^ (e + 1) ≤ (2 : ℚ) ^ e' := zpow_le_zpow_right₀ (by norm_num) (by omega)
    rw [zpow_add_one₀ (by norm_num)] at hpow
    linarith
  have hlow : 2 ^ 54 - 1 ≤ (interval m' e').low := by
    rcases low_interval m' e' with ⟨hlow, hpower⟩ | ⟨hlow, _, _⟩
    · have := hpower hleast
      omega
    · omega
  have hlow' : ((2 : ℚ) ^ 54 - 1) * (2 * ((2 : ℚ) ^ e / 4)) ≤ (interval m' e').low * ((2 : ℚ) ^ e' / 4) := by
    have hcast : (2 : ℚ) ^ 54 - 1 ≤ (interval m' e').low := by
      have : ((2 ^ 54 - 1 : Nat) : ℚ) ≤ (interval m' e').low := by exact_mod_cast hlow
      norm_num at this ⊢
      exact this
    exact mul_le_mul hcast hdouble (by positivity) (by positivity)
  have hv : ((2 : ℚ) ^ 54 - 1) * (2 * ((2 : ℚ) ^ e / 4)) ≤ v := by
    rw [contains_interval_iff] at h'
    split at h'
    · exact hlow'.trans h'.1
    · exact hlow'.trans h'.1.le
  rw [contains_interval_iff] at h
  split at h
  · have hm' : (m : ℚ) ≤ 2 ^ 53 - 2 := by
      have : ((m + 2 : Nat) : ℚ) ≤ (2 ^ 53 : Nat) := by exact_mod_cast (by omega : m + 2 ≤ 2 ^ 53)
      push_cast at this
      linarith
    nlinarith [h.2]
  · have hm' : (m : ℚ) ≤ 2 ^ 53 - 1 := by
      have : ((m + 1 : Nat) : ℚ) ≤ (2 ^ 53 : Nat) := by exact_mod_cast (by omega : m + 1 ≤ 2 ^ 53)
      push_cast at this
      linarith
    nlinarith [h.2]

/-- **No decimal belongs to two numbers.** -/
theorem eq_of_contains {m m' : Nat} {e e' : Int} {v : ℚ} (hm : IsCanonical m e)
    (hm' : IsCanonical m' e') (h : (interval m e).Contains v)
    (h' : (interval m' e').Contains v) : m = m' ∧ e = e' := by
  have he : e = e' := by
    have := not_exponent_lt_of_contains hm hm' h h'
    have := not_exponent_lt_of_contains hm' hm h' h
    omega
  subst he
  have := not_lt_of_contains h h'
  have := not_lt_of_contains h' h
  exact ⟨by omega, rfl⟩

end StrictDdl.Binary64
