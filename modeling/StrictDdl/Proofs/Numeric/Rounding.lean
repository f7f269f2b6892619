import Mathlib.Data.Nat.Log
import StrictDdl.Numeric.Reader
import StrictDdl.Proofs.Numeric.Shortest

/-! Rounded numbers.

A quotient is rounded at the exponent that gives it a significand of 53 bits, or at the least
exponent. So every finite number that is read has the largest significand that the format allows,
whatever the numeral (`Numeral.canonical_of_readFloat?`). -/
namespace StrictDdl.Binary64

variable {num den : Nat} {e : Int}

theorem scaled_pos (num : Nat) (hden : 0 < den) (e : Int) : 0 < (scaled num den e).2 := by
  cases e with
  | ofNat e => exact Nat.mul_pos hden (Nat.pow_pos (by decide))
  | negSucc e => exact hden

/-- A quotient in units of a power of two. -/
theorem scaled_eq (num : Nat) (hden : 0 < den) (e : Int) :
    ((scaled num den e).1 : ℚ) / (scaled num den e).2 = num / den / (2 : ℚ) ^ e := by
  have hden' : (den : ℚ) ≠ 0 := by positivity
  cases e with
  | ofNat e =>
    simp only [scaled, Int.ofNat_eq_natCast, zpow_natCast, Nat.pow_eq, Nat.cast_mul, Nat.cast_pow,
      Nat.cast_ofNat]
    field_simp
  | negSucc e =>
    simp only [scaled, zpow_negSucc, Nat.pow_eq, Nat.cast_mul, Nat.cast_pow, Nat.cast_ofNat]
    field_simp

theorem scaled_div_lt_iff (num : Nat) (hden : 0 < den) (e : Int) (k : Nat) :
    (scaled num den e).1 / (scaled num den e).2 < k ↔ (num : ℚ) / den / (2 : ℚ) ^ e < k := by
  have hpos := scaled_pos num hden e
  rw [← scaled_eq num hden, Nat.div_lt_iff_lt_mul hpos, div_lt_iff₀ (by exact_mod_cast hpos)]
  exact_mod_cast Iff.rfl

theorem cast_bound : ((significandBound : Nat) : ℚ) = 2 ^ 53 := by norm_num [significandBound]

/-- The exponent is the least one, or gives the quotient 53 significant bits. -/
structure Fits (num den : Nat) (e : Int) : Prop where
  least : leastExponent ≤ e
  lt_bound : (num : ℚ) / den / (2 : ℚ) ^ e < 2 ^ 53
  full : leastExponent < e → (2 : ℚ) ^ 52 ≤ (num : ℚ) / den / (2 : ℚ) ^ e

/-- The first guess at the exponent is right or one too small. -/
theorem log2_bounds (hnum : num ≠ 0) (hden : den ≠ 0) {e : Int}
    (he : e = (num.log2 : Int) - den.log2 - 53) :
    (2 : ℚ) ^ 52 ≤ (num : ℚ) / den / (2 : ℚ) ^ e ∧ (num : ℚ) / den / (2 : ℚ) ^ e < 2 ^ 54 := by
  have hnum_low : ((2 : ℚ) ^ (num.log2 : Int)) ≤ num := by
    rw [zpow_natCast]
    exact_mod_cast Nat.log2_self_le hnum
  have hnum_high : (num : ℚ) < (2 : ℚ) ^ ((num.log2 : Int) + 1) := by
    rw [← Nat.cast_succ, zpow_natCast]
    exact_mod_cast Nat.lt_log2_self
  have hden_low : ((2 : ℚ) ^ (den.log2 : Int)) ≤ den := by
    rw [zpow_natCast]
    exact_mod_cast Nat.log2_self_le hden
  have hden_high : (den : ℚ) < (2 : ℚ) ^ ((den.log2 : Int) + 1) := by
    rw [← Nat.cast_succ, zpow_natCast]
    exact_mod_cast Nat.lt_log2_self
  have hpos : (0 : ℚ) < den := by exact_mod_cast Nat.pos_of_ne_zero hden
  have htwo : (2 : ℚ) ≠ 0 := by norm_num
  have hunit : (0 : ℚ) < (2 : ℚ) ^ e := by positivity
  rw [div_div, le_div_iff₀ (by positivity), div_lt_iff₀ (by positivity)]
  constructor
  · calc (2 : ℚ) ^ 52 * (den * (2 : ℚ) ^ e)
        ≤ (2 : ℚ) ^ 52 * ((2 : ℚ) ^ ((den.log2 : Int) + 1) * (2 : ℚ) ^ e) := by gcongr
      _ = (2 : ℚ) ^ (num.log2 : Int) := by
        rw [← zpow_natCast (2 : ℚ) 52, ← zpow_add₀ htwo, ← zpow_add₀ htwo]
        congr 1
        push_cast
        omega
      _ ≤ num := hnum_low
  · calc (num : ℚ) < (2 : ℚ) ^ ((num.log2 : Int) + 1) := hnum_high
      _ = (2 : ℚ) ^ 54 * ((2 : ℚ) ^ (den.log2 : Int) * (2 : ℚ) ^ e) := by
        rw [← zpow_natCast (2 : ℚ) 54, ← zpow_add₀ htwo, ← zpow_add₀ htwo]
        congr 1
        push_cast
        omega
      _ ≤ (2 : ℚ) ^ 54 * (den * (2 : ℚ) ^ e) := by gcongr

theorem exponentFor_eq (hnum : num ≠ 0) (hden : den ≠ 0) :
    ∃ e, exponentFor num den = max e leastExponent ∧
      (2 : ℚ) ^ 52 ≤ (num : ℚ) / den / (2 : ℚ) ^ e ∧ (num : ℚ) / den / (2 : ℚ) ^ e < 2 ^ 53 := by
  obtain ⟨hlow, hhigh⟩ := log2_bounds hnum hden rfl
  have hcheck := scaled_div_lt_iff num (Nat.pos_of_ne_zero hden)
    ((num.log2 : Int) - den.log2 - 53) significandBound
  rw [cast_bound] at hcheck
  refine ⟨if (scaled num den ((num.log2 : Int) - den.log2 - 53)).1 /
      (scaled num den ((num.log2 : Int) - den.log2 - 53)).2 < significandBound
    then (num.log2 : Int) - den.log2 - 53 else (num.log2 : Int) - den.log2 - 53 + 1, rfl, ?_⟩
  by_cases hlt : (scaled num den ((num.log2 : Int) - den.log2 - 53)).1 /
      (scaled num den ((num.log2 : Int) - den.log2 - 53)).2 < significandBound
  · rw [if_pos hlt]
    exact ⟨hlow, hcheck.1 hlt⟩
  · have hle := not_lt.1 fun h => hlt (hcheck.2 h)
    rw [if_neg hlt, zpow_add_one₀ (by norm_num : (2 : ℚ) ≠ 0), ← div_div]
    constructor <;> linarith

theorem fits_exponentFor (hnum : num ≠ 0) (hden : den ≠ 0) : Fits num den (exponentFor num den) := by
  obtain ⟨e, he, hlow, hhigh⟩ := exponentFor_eq hnum hden
  rw [he]
  refine ⟨le_max_right _ _, lt_of_le_of_lt ?_ hhigh, fun hlt => ?_⟩
  · gcongr
    · norm_num
    · exact le_max_left _ _
  · rwa [max_eq_left (not_lt.1 fun hlt' => by simp [max_eq_right hlt'.le] at hlt)]

theorem roundHalfEven_bounds (n d : Nat) : n / d ≤ roundHalfEven n d ∧ roundHalfEven n d ≤ n / d + 1 := by
  unfold roundHalfEven
  dsimp only
  split
  · omega
  · split
    · omega
    · omega

/-- The numbers that rounding makes. -/
def Canonical : Binary64 → Prop
  | .finite _ m e => IsCanonical m e
  | _ => True

theorem canonical_zero (negative : Bool) : (zero negative).Canonical where
  bound := by decide
  least := le_rfl
  most := by decide
  full h := absurd h (lt_irrefl _)

/-- A significand that is rounded up to the bound carries into the exponent. -/
theorem canonical_carry (negative : Bool) {m : Nat} {e : Int} (hm : m ≤ significandBound)
    (hleast : leastExponent ≤ e) (hfull : leastExponent < e → significandBound / 2 ≤ m) :
    Canonical
      (let (m, e) := if m = significandBound then (m / 2, e + 1) else (m, e)
      if e > greatestExponent then .infinite negative else .finite negative m e) := by
  by_cases hcarry : m = significandBound
  · rw [if_pos hcarry]
    dsimp only
    split
    · trivial
    · rename_i hmost
      rw [hcarry]
      exact ⟨by decide, by omega, not_lt.1 hmost, fun _ => le_rfl⟩
  · rw [if_neg hcarry]
    dsimp only
    split
    · trivial
    · rename_i hmost
      exact ⟨lt_of_le_of_ne hm hcarry, hleast, not_lt.1 hmost, hfull⟩

theorem canonical_ofRatio (negative : Bool) (num : Nat) (hden : den ≠ 0) :
    (ofRatio negative num den).Canonical := by
  unfold ofRatio
  split
  · exact canonical_zero negative
  · rename_i hnum
    have hfits := fits_exponentFor hnum hden
    have hdiv := scaled_div_lt_iff num (Nat.pos_of_ne_zero hden) (exponentFor num den)
    have hbounds := roundHalfEven_bounds (scaled num den (exponentFor num den)).1
      (scaled num den (exponentFor num den)).2
    have hhalf : ((significandBound / 2 : Nat) : ℚ) = 2 ^ 52 := by norm_num [significandBound]
    have hlt := (hdiv significandBound).2 (by rw [cast_bound]; exact hfits.lt_bound)
    exact canonical_carry negative (Nat.le_trans hbounds.2 hlt) hfits.least fun hleast =>
      Nat.le_trans (not_lt.1 (mt (hdiv (significandBound / 2)).1
        (not_lt.2 (by rw [hhalf]; exact hfits.full hleast)))) hbounds.1

theorem canonical_ofDecimal (negative : Bool) (coefficient : Nat) (exponent : Int) :
    (ofDecimal negative coefficient exponent).Canonical := by
  unfold ofDecimal
  dsimp only
  split
  · exact canonical_zero negative
  · split
    · trivial
    · split
      · exact canonical_ofRatio negative _ one_ne_zero
      · exact canonical_ofRatio negative _ (by simp)

end StrictDdl.Binary64

namespace StrictDdl.Numeral

/-- **Every number that is read has the largest significand that the format allows.** -/
theorem canonical_of_readFloat? {s : String} {x : Binary64} (h : readFloat? s = some x) :
    x.Canonical := by
  obtain ⟨cs, -, h⟩ := Option.bind_eq_some_iff.1 h
  dsimp only at h
  unfold readUnsigned? at h
  dsimp only at h
  split at h
  · cases h
    trivial
  · split at h
    · cases h
      trivial
    · obtain ⟨⟨coefficient, exponent⟩, -, rfl⟩ := Option.map_eq_some_iff.1 h
      exact Binary64.canonical_ofDecimal _ coefficient exponent

end StrictDdl.Numeral
