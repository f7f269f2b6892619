import StrictDdl.Ddl.OfModel
import StrictDdl.Proofs.Ddl.OfModel
import StrictDdl.Proofs.Sqlite.Arithmetic
import StrictDdl.Proofs.Sqlite.Meaning

/-! What the guard of a decimal column lets through.

The guard compares a value with a power of ten, and with its own rounding to the scale of the
column. A value with one decimal place more than the scale allows differs from its rounding by at
least that place, so it is refused as long as the tolerance is not wider than the place. With the
default tolerance this is so for scales up to eight (`Sqlite.abs_sub_roundTo_lt_iff`); from nine on
the tolerance is wider than any difference that rounding makes. -/
namespace StrictDdl

namespace Sqlite

/-! ### Rounding -/

/-- The number has no more than so many decimal places. -/
def HasPlaces (places : Nat) (q : ℚ) : Prop := ∃ n : ℤ, q = n / 10 ^ places

section Rounding

variable {places : Nat} {q : ℚ}

theorem abs_sub_roundAway_le (q : ℚ) : |q - roundAway q| ≤ 1 / 2 := by
  unfold roundAway
  split
  · have hlow := Int.floor_le (1 / 2 - q)
    have hhigh := Int.lt_floor_add_one (1 / 2 - q)
    rw [Int.cast_neg, abs_le]
    constructor <;> linarith
  · have hlow := Int.floor_le (q + 1 / 2)
    have hhigh := Int.lt_floor_add_one (q + 1 / 2)
    rw [abs_le]
    constructor <;> linarith

theorem roundAway_intCast (n : ℤ) : roundAway n = n := by
  have h := abs_le.1 (abs_sub_roundAway_le n)
  have hlow : (-1 : ℤ) < n - roundAway n := by
    have : (-1 : ℚ) < n - roundAway n := by linarith
    exact_mod_cast this
  have hhigh : n - roundAway n < (1 : ℤ) := by
    have : n - roundAway n < (1 : ℚ) := by linarith
    exact_mod_cast this
  omega

theorem hasPlaces_roundTo (places : Nat) (q : ℚ) : HasPlaces places (roundTo places q) :=
  ⟨_, rfl⟩

theorem roundTo_of_hasPlaces (h : HasPlaces places q) : roundTo places q = q := by
  obtain ⟨n, rfl⟩ := h
  rw [roundTo, div_mul_cancel₀ _ (by positivity), roundAway_intCast]

/-- Rounding moves a number by no more than half of the last place. -/
theorem abs_sub_roundTo_le (places : Nat) (q : ℚ) :
    |q - roundTo places q| ≤ 1 / 2 / 10 ^ places := by
  have hpos : (0 : ℚ) < 10 ^ places := by positivity
  have hscaled : q - roundTo places q =
      (q * 10 ^ places - roundAway (q * 10 ^ places)) / 10 ^ places := by
    rw [roundTo, sub_div, mul_div_cancel_right₀ _ hpos.ne']
  rw [hscaled, abs_div, abs_of_pos hpos]
  gcongr
  exact abs_sub_roundAway_le _

namespace HasPlaces

theorem succ (h : HasPlaces places q) : HasPlaces (places + 1) q := by
  obtain ⟨n, rfl⟩ := h
  refine ⟨10 * n, ?_⟩
  push_cast
  rw [pow_succ']
  exact (mul_div_mul_left _ _ (by norm_num)).symm

theorem sub {r : ℚ} (h : HasPlaces places q) (h' : HasPlaces places r) :
    HasPlaces places (q - r) := by
  obtain ⟨n, rfl⟩ := h
  obtain ⟨m, rfl⟩ := h'
  refine ⟨n - m, ?_⟩
  rw [Int.cast_sub, sub_div]

/-- A number other than zero is no smaller than its last place. -/
theorem le_abs (h : HasPlaces places q) (hne : q ≠ 0) : 1 / 10 ^ places ≤ |q| := by
  obtain ⟨n, rfl⟩ := h
  have hn : n ≠ 0 := by
    rintro rfl
    exact hne (by simp)
  have hone : (1 : ℚ) ≤ |(n : ℚ)| := by exact_mod_cast Int.one_le_abs hn
  rw [abs_div, abs_of_pos (by positivity : (0 : ℚ) < 10 ^ places)]
  gcongr

end HasPlaces

/-- A place too many is a difference to the rounded number of at least that place. -/
theorem le_abs_sub_roundTo (h : HasPlaces (places + 1) q) (hnot : ¬ HasPlaces places q) :
    1 / 10 ^ (places + 1) ≤ |q - roundTo places q| := by
  have hrounded := hasPlaces_roundTo places q
  refine (h.sub hrounded.succ).le_abs fun hzero => hnot ?_
  rwa [sub_eq_zero.1 hzero]

/-- **A tolerance of the ninth place is narrow enough to notice a place too many**, up to the ninth
place, and too wide beyond. -/
theorem abs_sub_roundTo_lt_iff (h : HasPlaces (places + 1) q) :
    |q - roundTo places q| < 1 / 10 ^ 9 ↔ HasPlaces places q ∨ 9 ≤ places := by
  constructor
  · intro hlt
    by_contra hneither
    obtain ⟨hnot, hfew⟩ := not_or.1 hneither
    have hle := le_abs_sub_roundTo h hnot
    have hpow : (10 : ℚ) ^ (places + 1) ≤ 10 ^ 9 := by
      gcongr
      · norm_num
      · omega
    have hplace : (1 : ℚ) / 10 ^ 9 ≤ 1 / 10 ^ (places + 1) := by gcongr
    linarith
  · rintro (hplaces | hmany)
    · rw [roundTo_of_hasPlaces hplaces, sub_self, abs_zero]
      norm_num
    · have hle := abs_sub_roundTo_le places q
      have hpow : (10 : ℚ) ^ 9 ≤ 10 ^ places := by
        gcongr
        norm_num
      have hhalf : (1 : ℚ) / 2 / 10 ^ places ≤ 1 / 2 / 10 ^ 9 := by gcongr
      norm_num at hhalf ⊢
      linarith

end Rounding

end Sqlite

/-! ### The guard -/

namespace Ddl.Guard

open Sqlite

/-- The condition that a value is below the bound and has so many decimal places. -/
def decimalCondition (bound scale : Nat) (epsilon : String) : Condition :=
  .both (.less (.abs .column) (.whole bound))
    (.less (.abs (.minus .column (.round .column (if 0 < scale then some scale else none))))
      (.fractional epsilon))

theorem condition_decimal (column : String) (bound scale : Nat) (epsilon : String) :
    (Guard.decimal bound scale epsilon).condition column =
      (decimalCondition bound scale epsilon).text column := by
  have hwritten : (Guard.decimal bound scale epsilon).condition column =
      "(abs(" ++ column ++ ") < " ++ writeNat bound ++ " AND abs(" ++ column ++ " - " ++
        (if (scale : Int) > 0 then "round(" ++ column ++ ", " ++ writeInt scale ++ ")"
          else "round(" ++ column ++ ")") ++ ") < " ++ epsilon ++ ")" := rfl
  rw [hwritten, ← String.toList_inj]
  by_cases hscale : 0 < scale
  · simp [decimalCondition, Condition.text, Term.text, hscale, writeInt]
  · simp [decimalCondition, Condition.text, Term.text, hscale]

/-- **The guard of a decimal column is read as it was meant.** -/
theorem read?_decimal {name s : String} (h : name? (Sql.identifier name) = some s)
    (bound scale : Nat) :
    Condition.read? s ((Guard.decimal bound scale "1e-09").condition (Sql.identifier name)) =
      some (decimalCondition bound scale "1e-09") := by
  have hcolumn := (Mode.lexes_identifier name).mono Mode.endsName_of_endsExpr
  rw [scanned_of_name? h] at hcolumn
  have hepsilon : (Term.fractional "1e-09").Regular :=
    ⟨Mode.lexes_number (({} : Settings).decimalEpsilon), by decide +kernel⟩
  rw [condition_decimal]
  exact Condition.read?_text hcolumn
    ⟨⟨trivial, trivial⟩, ⟨⟨trivial, rfl⟩, trivial, rfl⟩, hepsilon⟩

/-- The value is below the bound, and its decimal places are few enough for the tolerance. -/
theorem accepts_decimalCondition_iff {bound scale : Nat} {v : ℚ} (h : HasPlaces (scale + 1) v) :
    (decimalCondition bound scale "1e-09").accepts v ↔
      |v| < bound ∧ (HasPlaces scale v ∨ 9 ≤ scale) := by
  have hepsilon : (numeralValue? "1e-09").getD 0 = 1 / 10 ^ 9 := by
    have hread : Numeral.readDecimal? "1e-09".toList = some (1, -9) := by decide +kernel
    rw [numeralValue?, hread]
    norm_num
  have hscale : (if 0 < scale then some scale else none).getD 0 = scale := by
    split
    · rfl
    · simp only [Option.getD_none]
      omega
  rw [← abs_sub_roundTo_lt_iff h]
  simp only [decimalCondition, Condition.accepts_both, Condition.accepts_less, Term.value, hscale,
    hepsilon]

end Ddl.Guard

namespace Column

open Sqlite Ddl

/-- The guard of a column with a precision, if its bound can be written. -/
theorem decimalGuard_eq {settings : Settings} {c : Column} {precision : Int} {scale : Nat}
    (hepsilon : settings.decimalEpsilon = ({} : Settings).decimalEpsilon)
    (hfamily : c.family = .decimal) (hprecision : c.modifiers.precision = some precision)
    (hscale : c.modifiers.scale.getD 0 = scale) (hpositive : 1 ≤ precision) :
    c.decimalGuard settings =
      if (precision - scale).toNat < Numeral.digitLimit then
        .ok [.decimal (10 ^ (precision - scale).toNat) scale "1e-09"]
      else .error (.tooManyDigits "") := by
  have hwritten : settings.epsilonText = "1e-09" := by
    rw [Settings.epsilonText, hepsilon]
    decide +kernel
  have hne : precision ≠ 0 := by omega
  simp only [decimalGuard, hfamily, hprecision, hscale, hwritten, hne, if_false]
  rfl

theorem lt_bound_iff {precision : Int} {scale : Nat} {q : ℚ} (h : scale ≤ precision) :
    q < (10 ^ (precision - scale).toNat : Nat) ↔ q < 10 ^ (precision - scale) := by
  have hdigits : ((precision - scale).toNat : Int) = precision - scale :=
    Int.toNat_of_nonneg (by omega)
  rw [← hdigits, zpow_natCast]
  push_cast
  rfl

theorem lt_bound {precision : Int} {scale : Nat} {q : ℚ} (h : q < 10 ^ (precision - scale)) :
    q < (10 ^ (precision - scale).toNat : Nat) := by
  have hle : (10 : ℚ) ^ (precision - scale) ≤ 10 ^ ((precision - scale).toNat : Int) :=
    zpow_le_zpow_right₀ (by norm_num) (Int.self_le_toNat _)
  rw [zpow_natCast] at hle
  push_cast
  exact h.trans_le hle

/-- **The guard of a decimal column separates the values of its scale**, up to eight decimal
places. With nine or more the tolerance lets one more place through. -/
theorem decimalGuard_separates {settings : Settings} {c : Column} {precision : Int} {scale : Nat}
    (hepsilon : settings.decimalEpsilon = ({} : Settings).decimalEpsilon)
    (hfamily : c.family = .decimal) (hprecision : c.modifiers.precision = some precision)
    (hscale : c.modifiers.scale.getD 0 = scale) (hpositive : 1 ≤ precision) :
    (precision - scale < Numeral.digitLimit → ∃ guards, c.decimalGuard settings = .ok guards) ∧
    ∀ guards, c.decimalGuard settings = .ok guards → ∃ g condition, guards = [g] ∧
      g.condition (Sql.identifier c.name) = condition.text (Sql.identifier c.name) ∧
      (∀ name, name? (Sql.identifier c.name) = some name →
        Condition.read? name (g.condition (Sql.identifier c.name)) = some condition) ∧
      ∀ v, HasPlaces (scale + 1) v →
        (|v| < 10 ^ (precision - scale) ∧ (HasPlaces scale v ∨ 9 ≤ scale) →
          condition.accepts v) ∧
        (condition.accepts v → (HasPlaces scale v ∨ 9 ≤ scale) ∧
          (scale ≤ precision → |v| < 10 ^ (precision - scale))) := by
  rw [decimalGuard_eq hepsilon hfamily hprecision hscale hpositive]
  constructor
  · intro hdigits
    rw [if_pos ((Int.toNat_lt' (by decide)).2 hdigits)]
    exact ⟨_, rfl⟩
  · intro guards hguards
    split at hguards
    · cases hguards
      refine ⟨_, Guard.decimalCondition _ scale "1e-09", rfl, Guard.condition_decimal _ _ _ _,
        fun _ hname => Guard.read?_decimal hname _ _, fun v hplaces => ?_⟩
      rw [Guard.accepts_decimalCondition_iff hplaces]
      exact ⟨fun ⟨hlt, hfew⟩ => ⟨lt_bound hlt, hfew⟩,
        fun ⟨hlt, hfew⟩ => ⟨hfew, fun hle => (lt_bound_iff hle).1 hlt⟩⟩
    · cases hguards

end Column

/-- A decimal column for values. -/
def Sample.measure (precision scale : Int) : Column where
  name := "value"
  sourceType := "numeric"
  family := .decimal
  enumName := none
  modifiers := { precision := some precision, scale := some scale }
  isPrimaryKey := false
  isRequired := false
  isUnique := false
  isSerial := false
  default := none
  rules := {}
  foreignKey := none
  checks := []

namespace Column

open Sqlite Ddl

/-- With ten digits and two decimal places, 12.34 is let through and 12.345 is not. -/
theorem measure_separates : ∃ g condition, (Sample.measure 10 2).decimalGuard {} = .ok [g] ∧
    Condition.read? "value" (g.condition (Sql.identifier "value")) = some condition ∧
    condition.accepts (1234 / 100) ∧ ¬ condition.accepts (12345 / 1000) := by
  obtain ⟨hsome, hall⟩ := @decimalGuard_separates {} (Sample.measure 10 2) 10 2 rfl rfl rfl rfl
    (by norm_num)
  obtain ⟨guards, hguards⟩ := hsome (by decide)
  obtain ⟨g, condition, rfl, _, hread, haccepts⟩ := hall guards hguards
  have hname : name? (Sql.identifier "value") = some "value" := by decide +kernel
  refine ⟨g, condition, hguards, hread "value" hname, ?_, fun haccepted => ?_⟩
  · have hfew : HasPlaces 2 (1234 / 100) := ⟨1234, by norm_num⟩
    exact (haccepts _ hfew.succ).1 ⟨by norm_num [abs_of_pos], .inl hfew⟩
  · have hmany : HasPlaces 3 (12345 / 1000) := ⟨12345, by norm_num⟩
    rcases ((haccepts _ hmany).2 haccepted).1 with ⟨n, hn⟩ | hnine
    · have htwice : ((2 * n : ℤ) : ℚ) = (2469 : ℤ) := by
        push_cast
        linarith
      have heven : 2 * n = 2469 := by exact_mod_cast htwice
      omega
    · omega

/-- With nine decimal places, a tenth one is let through. -/
theorem measure_tolerates : ∃ g condition, (Sample.measure 12 9).decimalGuard {} = .ok [g] ∧
    Condition.read? "value" (g.condition (Sql.identifier "value")) = some condition ∧
    HasPlaces 10 (1 / 10 ^ 10) ∧
    ¬ (condition.accepts (1 / 10 ^ 10) ↔
      |(1 / 10 ^ 10 : ℚ)| < 10 ^ (12 - 9) ∧ HasPlaces 9 (1 / 10 ^ 10)) := by
  have hname : name? (Sql.identifier "value") = some "value" := by decide +kernel
  have hplaces : HasPlaces 10 (1 / 10 ^ 10) := ⟨1, by norm_num⟩
  have hsmall : |(1 / 10 ^ 10 : ℚ)| = 1 / 10 ^ 10 := abs_of_pos (by norm_num)
  refine ⟨.decimal (10 ^ 3) 9 "1e-09", _, ?_, Guard.read?_decimal hname _ 9, hplaces, fun hiff => ?_⟩
  · exact @decimalGuard_eq {} (Sample.measure 12 9) 12 9 rfl rfl rfl rfl (by norm_num)
  · have hbelow : |(1 / 10 ^ 10 : ℚ)| < (10 ^ 3 : Nat) := by
      rw [hsmall]
      norm_num
    have haccepted := (Guard.accepts_decimalCondition_iff hplaces).2 ⟨hbelow, .inr le_rfl⟩
    have hle := (hiff.1 haccepted).2.le_abs (by norm_num)
    rw [hsmall] at hle
    norm_num at hle

end Column

end StrictDdl
