import StrictDdl.Numeric.Writer
import StrictDdl.Proofs.Numeric.Decimal
import StrictDdl.Proofs.Numeric.Shortest

/-! Written numbers.

A binary number is written as the digits of its shortest decimal. Wherever the point stands and
whatever the exponent behind them, they spell that decimal (`Binary64.spells_magnitude`), and the
decimal belongs to one number only. So two numbers without a sign that are written alike are the
same (`Binary64.eq_of_write_eq`). -/
namespace StrictDdl

namespace Numeral

/-- The characters spell a decimal of this value. -/
def Spells (cs : List Char) (v : ℚ) : Prop :=
  ∃ coefficient k, readDecimal? cs = some (coefficient, k) ∧ (coefficient : ℚ) * (10 : ℚ) ^ k = v

variable {cs ds : List Char} {v w : ℚ}

theorem Spells.unique (h : Spells cs v) (h' : Spells cs w) : v = w := by
  obtain ⟨c, k, hread, rfl⟩ := h
  obtain ⟨c', k', hread', rfl⟩ := h'
  rw [hread, Option.some.injEq, Prod.mk.injEq] at hread'
  rw [hread'.1, hread'.2]

theorem value_eq (ds : List Char) : value ds = Nat.ofDigitChars 10 ds 0 := rfl

theorem value_zeros_append (n : Nat) (ds : List Char) :
    value (List.replicate n '0' ++ ds) = value ds := by
  rw [value_eq, Nat.ofDigitChars_append, Nat.ofDigitChars_replicate_zero, Nat.mul_zero]
  rfl

theorem value_append_zeros (ds : List Char) (n : Nat) :
    value (ds ++ List.replicate n '0') = 10 ^ n * value ds := by
  rw [value_eq, Nat.ofDigitChars_append, Nat.ofDigitChars_replicate_zero]
  rfl

theorem value_digitChars (n : Nat) : value (digitChars n) = n := Nat.ofDigitChars_ten_toDigits

theorem isDigits_digitChars (n : Nat) : IsDigits (digitChars n) where
  ne_nil := Nat.toDigits_ne_nil
  digits c hc := by
    have := Nat.isDigit_of_mem_toDigits (by decide) (by decide) hc
    simpa only [Char.isDigit, isDigit, Char.le_def, ge_iff_le] using this

/-- Digits around a point, with no exponent behind them. -/
theorem readDecimal?_fraction {ds part : List Char} (hds : ∀ c ∈ ds, isDigit c)
    (hpart : ∀ c ∈ part, isDigit c) (hne : ds ++ part ≠ []) :
    readDecimal? (ds ++ '.' :: part) = some (value (ds ++ part), (0 : Int) - part.length) := by
  have hread := readDecimal?_point hds hpart hne (by simp) (rfl : readExponent? [] = some 0)
  rwa [List.append_nil] at hread

theorem isDigit_of_mem_replicate {n : Nat} {c : Char} (h : c ∈ List.replicate n '0') :
    isDigit c := by
  rw [(List.mem_replicate.1 h).2]
  rfl

end Numeral

namespace Binary64

open Numeral

variable {ds : List Char} {k leading : Int}

theorem isDigit_zero : ∀ c ∈ ['0'], isDigit c := by
  intro c hc
  rw [List.mem_singleton.1 hc]
  rfl

/-- The digits stand behind the point, after some zeros. -/
theorem spells_below_one (hds : IsDigits ds) (n : Nat) :
    Spells ('0' :: '.' :: (List.replicate n '0' ++ ds))
      (value ds * (10 : ℚ) ^ ((0 : Int) - (n + ds.length : Nat))) := by
  have hpart : ∀ c ∈ List.replicate n '0' ++ ds, isDigit c := by
    intro c hc
    rcases List.mem_append.1 hc with hc | hc
    · exact isDigit_of_mem_replicate hc
    · exact hds.digits c hc
  have hread := readDecimal?_fraction isDigit_zero hpart (by simp)
  refine ⟨_, _, hread, ?_⟩
  have hvalue : value (['0'] ++ (List.replicate n '0' ++ ds)) = value ds := by
    rw [← List.append_assoc]
    exact value_zeros_append (n + 1) ds
  rw [hvalue, List.length_append, List.length_replicate]

/-- The digits end before the point: zeros up to it, and one behind it. -/
theorem spells_padded (hds : IsDigits ds) (n : Nat) :
    Spells (ds ++ List.replicate n '0' ++ '.' :: ['0']) (value ds * (10 : ℚ) ^ (n : Int)) := by
  have hwhole : ∀ c ∈ ds ++ List.replicate n '0', isDigit c := by
    intro c hc
    rcases List.mem_append.1 hc with hc | hc
    · exact hds.digits c hc
    · exact isDigit_of_mem_replicate hc
  have hread := readDecimal?_fraction hwhole isDigit_zero (by simp)
  refine ⟨_, _, hread, ?_⟩
  have hvalue : value (ds ++ List.replicate n '0' ++ ['0']) = 10 ^ (n + 1) * value ds := by
    rw [List.append_assoc, ← List.replicate_succ']
    exact value_append_zeros ds (n + 1)
  rw [hvalue]
  push_cast
  rw [List.length_singleton, Nat.cast_one, zero_sub, zpow_neg_one, pow_succ, zpow_natCast]
  ring

/-- The point stands among the digits. -/
theorem spells_split (hds : IsDigits ds) {n : Nat} (hn : n < ds.length) :
    Spells (ds.take n ++ '.' :: ds.drop n)
      (value ds * (10 : ℚ) ^ ((0 : Int) - (ds.length - n : Nat))) := by
  have hne : ds.drop n ≠ [] := by
    rw [ne_eq, List.drop_eq_nil_iff]
    omega
  have hread := readDecimal?_fraction
    (fun c hc => hds.digits c (List.mem_of_mem_take hc))
    (fun c hc => hds.digits c (List.mem_of_mem_drop hc))
    (List.append_ne_nil_of_right_ne_nil (ds.take n) hne)
  refine ⟨_, _, hread, ?_⟩
  rw [List.take_append_drop, List.length_drop]

/-- The point stands behind the digit of exponent zero. -/
theorem spells_positional (hds : IsDigits ds) (hleading : leading = k + ds.length - 1) :
    Spells (positional ds leading) (value ds * (10 : ℚ) ^ k) := by
  cases leading with
  | negSucc n =>
    obtain rfl : k = (0 : Int) - (n + ds.length : Nat) := by omega
    exact spells_below_one hds n
  | ofNat n =>
    rw [Int.ofNat_eq_natCast] at hleading
    unfold positional
    dsimp only
    by_cases hlen : ds.length ≤ n + 1
    · obtain rfl : k = (n + 1 - ds.length : Nat) := by omega
      rw [List.take_of_length_le hlen, List.drop_of_length_le hlen]
      exact spells_padded hds (n + 1 - ds.length)
    · obtain rfl : k = (0 : Int) - (ds.length - (n + 1) : Nat) := by omega
      have hne : ds.drop (n + 1) ≠ [] := by
        rw [ne_eq, List.drop_eq_nil_iff]
        exact hlen
      have htake : (ds.take (n + 1)).length = n + 1 := by
        rw [List.length_take]
        omega
      rw [htake, Nat.sub_self, List.replicate_zero, List.append_nil, if_neg (by simpa using hne)]
      exact spells_split hds (Nat.not_le.1 hlen)

/-- The exponent behind the digits is read back. -/
theorem readExponent?_written (leading : Int) :
    readExponent? ('e' :: (if leading < 0 then '-' else '+') :: pad 2 (digitChars leading.natAbs)) =
      some leading := by
  have hpad : IsDigits (pad 2 (digitChars leading.natAbs)) := by
    have hnat := isDigits_digitChars leading.natAbs
    refine ⟨by simp [pad, hnat.ne_nil], fun c hc => ?_⟩
    rcases List.mem_append.1 hc with hc | hc
    · exact isDigit_of_mem_replicate hc
    · exact hnat.digits c hc
  have hvalue : value (pad 2 (digitChars leading.natAbs)) = leading.natAbs := by
    rw [pad, value_zeros_append, value_digitChars]
  split
  · have := readExponent?_marked (.inl rfl) .minus hpad
    rw [List.singleton_append, hvalue] at this
    rw [this, if_pos (by rfl)]
    congr 1
    omega
  · have := readExponent?_marked (.inl rfl) .plus hpad
    rw [List.singleton_append, hvalue] at this
    rw [this, if_neg (by decide)]
    congr 1
    omega

/-- The point stands behind the first digit, and the exponent says how far off that is. -/
theorem spells_scientific (hds : IsDigits ds) (hleading : leading = k + ds.length - 1) :
    Spells (scientific ds leading) (value ds * (10 : ℚ) ^ k) := by
  have hexponent := readExponent?_written leading
  have hhead : ∀ rest : List Char, ∀ c ∈ ('e' :: rest).head?, isDigit c = false ∧ c ≠ '.' := by
    intro rest c hc
    obtain rfl : 'e' = c := Option.some.inj hc
    decide
  unfold scientific
  split
  · exact absurd rfl hds.ne_nil
  · exact ⟨_, _, readDecimal?_whole hds (hhead _) hexponent, by simp [hleading]⟩
  · rename_i d rest _
    have hfirst : ∀ c ∈ [d], isDigit c := by
      intro c hc
      exact hds.digits c (List.mem_cons.2 (.inl (List.mem_singleton.1 hc)))
    have hrest : ∀ c ∈ rest, isDigit c := fun c hc => hds.digits c (List.mem_cons_of_mem d hc)
    have hread := readDecimal?_point hfirst hrest (by simp) (hhead _) hexponent
    refine ⟨_, _, hread, ?_⟩
    have hk : leading - rest.length = k := by
      rw [hleading, List.length_cons]
      omega
    rw [hk]
    rfl

theorem IsCanonical.exponent_of_zero {m : Nat} {e : Int} (h : IsCanonical m e) (hm : m = 0) :
    e = leastExponent := by
  refine le_antisymm (not_lt.1 fun hlt => ?_) h.least
  have hfull := h.full hlt
  rw [hm] at hfull
  exact absurd hfull (by decide)

theorem toList_write (style : FloatStyle) (m : Nat) (e : Int) :
    ((finite false m e).write style).toList =
      if m = 0 then ['0', '.', '0']
      else
        let d := shortest m e
        let ds := digitChars d.digits
        let leading := d.exponent + ds.length - 1
        if style.least ≤ leading ∧ leading < style.most then positional ds leading
        else scientific ds leading := by
  rw [write, String.toList_append, String.toList_ofList]
  rfl

/-- A number without a sign is written as the decimal of its digits. -/
theorem spells_write (style : FloatStyle) (m : Nat) (e : Int) :
    Spells ((finite false m e).write style).toList (if m = 0 then 0 else (shortest m e).value) := by
  rw [toList_write]
  by_cases hm : m = 0
  · rw [if_pos hm, if_pos hm]
    exact ⟨0, -1, rfl, by simp⟩
  · rw [if_neg hm, if_neg hm]
    have hvalue : (shortest m e).value =
        value (digitChars (shortest m e).digits) * (10 : ℚ) ^ (shortest m e).exponent := by
      rw [value_digitChars]
      rfl
    rw [hvalue]
    dsimp only
    split
    · exact spells_positional (isDigits_digitChars _) rfl
    · exact spells_scientific (isDigits_digitChars _) rfl

/-- The decimal of a number that is not zero is not zero. -/
theorem value_shortest_pos {m : Nat} {e : Int} (h : m < significandBound) (hm : m ≠ 0) :
    0 < (shortest m e).value := by
  have hlow : 0 < (interval m e).low := by
    rcases low_interval m e with ⟨hlow, _⟩ | ⟨hlow, _⟩ <;> omega
  have hunit : (0 : ℚ) < (interval m e).low * (2 : ℚ) ^ (interval m e).unit := by positivity
  have hcontains := contains_shortest (e := e) h hm
  unfold Interval.Contains at hcontains
  split at hcontains
  · exact lt_of_lt_of_le hunit hcontains.1
  · exact lt_trans hunit hcontains.1

/-- **Numbers without a sign that are written alike are the same.** -/
theorem eq_of_write_eq {style : FloatStyle} {m m' : Nat} {e e' : Int} (hm : IsCanonical m e)
    (hm' : IsCanonical m' e')
    (h : (finite false m e).write style = (finite false m' e').write style) : m = m' ∧ e = e' := by
  have hvalue := (spells_write style m e).unique (h ▸ spells_write style m' e')
  by_cases hzero : m = 0 <;> by_cases hzero' : m' = 0
  · exact ⟨hzero.trans hzero'.symm, (hm.exponent_of_zero hzero).trans (hm'.exponent_of_zero hzero').symm⟩
  · rw [if_pos hzero, if_neg hzero'] at hvalue
    exact absurd hvalue (value_shortest_pos hm'.bound hzero').ne
  · rw [if_neg hzero, if_pos hzero'] at hvalue
    exact absurd hvalue (value_shortest_pos hm.bound hzero).ne'
  · rw [if_neg hzero, if_neg hzero'] at hvalue
    have hcontains := contains_shortest (e := e') hm'.bound hzero'
    rw [← hvalue] at hcontains
    exact eq_of_contains hm hm' (contains_shortest hm.bound hzero) hcontains

/-! ### Characters -/

/-- Some digits in the characters of decimal numerals stay there with a point or an exponent. -/
theorem chars_positional (h : ∀ c ∈ ds, c ∈ decimalChars) :
    ∀ c ∈ positional ds leading, c ∈ decimalChars := by
  have hzeros : ∀ n, ∀ c ∈ List.replicate n '0', c ∈ decimalChars := fun n c hc =>
    mem_decimalChars (isDigit_of_mem_replicate hc)
  have hpoint : '.' ∈ decimalChars := by simp [decimalChars]
  cases leading with
  | ofNat n =>
    have hpart : ∀ c ∈ (if (ds.drop (n + 1)).isEmpty then ['0'] else ds.drop (n + 1)),
        c ∈ decimalChars := by
      intro c hc
      split at hc
      · exact hzeros 1 c hc
      · exact h c (List.mem_of_mem_drop hc)
    exact List.forall_mem_append.2 ⟨List.forall_mem_append.2
      ⟨fun c hc => h c (List.mem_of_mem_take hc), hzeros _⟩, List.forall_mem_cons.2 ⟨hpoint, hpart⟩⟩
  | negSucc n =>
    exact List.forall_mem_append.2 ⟨List.forall_mem_cons.2 ⟨hzeros 1 '0' (by simp),
      List.forall_mem_cons.2 ⟨hpoint, hzeros n⟩⟩, h⟩

theorem chars_scientific (h : ∀ c ∈ ds, c ∈ decimalChars) :
    ∀ c ∈ scientific ds leading, c ∈ decimalChars := by
  have hexponent : ∀ c ∈ pad 2 (digitChars leading.natAbs), c ∈ decimalChars :=
    List.forall_mem_append.2 ⟨fun c hc => mem_decimalChars (isDigit_of_mem_replicate hc),
      fun c hc => mem_decimalChars ((isDigits_digitChars _).digits c hc)⟩
  have hsign : (if leading < 0 then '-' else '+') ∈ decimalChars := by split <;> simp [decimalChars]
  refine List.forall_mem_append.2 ⟨fun c hc => ?_, List.forall_mem_cons.2 ⟨by simp [decimalChars],
    List.forall_mem_cons.2 ⟨hsign, hexponent⟩⟩⟩
  split at hc
  · exact h c hc
  · exact h c hc
  · obtain ⟨hfirst, hrest⟩ := List.forall_mem_cons.1 h
    exact List.forall_mem_cons.2 ⟨hfirst, List.forall_mem_cons.2 ⟨by simp [decimalChars], hrest⟩⟩ c hc

/-- A number without a sign is written in the characters of decimal numerals. -/
theorem chars_write (style : FloatStyle) (m : Nat) (e : Int) :
    ∀ c ∈ ((finite false m e).write style).toList, c ∈ decimalChars := by
  have hdigits : ∀ c ∈ digitChars (shortest m e).digits, c ∈ decimalChars := fun c hc =>
    mem_decimalChars ((isDigits_digitChars _).digits c hc)
  rw [toList_write]
  dsimp only
  split
  · simp [decimalChars, digits]
  · split
    · exact chars_positional hdigits
    · exact chars_scientific hdigits

/-- A number without a sign starts with a digit. -/
theorem exists_head_write (style : FloatStyle) (m : Nat) (e : Int) :
    ∃ c rest, ((finite false m e).write style).toList = c :: rest ∧ isDigit c := by
  obtain ⟨d, ds, hds⟩ := List.exists_cons_of_ne_nil (isDigits_digitChars (shortest m e).digits).ne_nil
  have hd := (isDigits_digitChars (shortest m e).digits).digits d (by simp [hds])
  rw [toList_write]
  dsimp only
  rw [hds]
  split
  · exact ⟨'0', _, rfl, rfl⟩
  · split
    · unfold positional
      split
      · exact ⟨d, _, rfl, hd⟩
      · exact ⟨'0', _, rfl, rfl⟩
    · cases ds with
      | nil => exact ⟨d, _, rfl, hd⟩
      | cons d' ds => exact ⟨d, _, rfl, hd⟩

end Binary64

end StrictDdl
