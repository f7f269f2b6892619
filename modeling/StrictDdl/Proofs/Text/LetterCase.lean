import Mathlib.Data.List.DropRight
import StrictDdl.Text.Blank
import StrictDdl.Text.LetterCase

/-! Names are normal after one pass.

A text in lower case without blanks at its ends stays as it is when it is trimmed and put
in lower case again (`LetterCase.lower_trim_idem`). The reason is in the table: what a row
of it leads to is moved by no row, and is no blank. -/
namespace StrictDdl.LetterCase

open Text

/-! ### Rows -/

/-- Whether a row moves none of the code points from `a` to `b` in steps. -/
def avoids (a b step : Nat) (row : Nat × Nat × Nat × Int) : Bool :=
  match row with
  | (first, last, step', _) =>
    Nat.blt b first || Nat.blt last a ||
      (Nat.beq step' 2 && (Nat.beq step 2 || Nat.beq a b) && Nat.beq ((a + first) % 2) 1)

/-- The code points that are blanks. -/
def blankRanges : List (Nat × Nat) :=
  [(9, 13), (28, 32), (0x85, 0x85), (0xa0, 0xa0), (0x1680, 0x1680), (0x2000, 0x200a),
   (0x2028, 0x2029), (0x202f, 0x202f), (0x205f, 0x205f), (0x3000, 0x3000)]

/-- Whether the code points from `a` to `b` in steps are small letters or past the first
128, are characters and no blanks, and are moved by nothing. -/
def isSettledRange (a b step : Nat) : Bool :=
  (Nat.blt b 0xd800 || Nat.blt 0xdfff a && Nat.blt b 0x110000) &&
  (Nat.ble 128 a || Nat.ble 97 a && Nat.ble b 122) &&
  blankRanges.all (fun r => Nat.blt b r.1 || Nat.blt r.2 a) &&
  avoids a b step (0x130, 0x130, 2, 0) && avoids a b step (0x3a3, 0x3a3, 2, 0) &&
  lowerShifts.all (avoids a b step)

/-- Whether a row leads to settled code points only. -/
def isSettling (row : Nat × Nat × Nat × Int) : Bool :=
  match row with
  | (first, last, step, delta) =>
    Nat.blt 0 step && decide (0 ≤ (first : Int) + delta) &&
      isSettledRange ((first : Int) + delta).toNat ((last : Int) + delta).toNat step

theorem lowerShifts_settling : lowerShifts.all isSettling = true := by
  decide +kernel

/-- What a row that avoids them does not move. -/
theorem not_moved_of_avoids {a b step i first last step' : Nat} {delta : Int}
    (h : avoids a b step (first, last, step', delta)) (hi : a + i * step ≤ b) :
    ¬ (first ≤ a + i * step ∧ a + i * step ≤ last ∧ (a + i * step - first) % step' = 0) := by
  rintro ⟨hfirst, hlast, hmod⟩
  simp only [avoids, Bool.or_eq_true, Bool.and_eq_true, Nat.blt_eq, Nat.beq_eq] at h
  rcases h with (h | h) | ⟨⟨rfl, h⟩, hparity⟩
  · omega
  · omega
  · rcases h with rfl | rfl
    · omega
    · have : i * step = 0 := by omega
      omega

theorem shift_eq_self {n : Nat}
    (h : ∀ row ∈ lowerShifts, ¬ (row.1 ≤ n ∧ n ≤ row.2.1 ∧ (n - row.1) % row.2.2.1 = 0)) :
    shift lowerShifts n = n := by
  have hnone : lowerShifts.find? (fun (first, last, step, _) =>
      first ≤ n && n ≤ last && (n - first) % step == 0) = none := by
    rw [List.find?_eq_none]
    intro row hrow hcovers
    refine h row hrow ?_
    simpa [and_assoc] using hcovers
  rw [shift, hnone]

/-! ### Characters -/

/-- A character that is its own lower case wherever it stands. -/
def Settled (c : Char) : Prop := ∀ before after, lowerChar before c after = [c]

theorem settled_of_toNat {c : Char} (hdotted : c.toNat ≠ 0x130) (hsigma : c.toNat ≠ 0x3a3)
    (hascii : c.toNat < 128 → c.toLower = c)
    (hshift : 128 ≤ c.toNat → shift lowerShifts c.toNat = c.toNat) : Settled c := by
  intro before after
  rw [lowerChar]
  split
  · rename_i hlt
    rw [hascii hlt]
  · rename_i hge
    rw [hshift (by omega), Char.ofNat_toNat]

theorem isBlank_iff {c : Char} :
    isBlank c = true ↔ ∃ r ∈ blankRanges, r.1 ≤ c.toNat ∧ c.toNat ≤ r.2 := by
  simp only [isBlank, blankRanges, List.mem_cons, List.not_mem_nil, or_false, exists_eq_or_imp,
    exists_eq_left, Bool.or_eq_true, Bool.and_eq_true, decide_eq_true_eq, beq_iff_eq]
  omega

theorem toNat_ofNat {n : Nat} (h : n < 0xd800 ∨ 0xdfff < n ∧ n < 0x110000) :
    (Char.ofNat n).toNat = n := by
  have hvalid : n.isValidChar := h
  rw [Char.ofNat, dif_pos hvalid]
  rfl

theorem toLower_eq_self {c : Char} (h : c.toNat < 65 ∨ 90 < c.toNat) : c.toLower = c := by
  have hnot : ¬ (c.val ≥ 'A'.val ∧ c.val ≤ 'Z'.val) := by
    rintro ⟨hge, hle⟩
    have hge : 65 ≤ c.toNat := hge
    have hle : c.toNat ≤ 90 := hle
    omega
  exact dif_neg hnot

theorem settled_of_range {a b step i : Nat} (h : isSettledRange a b step) (hi : a + i * step ≤ b) :
    Settled (Char.ofNat (a + i * step)) ∧ isBlank (Char.ofNat (a + i * step)) = false := by
  simp only [isSettledRange, Bool.and_eq_true, Bool.or_eq_true, Nat.blt_eq, Nat.ble_eq] at h
  obtain ⟨⟨⟨⟨⟨hvalid, hascii⟩, hblank⟩, hdotted⟩, hsigma⟩, hrows⟩ := h
  have hnat : (Char.ofNat (a + i * step)).toNat = a + i * step := toNat_ofNat (by omega)
  constructor
  · refine settled_of_toNat ?_ ?_ ?_ ?_
    · rw [hnat]
      intro heq
      exact not_moved_of_avoids hdotted hi (by omega)
    · rw [hnat]
      intro heq
      exact not_moved_of_avoids hsigma hi (by omega)
    · intro _
      exact toLower_eq_self (by omega)
    · intro _
      rw [hnat]
      exact shift_eq_self fun row hrow => not_moved_of_avoids (List.all_eq_true.1 hrows row hrow) hi
  · rw [← Bool.not_eq_true, isBlank_iff, hnat]
    rintro ⟨r, hr, hle, hge⟩
    have := List.all_eq_true.1 hblank r hr
    simp only [Bool.or_eq_true, Nat.blt_eq] at this
    omega

/-- What a row of the table leads to is settled and no blank. -/
theorem settled_of_row {first last step n : Nat} {delta : Int}
    (hrow : (first, last, step, delta) ∈ lowerShifts) (hfirst : first ≤ n) (hlast : n ≤ last)
    (hmod : (n - first) % step = 0) : Settled (Char.ofNat ((n : Int) + delta).toNat) ∧
      isBlank (Char.ofNat ((n : Int) + delta).toNat) = false := by
  have hsettling := List.all_eq_true.1 lowerShifts_settling _ hrow
  simp only [isSettling, Bool.and_eq_true, Nat.blt_eq, decide_eq_true_eq] at hsettling
  obtain ⟨⟨hstep, hpos⟩, hrange⟩ := hsettling
  have hsteps : (n - first) / step * step = n - first := Nat.div_mul_cancel (Nat.dvd_of_mod_eq_zero hmod)
  have hcode : ((n : Int) + delta).toNat =
      ((first : Int) + delta).toNat + (n - first) / step * step := by
    rw [hsteps]
    omega
  rw [hcode]
  exact settled_of_range hrange (by rw [hsteps]; omega)

theorem ascii_lower : (List.range 128).all (fun n =>
    let c := (Char.ofNat n).toLower
    (decide (c.toNat < 65) || decide (90 < c.toNat) && decide (c.toNat < 128)) &&
      (!isBlank c || isBlank (Char.ofNat n))) = true := by
  decide +kernel

theorem settled_of_toLower {c : Char} (h : c.toNat < 128) :
    Settled c.toLower ∧ (isBlank c.toLower = true → isBlank c = true) := by
  have hlower := List.all_eq_true.1 ascii_lower c.toNat (List.mem_range.2 h)
  simp only [Char.ofNat_toNat, Bool.and_eq_true, Bool.or_eq_true, decide_eq_true_eq,
    Bool.not_eq_true'] at hlower
  obtain ⟨hcode, hblank⟩ := hlower
  refine ⟨settled_of_toNat (by omega) (by omega) (fun _ => toLower_eq_self (by omega)) (by omega),
    fun hx => ?_⟩
  rcases hblank with hnot | hc
  · rw [hx] at hnot
    cases hnot
  · exact hc

/-- The lower case of a character is settled, and is a blank only if the character is. -/
theorem settled_of_mem_lowerChar {before after : List Char} {c x : Char}
    (h : x ∈ lowerChar before c after) : Settled x ∧ (isBlank x = true → isBlank c = true) := by
  have hfixed : ∀ n ∈ [0x307, 0x3c2, 0x3c3],
      Settled (Char.ofNat n) ∧ isBlank (Char.ofNat n) = false := by
    intro n hn
    refine ⟨settled_of_toNat ?_ ?_ ?_ ?_, ?_⟩ <;> revert n <;> decide
  have hvisible : ∀ y, isBlank y = false → isBlank y = true → isBlank c = true := by
    intro y hnot hy
    rw [hnot] at hy
    cases hy
  rw [lowerChar] at h
  split at h
  · rename_i hlt
    obtain rfl := List.mem_singleton.1 h
    exact settled_of_toLower hlt
  · rename_i hge
    split at h
    · rcases List.mem_cons.1 h with rfl | h
      · exact ⟨fun _ _ => rfl, hvisible _ (by decide)⟩
      · obtain rfl := List.mem_singleton.1 h
        obtain ⟨hsettled, hblank⟩ := hfixed 0x307 (by simp)
        exact ⟨hsettled, hvisible _ hblank⟩
    · rename_i hdotted
      split at h
      · obtain rfl := List.mem_singleton.1 h
        obtain ⟨hsettled, hblank⟩ := hfixed
          (if meetsCased before && !meetsCased after then 0x3c2 else 0x3c3) (by split <;> simp)
        exact ⟨hsettled, hvisible _ hblank⟩
      · rename_i hsigma
        obtain rfl := List.mem_singleton.1 h
        cases hfind : lowerShifts.find? (fun (first, last, step, _) =>
            first ≤ c.toNat && c.toNat ≤ last && (c.toNat - first) % step == 0) with
        | some row =>
          obtain ⟨first, last, step, delta⟩ := row
          have hcovers := List.find?_some hfind
          simp only [Bool.and_eq_true, decide_eq_true_eq, beq_iff_eq] at hcovers
          obtain ⟨⟨hfirst, hlast⟩, hmod⟩ := hcovers
          obtain ⟨hsettled, hblank⟩ :=
            settled_of_row (List.mem_of_find?_eq_some hfind) hfirst hlast hmod
          rw [shift, hfind]
          exact ⟨hsettled, hvisible _ hblank⟩
        | none =>
          have hshift : shift lowerShifts c.toNat = c.toNat := by rw [shift, hfind]
          rw [hshift, Char.ofNat_toNat]
          exact ⟨settled_of_toNat hdotted hsigma (by omega) fun _ => hshift, id⟩

theorem lowerChar_ne_nil (before : List Char) (c : Char) (after : List Char) :
    lowerChar before c after ≠ [] := by
  rw [lowerChar]
  split
  · simp
  · split
    · simp
    · split <;> simp

/-! ### Texts -/

theorem lowerFrom_of_settled {before cs : List Char} (h : ∀ c ∈ cs, Settled c) :
    lowerFrom before cs = cs := by
  induction cs generalizing before with
  | nil => rfl
  | cons c cs ih =>
    obtain ⟨hc, hcs⟩ := List.forall_mem_cons.1 h
    rw [lowerFrom, hc, ih hcs]
    rfl

theorem settled_of_mem_lowerFrom {before cs : List Char} {x : Char} (h : x ∈ lowerFrom before cs) :
    Settled x := by
  induction cs generalizing before with
  | nil => cases h
  | cons c cs ih =>
    rw [lowerFrom] at h
    rcases List.mem_append.1 h with h | h
    · exact (settled_of_mem_lowerChar h).1
    · exact ih h

theorem lowerFrom_append_singleton (before cs : List Char) (c : Char) :
    ∃ front context, lowerFrom before (cs ++ [c]) = front ++ lowerChar context c [] := by
  induction cs generalizing before with
  | nil => exact ⟨[], before, by rw [List.nil_append, lowerFrom, lowerFrom, List.append_nil]; rfl⟩
  | cons d cs ih =>
    obtain ⟨front, context, heq⟩ := ih (d :: before)
    refine ⟨lowerChar before d (cs ++ [c]) ++ front, context, ?_⟩
    rw [List.cons_append, lowerFrom, heq, List.append_assoc]

theorem trimBoth_eq_self {p : Char → Bool} {cs : List Char}
    (hhead : ∀ c rest, cs = c :: rest → p c = false)
    (hlast : ∀ front c, cs = front ++ [c] → p c = false) : trimBoth p cs = cs := by
  have hfront : cs.dropWhile p = cs := by
    cases cs with
    | nil => rfl
    | cons c rest => rw [List.dropWhile_cons_of_neg (by simp [hhead c rest rfl])]
  show (cs.dropWhile p).rdropWhile p = cs
  rw [hfront, List.rdropWhile_eq_self_iff]
  intro hne
  simp [hlast _ _ (List.dropLast_append_getLast hne).symm]

theorem head_trimBoth {p : Char → Bool} {cs : List Char} {c : Char} {rest : List Char}
    (h : trimBoth p cs = c :: rest) : p c = false := by
  obtain ⟨back, hback⟩ : trimBoth p cs <+: cs.dropWhile p := List.rdropWhile_prefix p _
  have hnot := List.head?_dropWhile_not p cs
  rw [← hback, h] at hnot
  exact hnot

theorem last_trimBoth {p : Char → Bool} {cs : List Char} {c : Char} {front : List Char}
    (h : trimBoth p cs = front ++ [c]) : p c = false := by
  have hne : trimBoth p cs ≠ [] := by simp [h]
  have hnot : ¬ p ((trimBoth p cs).getLast hne) := List.rdropWhile_last_not p (cs.dropWhile p) hne
  simp only [h, List.getLast_append_singleton] at hnot
  simpa using hnot

/-- What is trimmed has no blanks at its ends in lower case either. -/
theorem trimBoth_lowerFrom {cs : List Char} (hhead : ∀ c rest, cs = c :: rest → isBlank c = false)
    (hlast : ∀ front c, cs = front ++ [c] → isBlank c = false) :
    trimBoth isBlank (lowerFrom [] cs) = lowerFrom [] cs := by
  have hvisible : ∀ before c after x, x ∈ lowerChar before c after → isBlank c = false →
      isBlank x = false := by
    intro before c after x hx hc
    rw [← Bool.not_eq_true] at hc ⊢
    exact fun h => hc ((settled_of_mem_lowerChar hx).2 h)
  refine trimBoth_eq_self ?_ ?_
  · intro x rest heq
    cases cs with
    | nil => cases heq
    | cons c cs =>
      rw [lowerFrom] at heq
      obtain ⟨y, ys, hy⟩ := List.exists_cons_of_ne_nil (lowerChar_ne_nil [] c cs)
      rw [hy, List.cons_append] at heq
      obtain ⟨rfl, _⟩ := List.cons.inj heq
      exact hvisible [] c cs y (by simp [hy]) (hhead c cs rfl)
  · intro front x heq
    rcases cs.eq_nil_or_concat' with rfl | ⟨init, c, rfl⟩
    · simp [lowerFrom] at heq
    · obtain ⟨front', context, heq'⟩ := lowerFrom_append_singleton [] init c
      have hx : (lowerChar context c []).getLast? = some x := by
        have hlast := congrArg List.getLast? (heq'.symm.trans heq)
        rwa [List.getLast?_append_of_ne_nil _ (lowerChar_ne_nil context c []),
          List.getLast?_append_of_ne_nil _ (List.cons_ne_nil x []), List.getLast?_singleton] at hlast
      exact hvisible context c [] x (List.mem_of_getLast? hx) (hlast init c rfl)

/-- **A name that is trimmed and in lower case stays as it is.** -/
theorem lower_trim_idem (s : String) : lower (trim (lower (trim s))) = lower (trim s) := by
  have htrim : trim (lower (trim s)) = lower (trim s) := by
    rw [trim, lower, String.toList_ofList, trim, String.toList_ofList,
      trimBoth_lowerFrom (fun _ _ => head_trimBoth) (fun _ _ => last_trimBoth)]
  rw [htrim, lower, lower, String.toList_ofList,
    lowerFrom_of_settled fun _ h => settled_of_mem_lowerFrom h]

end StrictDdl.LetterCase
