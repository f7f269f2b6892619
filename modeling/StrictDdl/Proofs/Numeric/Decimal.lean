import Mathlib.Tactic.IntervalCases
import StrictDdl.ParseTree.Constant
import StrictDdl.Proofs.Text.LetterCase

/-! Decimal numerals.

A decimal numeral is a mantissa, digits with or without a point, with a sign before it and an
exponent behind it or without them. Every decimal numeral is read as a number
(`Json.toNumber_of_isDecimal`): as a whole one if it spells one with few enough digits, else as a
binary one, which may be an infinity but always is a number. -/
namespace StrictDdl

namespace Numeral

/-- Some digits. -/
structure IsDigits (cs : List Char) : Prop where
  ne_nil : cs ≠ []
  digits : ∀ c ∈ cs, isDigit c

inductive IsSign : List Char → Prop where
  | absent : IsSign []
  | plus : IsSign ['+']
  | minus : IsSign ['-']

inductive IsMantissa : List Char → Prop where
  | whole {ds : List Char} : IsDigits ds → IsMantissa ds
  | point {ds part : List Char} : (∀ c ∈ ds, isDigit c) → (∀ c ∈ part, isDigit c) →
    ds ++ part ≠ [] → IsMantissa (ds ++ '.' :: part)

inductive IsExponent : List Char → Prop where
  | absent : IsExponent []
  | marked {mark : Char} {sign ds : List Char} : mark = 'e' ∨ mark = 'E' → IsSign sign →
    IsDigits ds → IsExponent (mark :: (sign ++ ds))

/-- A decimal numeral, with a sign, a point and an exponent or without. -/
def IsDecimal (cs : List Char) : Prop :=
  ∃ sign mantissa exponent, cs = sign ++ (mantissa ++ exponent) ∧ IsSign sign ∧
    IsMantissa mantissa ∧ IsExponent exponent

variable {cs ds : List Char}

/-! ### Parts -/

theorem takeSign_append (h : IsSign cs) (hhead : ∀ c ∈ ds.head?, c ≠ '-' ∧ c ≠ '+') :
    takeSign (cs ++ ds) = (cs == ['-'], ds) := by
  cases h with
  | absent =>
    cases ds with
    | nil => rfl
    | cons c ds =>
      obtain ⟨hminus, hplus⟩ := hhead c rfl
      rw [List.nil_append, takeSign]
      · rfl
      · rintro _ ⟨⟩
        exact hminus rfl
      · rintro _ ⟨⟩
        exact hplus rfl
  | plus | minus => rfl

theorem span_append (hds : ∀ c ∈ ds, isDigit c) (hcs : ∀ c ∈ cs.head?, isDigit c = false) :
    span (ds ++ cs) = (ds, cs) := by
  have hstop : cs.takeWhile isDigit = [] ∧ cs.dropWhile isDigit = cs := by
    cases cs with
    | nil => exact ⟨rfl, rfl⟩
    | cons c cs =>
      have hc := hcs c rfl
      simp [hc]
  rw [span, List.takeWhile_append_of_pos hds, List.dropWhile_append_of_pos hds, hstop.1, hstop.2,
    List.append_nil]

theorem ne_sign_of_isDigit {c : Char} (h : isDigit c) : c ≠ '-' ∧ c ≠ '+' := by
  constructor <;> rintro rfl <;> cases h

theorem IsExponent.head (h : IsExponent cs) : ∀ c ∈ cs.head?, isDigit c = false ∧ c ≠ '.' := by
  cases h with
  | absent => simp
  | marked hmark _ _ =>
    intro c hc
    obtain rfl := Option.some.inj hc
    rcases hmark with rfl | rfl <;> decide

theorem readExponent?_marked {mark : Char} {sign : List Char} (hmark : mark = 'e' ∨ mark = 'E')
    (hsign : IsSign sign) (hds : IsDigits ds) :
    readExponent? (mark :: (sign ++ ds)) =
      some (if sign == ['-'] then -(value ds : Int) else value ds) := by
  have htake : takeSign (sign ++ ds) = (sign == ['-'], ds) := by
    refine takeSign_append hsign fun c hc => ne_sign_of_isDigit ?_
    exact hds.digits c (List.mem_of_mem_head? hc)
  have hgood : (ds.isEmpty || !ds.all isDigit) = false := by
    rw [List.all_eq_true.2 hds.digits, List.isEmpty_eq_false_iff.2 hds.ne_nil]
    rfl
  rw [readExponent?, if_pos hmark, htake]
  simp only [hgood]
  rfl

theorem readDecimal?_whole {exponent : List Char} {k : Int} (hds : IsDigits ds)
    (hhead : ∀ c ∈ exponent.head?, isDigit c = false ∧ c ≠ '.')
    (hk : readExponent? exponent = some k) :
    readDecimal? (ds ++ exponent) = some (value ds, k) := by
  have hspan : span (ds ++ exponent) = (ds, exponent) :=
    span_append hds.digits fun c hc => (hhead c hc).1
  have hne : ds.isEmpty = false := List.isEmpty_eq_false_iff.2 hds.ne_nil
  unfold readDecimal?
  rw [hspan]
  dsimp only
  split
  · exact absurd rfl (hhead '.' rfl).2
  · simp [hne, hk]

theorem readDecimal?_point {part exponent : List Char} {k : Int} (hds : ∀ c ∈ ds, isDigit c)
    (hpart : ∀ c ∈ part, isDigit c) (hne : ds ++ part ≠ [])
    (hhead : ∀ c ∈ exponent.head?, isDigit c = false ∧ c ≠ '.')
    (hk : readExponent? exponent = some k) :
    readDecimal? (ds ++ '.' :: (part ++ exponent)) =
      some (value (ds ++ part), k - part.length) := by
  have hspan : span (ds ++ '.' :: (part ++ exponent)) = (ds, '.' :: (part ++ exponent)) :=
    span_append hds (by simp; decide)
  have hspan' : span (part ++ exponent) = (part, exponent) :=
    span_append hpart fun c hc => (hhead c hc).1
  have hboth : (ds.isEmpty && part.isEmpty) = false := by
    cases ds <;> cases part <;> simp at hne ⊢
  unfold readDecimal?
  rw [hspan]
  simp [hspan', hboth, hk]

theorem exists_readExponent? {exponent : List Char} (h : IsExponent exponent) :
    ∃ k, readExponent? exponent = some k := by
  cases h with
  | absent => exact ⟨0, rfl⟩
  | marked hmark hsign hds => exact ⟨_, readExponent?_marked hmark hsign hds⟩

theorem exists_readDecimal? {mantissa exponent : List Char} (hmantissa : IsMantissa mantissa)
    (hexponent : IsExponent exponent) :
    ∃ coefficient k, readDecimal? (mantissa ++ exponent) = some (coefficient, k) := by
  obtain ⟨k, hk⟩ := exists_readExponent? hexponent
  cases hmantissa with
  | whole hds => exact ⟨_, _, readDecimal?_whole hds hexponent.head hk⟩
  | point hds hpart hne =>
    rw [List.append_assoc, List.cons_append]
    exact ⟨_, _, readDecimal?_point hds hpart hne hexponent.head hk⟩

/-! ### Characters -/

def digits : List Char := ['0', '1', '2', '3', '4', '5', '6', '7', '8', '9']

/-- The characters of decimal numerals. -/
def decimalChars : List Char := ['.', 'e', 'E', '+', '-'] ++ digits

theorem mem_digits {c : Char} (h : isDigit c) : c ∈ digits := by
  obtain ⟨hlow, hhigh⟩ : 48 ≤ c.toNat ∧ c.toNat ≤ 57 := by
    simpa [isDigit, Char.le_def, UInt32.le_iff_toNat_le] using h
  have hc : c = Char.ofNat c.toNat := (Char.ofNat_toNat c).symm
  generalize c.toNat = n at hlow hhigh hc
  interval_cases n <;> subst hc <;> decide

theorem mem_decimalChars {c : Char} (h : isDigit c) : c ∈ decimalChars :=
  List.mem_append_right _ (mem_digits h)

theorem IsSign.chars (h : IsSign cs) : ∀ c ∈ cs, c ∈ decimalChars := by
  cases h <;> simp [decimalChars]

theorem IsMantissa.chars (h : IsMantissa cs) : ∀ c ∈ cs, c ∈ decimalChars := by
  intro c hc
  cases h with
  | whole hds => exact mem_decimalChars (hds.digits c hc)
  | point hds hpart _ =>
    rcases List.mem_append.1 hc with hc | hc
    · exact mem_decimalChars (hds c hc)
    · rcases List.mem_cons.1 hc with rfl | hc
      · decide
      · exact mem_decimalChars (hpart c hc)

theorem IsExponent.chars (h : IsExponent cs) : ∀ c ∈ cs, c ∈ decimalChars := by
  intro c hc
  cases h with
  | absent => cases hc
  | marked hmark hsign hds =>
    rcases List.mem_cons.1 hc with rfl | hc
    · rcases hmark with rfl | rfl <;> decide
    · rcases List.mem_append.1 hc with hc | hc
      · exact hsign.chars c hc
      · exact mem_decimalChars (hds.digits c hc)

theorem IsDecimal.chars (h : IsDecimal cs) : ∀ c ∈ cs, c ∈ decimalChars := by
  obtain ⟨sign, mantissa, exponent, rfl, hsign, hmantissa, hexponent⟩ := h
  intro c hc
  rcases List.mem_append.1 hc with hc | hc
  · exact hsign.chars c hc
  · rcases List.mem_append.1 hc with hc | hc
    · exact hmantissa.chars c hc
    · exact hexponent.chars c hc

theorem digitValue?_of_mem {c : Char} (h : c ∈ decimalChars) :
    c ≠ '_' ∧ (Text.digitValue? c = none ∨
      ∃ d, Text.digitValue? c = some d ∧ Nat.digitChar d = c) := by
  have hall : decimalChars.all fun c =>
      c ≠ '_' && ((Text.digitValue? c).map Nat.digitChar).getD c = c := by decide
  obtain ⟨hne, heq⟩ : c ≠ '_' ∧ ((Text.digitValue? c).map Nat.digitChar).getD c = c := by
    simpa using List.all_eq_true.1 hall c h
  refine ⟨hne, ?_⟩
  cases hvalue : Text.digitValue? c with
  | none => exact .inl rfl
  | some d =>
    rw [hvalue] at heq
    exact .inr ⟨d, rfl, heq⟩

theorem plainDigits_of_chars (after : Bool) (h : ∀ c ∈ cs, c ∈ decimalChars) :
    plainDigits after cs = some cs := by
  induction cs generalizing after with
  | nil => rfl
  | cons c cs ih =>
    obtain ⟨hc, hcs⟩ := List.forall_mem_cons.1 h
    obtain ⟨hne, hvalue⟩ := digitValue?_of_mem hc
    rw [plainDigits]
    · rcases hvalue with hvalue | ⟨d, hvalue, hd⟩
      · rw [hvalue]
        simp only [ih false hcs, Option.map_some]
      · rw [hvalue]
        simp only [ih true hcs, Option.map_some, hd]
    · exact hne

theorem core?_of_chars {s : String} (h : ∀ c ∈ s.toList, c ∈ decimalChars) :
    core? s = some s.toList := by
  have hmargin : ∀ c ∈ decimalChars, isMargin c = false := by
    have hall : decimalChars.all fun c => !isMargin c := by decide
    simpa using hall
  rw [core?, LetterCase.trimBoth_eq_self, plainDigits_of_chars false h]
  · intro c rest heq
    exact hmargin c (h c (by simp [heq]))
  · intro front c heq
    exact hmargin c (h c (by simp [heq]))

/-! ### Numbers -/

/-- A decimal spells no infinity and no number that is none. -/
theorem readUnsigned?_of_isMantissa (negative : Bool) {mantissa : List Char} (h : IsMantissa mantissa)
    (rest : List Char) : readUnsigned? negative (mantissa ++ rest) =
      (readDecimal? (mantissa ++ rest)).map fun (coefficient, exponent) =>
        Binary64.ofDecimal negative coefficient exponent := by
  obtain ⟨c, tail, heq, hc⟩ : ∃ c tail, mantissa ++ rest = c :: tail ∧ (isDigit c ∨ c = '.') := by
    cases h with
    | whole hds =>
      obtain ⟨c, ds, rfl⟩ := List.exists_cons_of_ne_nil hds.ne_nil
      exact ⟨c, ds ++ rest, rfl, .inl (hds.digits c (List.mem_cons_self ..))⟩
    | @point ds part hds _ _ =>
      cases ds with
      | nil => exact ⟨'.', part ++ rest, rfl, .inr rfl⟩
      | cons c ds => exact ⟨c, _, rfl, .inl (hds c (List.mem_cons_self ..))⟩
  have hlower : ∀ word : List Char, word.head? = some 'i' ∨ word.head? = some 'n' →
      (c :: tail).map Char.toLower ≠ word := by
    have hhead : c.toLower ≠ 'i' ∧ c.toLower ≠ 'n' := by
      have hall : ('.' :: digits).all fun c => c.toLower ≠ 'i' && c.toLower ≠ 'n' := by decide
      have hmem : c ∈ '.' :: digits := by
        rcases hc with hc | rfl
        · exact List.mem_cons_of_mem _ (mem_digits hc)
        · exact List.mem_cons_self ..
      simpa using List.all_eq_true.1 hall c hmem
    rintro word hword rfl
    simp [hhead.1, hhead.2] at hword
  rw [heq, readUnsigned?, if_neg, if_neg]
  · exact hlower _ (.inr rfl)
  · rintro (h | h)
    · exact hlower _ (.inl rfl) h
    · exact hlower _ (.inl rfl) h

theorem exists_readFloat? {s : String} (h : IsDecimal s.toList) :
    ∃ negative coefficient k,
      readFloat? s = some (Binary64.ofDecimal negative coefficient k) := by
  have hcore := core?_of_chars h.chars
  obtain ⟨sign, mantissa, exponent, heq, hsign, hmantissa, hexponent⟩ := h
  obtain ⟨coefficient, k, hread⟩ := exists_readDecimal? hmantissa hexponent
  have htake : takeSign (sign ++ (mantissa ++ exponent)) = (sign == ['-'], mantissa ++ exponent) := by
    refine takeSign_append hsign fun c hc => ?_
    cases hmantissa with
    | whole hds =>
      obtain ⟨d, ds, rfl⟩ := List.exists_cons_of_ne_nil hds.ne_nil
      obtain rfl := Option.some.inj hc
      exact ne_sign_of_isDigit (hds.digits d (List.mem_cons_self ..))
    | @point ds part hds _ _ =>
      cases ds with
      | nil =>
        obtain rfl := Option.some.inj hc
        decide
      | cons d ds =>
        obtain rfl := Option.some.inj hc
        exact ne_sign_of_isDigit (hds d (List.mem_cons_self ..))
  refine ⟨sign == ['-'], coefficient, k, ?_⟩
  rw [readFloat?, hcore, heq]
  simp only [Option.bind_eq_bind, Option.bind_some, htake]
  rw [readUnsigned?_of_isMantissa _ hmantissa, hread]
  rfl

end Numeral

/-- Rounding a decimal gives a number. -/
theorem Binary64.ofDecimal_ne_nan (negative : Bool) (coefficient : Nat) (k : Int) :
    ofDecimal negative coefficient k ≠ .nan := by
  have hratio : ∀ num den, ofRatio negative num den ≠ .nan := by
    intro num den
    unfold ofRatio zero
    grind
  unfold ofDecimal zero
  extract_lets magnitude
  split
  · nofun
  · split
    · nofun
    · split
      · exact hratio _ _
      · exact hratio _ _

namespace Json

/-- A whole or a binary number, which may be an infinity. -/
def IsNumber : Json → Prop
  | .int _ => True
  | .float x => x ≠ .nan
  | _ => False

theorem notWhole_eq_badValue (s : String) : ∃ reason, notWhole s = .badValue reason := by
  unfold notWhole
  split
  · exact ⟨_, rfl⟩
  · exact ⟨_, rfl⟩

/-- **Every decimal numeral is read as a number.** -/
theorem toNumber_of_isDecimal {s : String} (h : Numeral.IsDecimal s.toList) :
    ∃ v, (Json.str s).toNumber = .ok v ∧ v.IsNumber := by
  obtain ⟨negative, coefficient, k, hfloat⟩ := Numeral.exists_readFloat? h
  rw [toNumber, toInt]
  cases hint : Numeral.readInt? s with
  | some n => exact ⟨.int n, rfl, trivial⟩
  | none =>
    obtain ⟨reason, hreason⟩ := notWhole_eq_badValue s
    simp only [hreason, toFloat, hfloat]
    exact ⟨_, rfl, Binary64.ofDecimal_ne_nan negative coefficient k⟩

end Json

end StrictDdl
