/-! Numbers of the 64-bit binary format, as exact values.

A finite number is a sign, a significand and a power of two; nothing here goes
through machine arithmetic. The program only reads such numbers, negates and
compares them, takes their floor or ceiling, and writes them, so the exact value
(`toRat?`) is all their meaning. `ofRatio` rounds a quotient to the nearest
number, a tie to the even significand, and what lies beyond the largest number
to an infinity. -/
namespace StrictDdl

/-- A number of the 64-bit binary format. Numbers made by `ofRatio` have the
largest significand below `2 ^ 53` that the least exponent `-1074` allows. -/
inductive Binary64 where
  /-- Plus or minus `significand * 2 ^ exponent`. -/
  | finite (negative : Bool) (significand : Nat) (exponent : Int)
  | infinite (negative : Bool)
  /-- Not a number. -/
  | nan
  deriving DecidableEq, Inhabited

namespace Binary64

/-- The exponent of the smallest numbers. -/
def leastExponent : Int := -1074

/-- The exponent of the largest numbers. -/
def greatestExponent : Int := 971

/-- Significands are below this bound. -/
def significandBound : Nat := Nat.pow 2 53

def zero (negative : Bool) : Binary64 := .finite negative 0 leastExponent

/-- The exact value of a finite number. -/
def toRat? : Binary64 → Option Rat
  | .finite negative m e =>
    let magnitude := (m : Rat) * (2 : Rat) ^ e
    some (if negative then -magnitude else magnitude)
  | _ => none

def neg : Binary64 → Binary64
  | .finite negative m e => .finite (!negative) m e
  | .infinite negative => .infinite (!negative)
  | .nan => .nan

/-- Whether the number is zero, of either sign. -/
def isZero : Binary64 → Bool
  | .finite _ m _ => m == 0
  | _ => false

def isFinite : Binary64 → Bool
  | .finite .. => true
  | _ => false

/-! ### Rounding -/

/-- The whole number nearest to `num / den`; a tie goes to the even one. -/
def roundHalfEven (num den : Nat) : Nat :=
  let q := num / den
  let r := num % den
  if 2 * r < den then q
  else if den < 2 * r then q + 1
  else q + q % 2

/-- The fraction `num / den / 2 ^ e`, as numerator and denominator. -/
def scaled (num den : Nat) : Int → Nat × Nat
  | .ofNat e => (num, den * Nat.pow 2 e)
  | .negSucc e => (num * Nat.pow 2 (e + 1), den)

/-- The exponent at which `num / den` has 53 significant bits, but never less
than the least one. -/
def exponentFor (num den : Nat) : Int :=
  let e : Int := (num.log2 : Int) - den.log2 - 53
  let (n, d) := scaled num den e
  let e := if n / d < significandBound then e else e + 1
  max e leastExponent

/-- The number nearest to `num / den`. -/
def ofRatio (negative : Bool) (num den : Nat) : Binary64 :=
  if num = 0 then zero negative
  else
    let e := exponentFor num den
    let (n, d) := scaled num den e
    let m := roundHalfEven n d
    let (m, e) := if m = significandBound then (m / 2, e + 1) else (m, e)
    if e > greatestExponent then .infinite negative else .finite negative m e

/-- The number nearest to `coefficient * 10 ^ exponent`. Magnitudes far outside
the format's range are settled by their count of digits alone. -/
def ofDecimal (negative : Bool) (coefficient : Nat) (exponent : Int) : Binary64 :=
  let magnitude : Int := (Nat.toDigits 10 coefficient).length + exponent
  if coefficient = 0 || magnitude < -400 then zero negative
  else if magnitude > 400 then .infinite negative
  else match exponent with
    | .ofNat e => ofRatio negative (coefficient * Nat.pow 10 e) 1
    | .negSucc e => ofRatio negative coefficient (Nat.pow 10 (e + 1))

/-- The number nearest to a whole number. -/
def ofInt (n : Int) : Binary64 := ofRatio (n < 0) n.natAbs 1

/-! ### Whole parts -/

/-- The whole number a finite number is, if it is one. -/
def toInt? (x : Binary64) : Option Int :=
  x.toRat?.bind fun r => if r.den = 1 then some r.num else none

/-- The whole part, toward zero. -/
def truncate? (x : Binary64) : Option Int :=
  x.toRat?.map fun r => r.num.tdiv r.den

end Binary64

end StrictDdl
