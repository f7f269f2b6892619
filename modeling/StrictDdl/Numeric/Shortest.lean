import StrictDdl.Numeric.Binary64

/-! The shortest decimal of a binary number.

A decimal reads back as a given number when it lies between the midpoints to the
two neighbours, ends included when the significand is even. Among those decimals
the one with the fewest digits is taken, and among equally short ones the nearest
to the number. For each count of digits only two decimals of that length can be
nearest, the one below the number and the one above, so both are tried for one
digit, two digits, and so on; seventeen always suffice. -/
namespace StrictDdl.Binary64

/-- `digits * 10 ^ exponent`, without zeros at the end of `digits`. -/
structure Decimal where
  digits : Nat
  exponent : Int
  deriving DecidableEq

/-- A number `centre * 2 ^ unit` with the ends of the interval that rounds to it,
in the same unit. -/
structure Interval where
  low : Nat
  centre : Nat
  high : Nat
  unit : Int
  closed : Bool

/-- The interval of `m * 2 ^ e`. Below a power of two the neighbour is only half
as far away, unless the exponent is already the least. -/
def interval (m : Nat) (e : Int) : Interval :=
  let narrow := m = significandBound / 2 ∧ e > leastExponent
  { low := if narrow then 4 * m - 1 else 4 * m - 2
    centre := 4 * m
    high := 4 * m + 2
    unit := e - 2
    closed := m % 2 = 0 }

namespace Interval

/-- `10 ^ k` in units of the interval, as a fraction. -/
def power (i : Interval) (k : Int) : Nat × Nat :=
  (Nat.pow 10 k.toNat * Nat.pow 2 (-i.unit).toNat,
    Nat.pow 10 (-k).toNat * Nat.pow 2 i.unit.toNat)

/-- Whether `d * 10 ^ k` reads back as the centre. -/
def holds (i : Interval) (k : Int) (d : Nat) : Bool :=
  let (a, b) := i.power k
  if i.closed then i.low * b ≤ d * a && d * a ≤ i.high * b
  else i.low * b < d * a && d * a < i.high * b

/-- The exponent of the leading decimal digit of the centre. -/
def leading (i : Interval) : Int :=
  let (a, b) := i.power 0
  let num := i.centre * b
  if a ≤ num then ((Nat.toDigits 10 (num / a)).length : Int) - 1
  else
    let c := (Nat.toDigits 10 (a / num)).length
    if num * Nat.pow 10 (c - 1) = a then -((c : Int) - 1) else -(c : Int)

/-- The multiple of `10 ^ k` that reads back and is nearest to the centre, if one
reads back. -/
def candidate? (i : Interval) (k : Int) : Option Nat :=
  let (a, b) := i.power k
  let below := i.centre * b / a
  let above := below + 1
  match i.holds k below, i.holds k above with
  | true, true =>
    let down := i.centre * b - below * a
    let up := above * a - i.centre * b
    if down < up then some below
    else if up < down then some above
    else if below % 2 = 0 then some below else some above
  | true, false => some below
  | false, true => some above
  | false, false => none

/-- The first decimal that reads back, with `used` digits or more. -/
def search (i : Interval) (leading : Int) : Nat → Nat → Nat × Int
  | used, 0 => ((i.centre * (i.power (leading - used + 1)).2) / (i.power (leading - used + 1)).1,
      leading - used + 1)
  | used, left + 1 =>
    let k := leading - used + 1
    match i.candidate? k with
    | some d => (d, k)
    | none => search i leading (used + 1) left

end Interval

/-- Moves the zeros at the end of the digits into the exponent. -/
def Decimal.strip (fuel : Nat) (d : Decimal) : Decimal :=
  match fuel with
  | 0 => d
  | fuel + 1 =>
    if d.digits ≠ 0 ∧ d.digits % 10 = 0 then
      Decimal.strip fuel ⟨d.digits / 10, d.exponent + 1⟩
    else d

/-- The shortest decimal that reads back as `m * 2 ^ e`, where `m` is not zero. -/
def shortest (m : Nat) (e : Int) : Decimal :=
  let i := interval m e
  let (digits, exponent) := i.search i.leading 1 17
  Decimal.strip 20 ⟨digits, exponent⟩

end StrictDdl.Binary64
