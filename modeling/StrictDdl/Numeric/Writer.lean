import StrictDdl.Numeric.Shortest

/-! Texts of numbers.

A whole number is written in decimal. A binary number is written by its shortest
decimal; a `FloatStyle` says which exponents are written positionally and how
the values that are no decimals are spelled. -/
namespace StrictDdl

def digitChars (n : Nat) : List Char := Nat.toDigits 10 n

def writeNat (n : Nat) : String := String.ofList (digitChars n)

def writeInt : Int → String
  | .ofNat n => writeNat n
  | .negSucc n => "-" ++ writeNat (n + 1)

/-- How binary numbers are laid out. A number whose leading digit has an exponent
from `least` up to but not including `most` is positional, with at least one
digit after the point; any other has an exponent of at least two digits. -/
structure FloatStyle where
  least : Int
  most : Int
  infinity : String
  notNumber : String

namespace FloatStyle

/-- The style of constants in SQL text and of values in messages. -/
def plain : FloatStyle := ⟨-4, 16, "inf", "nan"⟩

/-- The style of JSON texts that admit numbers without a decimal. -/
def json : FloatStyle := ⟨-4, 16, "Infinity", "NaN"⟩

end FloatStyle

namespace Binary64

def pad (width : Nat) (cs : List Char) : List Char :=
  List.replicate (width - cs.length) '0' ++ cs

/-- Digits with the point after the one of exponent zero; `leading` is the
exponent of the first digit. -/
def positional (ds : List Char) (leading : Int) : List Char :=
  match leading with
  | .ofNat n =>
    let whole := ds.take (n + 1)
    let part := ds.drop (n + 1)
    whole ++ List.replicate (n + 1 - whole.length) '0' ++ '.' :: (if part.isEmpty then ['0'] else part)
  | .negSucc n => '0' :: '.' :: List.replicate n '0' ++ ds

/-- Digits with the point after the first one and the exponent behind. -/
def scientific (ds : List Char) (leading : Int) : List Char :=
  let mantissa := match ds with
    | [] => []
    | [d] => [d]
    | d :: rest => d :: '.' :: rest
  mantissa ++ 'e' :: (if leading < 0 then '-' else '+') :: pad 2 (digitChars leading.natAbs)

/-- The text of a number. -/
def write (style : FloatStyle) : Binary64 → String
  | .nan => style.notNumber
  | .infinite negative => (if negative then "-" else "") ++ style.infinity
  | .finite negative m e =>
    let magnitude :=
      if m = 0 then ['0', '.', '0']
      else
        let d := shortest m e
        let ds := digitChars d.digits
        let leading := d.exponent + ds.length - 1
        if style.least ≤ leading ∧ leading < style.most then positional ds leading
        else scientific ds leading
    (if negative then "-" else "") ++ String.ofList magnitude

end Binary64

end StrictDdl
