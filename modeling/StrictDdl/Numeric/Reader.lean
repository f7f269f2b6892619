import StrictDdl.Numeric.Binary64
import StrictDdl.Text.Blank
import StrictDdl.Text.Digit

/-! Numerals in texts.

A whole numeral is a sign and digits; a fractional one has a point or an exponent
too, or spells an infinity or no number. Digits may be of any script, single
underscores may stand between digits, and blanks may stand around the numeral. -/
namespace StrictDdl.Numeral

/-- Blanks that may stand around a numeral: the separator controls may not. -/
def isMargin (c : Char) : Bool := Text.isBlank c && !(28 ≤ c.toNat && c.toNat ≤ 31)

/-- The most digits a whole numeral may have. -/
def digitLimit : Nat := 4300

/-- A sign, if there is one, and the rest; `true` is minus. -/
def takeSign : List Char → Bool × List Char
  | '-' :: rest => (true, rest)
  | '+' :: rest => (false, rest)
  | cs => (false, cs)

/-- Replaces the digits of every script by their values and drops the underscores
between digits; nothing if an underscore stands elsewhere. `after` tells whether
the character before was a digit. -/
def plainDigits (after : Bool) : List Char → Option (List Char)
  | [] => some []
  | '_' :: rest =>
    match rest with
    | [] => none
    | c :: _ =>
      if after && (Text.digitValue? c).isSome then plainDigits false rest else none
  | c :: rest =>
    match Text.digitValue? c with
    | some d => (plainDigits true rest).map (Nat.digitChar d :: ·)
    | none => (plainDigits false rest).map (c :: ·)

def isDigit (c : Char) : Bool := '0' ≤ c && c ≤ '9'

/-- The value of a run of digits. -/
def value (ds : List Char) : Nat := ds.foldl (fun n c => 10 * n + (c.toNat - '0'.toNat)) 0

/-- The plain form of a numeral without its margins. -/
def core? (s : String) : Option (List Char) := plainDigits false (Text.trimBoth isMargin s.toList)

/-- A run of digits and what follows it. -/
def span (cs : List Char) : List Char × List Char := (cs.takeWhile isDigit, cs.dropWhile isDigit)

/-- How many digits a run starts with, underscores between them not counted; nothing
if an underscore does not stand between two of them. `after` tells whether the
character before was a digit. -/
def countDigits (after : Bool) (count : Nat) : List Char → Option Nat
  | [] => if after then some count else none
  | c :: rest =>
    if (Text.digitValue? c).isSome then countDigits true (count + 1) rest
    else if !after then none
    else if c = '_' then countDigits false count rest
    else some count

/-- How many digits a text starts with, if they are too many for a whole number.
What follows them does not matter: the digits are refused before it is read. -/
def overlong? (s : String) : Option Nat := do
  let (_, cs) := takeSign (s.toList.dropWhile isMargin)
  let count ← countDigits false 0 cs
  if count > digitLimit then some count else none

/-- The whole number a text spells. -/
def readInt? (s : String) : Option Int := do
  let (negative, ds) := takeSign (← core? s)
  if ds.isEmpty || !ds.all isDigit || ds.length > digitLimit then none
  else some (if negative then -(value ds : Int) else value ds)

/-- The exponent at the end of a numeral: none at all, or a mark, a sign and
digits. -/
def readExponent? : List Char → Option Int
  | [] => some 0
  | c :: rest =>
    if c = 'e' ∨ c = 'E' then
      let (negative, ds) := takeSign rest
      if ds.isEmpty || !ds.all isDigit then none
      else some (if negative then -(value ds : Int) else value ds)
    else none

/-- The decimal a run of characters spells: its coefficient and exponent. -/
def readDecimal? (cs : List Char) : Option (Nat × Int) := do
  let (whole, rest) := span cs
  let (part, rest) := match rest with
    | '.' :: rest => span rest
    | rest => ([], rest)
  if whole.isEmpty && part.isEmpty then none
  else some (value (whole ++ part), (← readExponent? rest) - part.length)

/-- The number a run of characters spells. -/
def readUnsigned? (negative : Bool) (cs : List Char) : Option Binary64 :=
  let word := cs.map Char.toLower
  if word = "inf".toList ∨ word = "infinity".toList then some (.infinite negative)
  else if word = "nan".toList then some .nan
  else (readDecimal? cs).map fun (coefficient, exponent) =>
    Binary64.ofDecimal negative coefficient exponent

/-- The binary number a text spells. -/
def readFloat? (s : String) : Option Binary64 := do
  let (negative, cs) := takeSign (← core? s)
  readUnsigned? negative cs

end StrictDdl.Numeral
