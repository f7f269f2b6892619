import StrictDdl.Text.LetterCase.Table

/-! Lower and upper case of texts in any script.

Most characters map one to one; a dotted capital I has two letters in lower case,
some characters have several in upper case, and a capital sigma is written in its
final form at the end of a word. -/
namespace StrictDdl.LetterCase

/-- Applies the first row of a shift table that covers the code point. -/
def shift (table : List (Nat × Nat × Nat × Int)) (n : Nat) : Nat :=
  match table.find? fun (first, last, step, _) =>
      first ≤ n && n ≤ last && (n - first) % step == 0 with
  | some (_, _, _, delta) => ((n : Int) + delta).toNat
  | none => n

def within (ranges : List (Nat × Nat)) (c : Char) : Bool :=
  ranges.any fun r => r.1 ≤ c.toNat && c.toNat ≤ r.2

def isIgnorable (c : Char) : Bool := within ignorableRanges c

def isCased (c : Char) : Bool := within casedRanges c

/-- Whether the first character past the ignorable ones has a case. -/
def meetsCased (cs : List Char) : Bool :=
  match cs.dropWhile isIgnorable with
  | c :: _ => isCased c
  | [] => false

/-- The lower case of one character; `before` runs backwards from it and `after`
forwards. -/
def lowerChar (before : List Char) (c : Char) (after : List Char) : List Char :=
  if c.toNat < 128 then [c.toLower]
  else if c.toNat = 0x130 then ['i', Char.ofNat 0x307]
  else if c.toNat = 0x3a3 then
    [Char.ofNat (if meetsCased before && !meetsCased after then 0x3c2 else 0x3c3)]
  else [Char.ofNat (shift lowerShifts c.toNat)]

def lowerFrom (before : List Char) : List Char → List Char
  | [] => []
  | c :: rest => lowerChar before c rest ++ lowerFrom (c :: before) rest

def lower (s : String) : String := String.ofList (lowerFrom [] s.toList)

def upperChar (c : Char) : List Char :=
  if c.toNat < 128 then [c.toUpper]
  else match upperExpansions.lookup c.toNat with
    | some codes => codes.map Char.ofNat
    | none => [Char.ofNat (shift upperShifts c.toNat)]

def upper (s : String) : String := String.ofList (s.toList.flatMap upperChar)

end StrictDdl.LetterCase
