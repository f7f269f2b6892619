/-! Blank characters, and texts cut at them. -/
namespace StrictDdl.Text

/-- White space of every script, with the controls that separate lines, files,
groups, records and units. -/
def isBlank (c : Char) : Bool :=
  let n := c.toNat
  (9 ≤ n && n ≤ 13) || (28 ≤ n && n ≤ 32) || n == 0x85 || n == 0xa0 || n == 0x1680 ||
    (0x2000 ≤ n && n ≤ 0x200a) || n == 0x2028 || n == 0x2029 || n == 0x202f || n == 0x205f ||
    n == 0x3000

/-- The runs of characters that fail `cut`, in order. -/
def runs (cut : Char → Bool) : List Char → List (List Char)
  | [] => []
  | [c] => if cut c then [] else [[c]]
  | c :: d :: rest =>
    if cut c then runs cut (d :: rest)
    else if cut d then [c] :: runs cut (d :: rest)
    else match runs cut (d :: rest) with
      | [] => [[c]]
      | run :: more => (c :: run) :: more

/-- The words of a text: its longest runs without blanks. -/
def words (s : String) : List String := (runs isBlank s.toList).map String.ofList

/-- Drops the characters that pass `p` from both ends. -/
def trimBoth (p : Char → Bool) (cs : List Char) : List Char :=
  ((cs.dropWhile p).reverse.dropWhile p).reverse

/-- A text without the blanks at its ends. -/
def trim (s : String) : String := String.ofList (trimBoth isBlank s.toList)

end StrictDdl.Text
