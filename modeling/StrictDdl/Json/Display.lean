import StrictDdl.Json.Basic
import StrictDdl.Numeric.Writer
import StrictDdl.Text.Printable

/-! Values as messages show them.

A text inside a value is written in quotes, single ones unless it holds only
single quotes, with escapes for what cannot be shown; the constants are `None`,
`True` and `False`. On its own a text is shown as it is. -/
namespace StrictDdl

namespace Text

def hexChars (n : Nat) : List Char := Nat.toDigits 16 n

/-- One character inside quotes. -/
def quotedChar (quote c : Char) : List Char :=
  if c = quote ∨ c = '\\' then ['\\', c]
  else if c = '\n' then ['\\', 'n']
  else if c = '\r' then ['\\', 'r']
  else if c = '\t' then ['\\', 't']
  else if isPrintable c then [c]
  else if c.toNat < 0x100 then '\\' :: 'x' :: Binary64.pad 2 (hexChars c.toNat)
  else if c.toNat < 0x10000 then '\\' :: 'u' :: Binary64.pad 4 (hexChars c.toNat)
  else '\\' :: 'U' :: Binary64.pad 8 (hexChars c.toNat)

/-- A text in quotes. -/
def quoted (s : String) : String :=
  let cs := s.toList
  let quote := if cs.contains '\'' && !cs.contains '"' then '"' else '\''
  String.ofList (quote :: cs.flatMap (quotedChar quote) ++ [quote])

end Text

namespace Json

mutual

/-- The text of a value inside another value. -/
def literal : Json → String
  | .null => "None"
  | .bool b => if b then "True" else "False"
  | .int n => writeInt n
  | .float x => x.write .plain
  | .str s => Text.quoted s
  | .arr items => "[" ++ String.intercalate ", " (literals items) ++ "]"
  | .obj members => "\x7b" ++ String.intercalate ", " (memberLiterals members) ++ "\x7d"

def literals : List Json → List String
  | [] => []
  | j :: rest => literal j :: literals rest

def memberLiterals : List (String × Json) → List String
  | [] => []
  | (k, v) :: rest => (Text.quoted k ++ ": " ++ literal v) :: memberLiterals rest

end

/-- The text of a value in a message. -/
def display : Json → String
  | .str s => s
  | j => j.literal

end Json

end StrictDdl
