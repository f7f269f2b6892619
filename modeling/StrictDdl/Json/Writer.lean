import StrictDdl.Json.Basic
import StrictDdl.Numeric.Writer

/-! JSON texts on one line: a blank after each comma and colon, and characters
outside ASCII as escapes of their UTF-16 units. -/
namespace StrictDdl.Json

def unitEscape (n : Nat) : List Char :=
  '\\' :: 'u' :: Binary64.pad 4 (Nat.toDigits 16 n)

/-- One character inside a JSON string. -/
def escapedChar (c : Char) : List Char :=
  if c = '"' ∨ c = '\\' then ['\\', c]
  else if c = '\n' then ['\\', 'n']
  else if c = '\r' then ['\\', 'r']
  else if c = '\t' then ['\\', 't']
  else if c.toNat = 8 then ['\\', 'b']
  else if c.toNat = 12 then ['\\', 'f']
  else if 32 ≤ c.toNat ∧ c.toNat < 127 then [c]
  else if c.toNat < 0x10000 then unitEscape c.toNat
  else
    let n := c.toNat - 0x10000
    unitEscape (0xd800 + n / 0x400) ++ unitEscape (0xdc00 + n % 0x400)

def writeString (s : String) : String :=
  String.ofList ('"' :: s.toList.flatMap escapedChar ++ ['"'])

mutual

def write : Json → String
  | .null => "null"
  | .bool b => if b then "true" else "false"
  | .int n => writeInt n
  | .float x => x.write .json
  | .str s => writeString s
  | .arr items => "[" ++ String.intercalate ", " (writeAll items) ++ "]"
  | .obj members => "\x7b" ++ String.intercalate ", " (writeMembers members) ++ "\x7d"

def writeAll : List Json → List String
  | [] => []
  | j :: rest => write j :: writeAll rest

def writeMembers : List (String × Json) → List String
  | [] => []
  | (k, v) :: rest => (writeString k ++ ": " ++ write v) :: writeMembers rest

end

end StrictDdl.Json
