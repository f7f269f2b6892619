import StrictDdl.Json.Reader

/-! The encoding of a body.

A text is sent in UTF-8. It is read back in the encoding that the zeros among its
first bytes suggest, as a JSON text starts with two characters of ASCII: no zero means
UTF-8, and one or three zeros around the first character mean UTF-16 or UTF-32. -/
namespace StrictDdl.Http

inductive Encoding where
  | utf8
  | utf16 (bigEndian : Bool)
  | utf32 (bigEndian : Bool)
  deriving DecidableEq

namespace Encoding

/-- The encoding that the first bytes suggest. -/
def guess : List UInt8 → Encoding
  | [a, b] => if a = 0 then .utf16 true else if b = 0 then .utf16 false else .utf8
  | a :: b :: c :: d :: _ =>
    if a = 0 then if b = 0 then .utf32 true else .utf16 true
    else if b = 0 then if c = 0 ∧ d = 0 then .utf32 false else .utf16 false
    else .utf8
  | _ => .utf8

/-- The bytes as numbers of two bytes; nothing if one is left over. -/
def units16? (bigEndian : Bool) : List UInt8 → Option (List Nat)
  | [] => some []
  | [_] => none
  | a :: b :: rest => do
    let n := if bigEndian then a.toNat * 256 + b.toNat else b.toNat * 256 + a.toNat
    return n :: (← units16? bigEndian rest)

/-- The bytes as numbers of four bytes; nothing if some are left over. -/
def units32? (bigEndian : Bool) (bytes : List UInt8) : Option (List Nat) := do
  joined (← units16? bigEndian bytes)
where
  joined : List Nat → Option (List Nat)
    | [] => some []
    | [_] => none
    | a :: b :: rest => do
      let n := if bigEndian then a * 65536 + b else b * 65536 + a
      return n :: (← joined rest)

/-- The characters of a run of UTF-16 units; half of a pair counts as one. -/
def chars16 : List Nat → List Char
  | [] => []
  | [n] => [Json.Reader.unitChar n]
  | high :: low :: rest =>
    if Json.Reader.isHigh high && Json.Reader.isLow low then
      Json.Reader.pairChar high low :: chars16 rest
    else Json.Reader.unitChar high :: chars16 (low :: rest)

/-- The characters of a run of UTF-32 units; nothing if one is too large. -/
def chars32? (units : List Nat) : Option (List Char) :=
  units.mapM fun n => if n < 0x110000 then some (Json.Reader.unitChar n) else none

/-- The text that is read when this text is sent. A mark of the byte order in front
is dropped. -/
def decode (s : String) : Option (List Char) :=
  let bytes := s.toUTF8.toList
  match guess bytes with
  | .utf8 =>
    match s.toList with
    | '\ufeff' :: rest => some rest
    | cs => some cs
  | .utf16 bigEndian => (units16? bigEndian bytes).map chars16
  | .utf32 bigEndian => (units32? bigEndian bytes).bind chars32?

end Encoding

end StrictDdl.Http
