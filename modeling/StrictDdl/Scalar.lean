import StrictDdl.Json.Basic
import StrictDdl.Numeric.Number

/-! Values of a column: what a constant, a default or a list of admitted values
holds. -/
namespace StrictDdl

inductive Scalar where
  | null
  | bool (b : Bool)
  | int (n : Int)
  | float (x : Binary64)
  | text (s : String)
  deriving DecidableEq, Inhabited

namespace Scalar

def toJson : Scalar → Json
  | .null => .null
  | .bool b => .bool b
  | .int n => .int n
  | .float x => .float x
  | .text s => .str s

/-- The scalar a value is; arrays and objects are none. -/
def ofJson? : Json → Option Scalar
  | .null => some .null
  | .bool b => some (.bool b)
  | .int n => some (.int n)
  | .float x => some (.float x)
  | .str s => some (.text s)
  | _ => none

/-- The number a scalar is; truth values are none. -/
def number? : Scalar → Option Number
  | .int n => some (.int n)
  | .float x => some (.float x)
  | _ => none

def ofNumber : Number → Scalar
  | .int n => .int n
  | .float x => .float x

end Scalar

end StrictDdl
