import StrictDdl.Json.Basic
import StrictDdl.Numeric.Number

/-! When two values are the same: numbers by value, with the truth values as one
and zero; arrays item by item; objects by their members in any order. -/
namespace StrictDdl.Json

/-- The number a value stands for in a comparison. -/
def number? : Json → Option Number
  | .bool b => some (.int (if b then 1 else 0))
  | .int n => some (.int n)
  | .float x => some (.float x)
  | _ => none

mutual

def same : Json → Json → Bool
  | .null, .null => true
  | .str s, .str t => s == t
  | .arr xs, .arr ys => sameAll xs ys
  | .obj ms, .obj ns => ms.length == ns.length && sameMembers ms ns
  | .bool a, j => sameNumber (.int (if a then 1 else 0)) j
  | .int a, j => sameNumber (.int a) j
  | .float a, j => sameNumber (.float a) j
  | _, _ => false
where
  sameNumber (a : Number) (j : Json) : Bool :=
    match j.number? with
    | some b => a.same b
    | none => false

def sameAll : List Json → List Json → Bool
  | [], [] => true
  | x :: xs, y :: ys => same x y && sameAll xs ys
  | _, _ => false

/-- Whether every member on the left has the same value on the right. -/
def sameMembers : Members → Members → Bool
  | [], _ => true
  | (k, v) :: rest, ns =>
    (match Members.find? ns k with
      | some w => same v w
      | none => false) && sameMembers rest ns

end

/-- Whether a list has a value, up to sameness. -/
def isIn (j : Json) (xs : List Json) : Bool := xs.any (same · j)

end StrictDdl.Json
