import StrictDdl.Numeric.Binary64

/-! Numbers as a constant writes them, whole or binary, with the order of their
exact values. -/
namespace StrictDdl

inductive Number where
  | int (n : Int)
  | float (x : Binary64)
  deriving DecidableEq, Inhabited

namespace Number

/-- A place on the extended line; what is not a number has none. -/
inductive Place where
  | below
  | point (r : Rat)
  | above

def place? : Number → Option Place
  | .int n => some (.point n)
  | .float (.infinite negative) => some (if negative then .below else .above)
  | .float x => x.toRat?.map .point

def Place.lt : Place → Place → Bool
  | .below, .below => false
  | .below, _ => true
  | .point a, .point b => a < b
  | .point _, .above => true
  | _, _ => false

def Place.same : Place → Place → Bool
  | .below, .below => true
  | .point a, .point b => a == b
  | .above, .above => true
  | _, _ => false

/-- Strictly less; never holds of what is not a number. -/
def lt (a b : Number) : Bool :=
  match a.place?, b.place? with
  | some p, some q => p.lt q
  | _, _ => false

/-- Equal in value, whichever way each is written. -/
def same (a b : Number) : Bool :=
  match a.place?, b.place? with
  | some p, some q => p.same q
  | _, _ => false

def neg : Number → Number
  | .int n => .int (-n)
  | .float x => .float x.neg

end Number

end StrictDdl
