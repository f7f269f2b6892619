import StrictDdl.Scalar

/-! Values and truth in SQL.

A comparison with the null value is unknown, and what is unknown remains so unless another
operand settles the matter (`Truth.any_eq_no_iff`, `Truth.all_eq_yes_iff`). A check admits what it
does not deny, so the unknown is admitted as well. Values of different kinds are different:
truth values are no numbers, and numbers are no texts. -/
namespace StrictDdl

namespace Number

deriving instance DecidableEq for Place

/-- At most. -/
def Place.le (p q : Place) : Bool := p.lt q || p.same q

def Place.neg : Place → Place
  | .below => .above
  | .point r => .point (-r)
  | .above => .below

theorem place?_neg (n : Number) : n.neg.place? = n.place?.map Place.neg := by
  cases n with
  | int n => simp [neg, place?, Place.neg]
  | float x =>
    cases x with
    | finite negative m e => cases negative <;> simp [neg, Binary64.neg, place?, Binary64.toRat?, Place.neg]
    | infinite negative => cases negative <;> rfl
    | nan => rfl

end Number

namespace Sql

/-! ### Truth -/

inductive Truth where
  | no
  | unknown
  | yes
  deriving DecidableEq

namespace Truth

def ofBool (b : Bool) : Truth := if b then yes else no

theorem ofBool_eq_yes_iff {b : Bool} : ofBool b = yes ↔ b = true := by cases b <;> simp [ofBool]

/-- Whether one of these holds. -/
def any (ts : List Truth) : Truth :=
  if yes ∈ ts then yes else if unknown ∈ ts then unknown else no

/-- Whether all of these hold. -/
def all (ts : List Truth) : Truth :=
  if no ∈ ts then no else if unknown ∈ ts then unknown else yes

/-- The opposite; what is unknown stays so. -/
def not : Truth → Truth
  | no => yes
  | unknown => unknown
  | yes => no

theorem all_eq_yes_iff {ts : List Truth} : all ts = yes ↔ ∀ t ∈ ts, t = yes := by
  unfold all
  constructor
  · intro h t ht
    cases t with
    | yes => rfl
    | no => simp [ht] at h
    | unknown => split at h <;> cases h
  · intro h
    have hno : no ∉ ts := fun hmem => by cases h no hmem
    have hunknown : unknown ∉ ts := fun hmem => by cases h unknown hmem
    rw [if_neg hno, if_neg hunknown]

theorem any_eq_no_iff {ts : List Truth} : any ts = no ↔ ∀ t ∈ ts, t = no := by
  unfold any
  constructor
  · intro h t ht
    cases t with
    | no => rfl
    | yes => simp [ht] at h
    | unknown => split at h <;> cases h
  · intro h
    have hyes : yes ∉ ts := fun hmem => by cases h yes hmem
    have hunknown : unknown ∉ ts := fun hmem => by cases h unknown hmem
    rw [if_neg hyes, if_neg hunknown]

end Truth

/-! ### Values -/

inductive Value where
  | null
  | bool (b : Bool)
  | number (place : Number.Place)
  /-- What a binary constant may be that is no number. -/
  | nan
  | text (s : String)
  deriving DecidableEq

namespace Value

def ofNumber (n : Number) : Value :=
  match n.place? with
  | some p => .number p
  | none => .nan

def ofScalar : Scalar → Value
  | .null => .null
  | .bool b => .bool b
  | .int n => ofNumber (.int n)
  | .float x => ofNumber (.float x)
  | .text s => .text s

/-- The number r. -/
def ofRat (r : Rat) : Value := .number (.point r)

/-- Whether a value that stands for a number is a finite one. -/
def isFinite : Value → Bool
  | .number (.point _) => true
  | .number _ => false
  | .nan => false
  | _ => true

/-- The value with the other sign; only numbers have one. -/
def neg? : Value → Option Value
  | .number p => some (.number p.neg)
  | .nan => some .nan
  | _ => none

theorem neg?_ofNumber (n : Number) : (ofNumber n).neg? = some (ofNumber n.neg) := by
  rw [ofNumber, ofNumber, n.place?_neg]
  cases n.place? <;> rfl

/-- Whether both values are equal. -/
def equal : Value → Value → Truth
  | .null, _ => .unknown
  | _, .null => .unknown
  | .nan, _ => .no
  | a, b => .ofBool (a = b)

/-- Whether two values are in an order. Only numbers are in any order. -/
def ordered? (order : Number.Place → Number.Place → Bool) : Value → Value → Option Truth
  | .number p, .number q => some (.ofBool (order p q))
  | .null, .number _ => some .unknown
  | .number _, .null => some .unknown
  | _, _ => none

/-- What a comparison says of two values. -/
def compare? (op : String) (a b : Value) : Option Truth :=
  if op = "=" then some (a.equal b)
  else if op = "<" then a.ordered? Number.Place.lt b
  else if op = "<=" then a.ordered? Number.Place.le b
  else if op = ">" then b.ordered? Number.Place.lt a
  else if op = ">=" then b.ordered? Number.Place.le a
  else none

/-- Numbers and texts: the values that a list of values is about. -/
def IsPlain : Value → Prop
  | .number _ => True
  | .text _ => True
  | _ => False

theorem equal_eq_no_iff {v w : Value} (hv : v.IsPlain) : v.equal w = .no ↔ w ≠ .null ∧ w ≠ v := by
  cases v <;> cases w <;> simp_all [equal, IsPlain, Truth.ofBool, eq_comm]

end Value

end Sql

end StrictDdl
