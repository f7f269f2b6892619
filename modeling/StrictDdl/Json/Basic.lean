import StrictDdl.Numeric.Binary64

/-! JSON values whose objects keep the order of their members.

Whole numbers and numbers with a fraction or an exponent are told apart, as the
parse trees and schema documents tell them apart. Member names of one object are
distinct in every value the reader makes. -/
namespace StrictDdl

inductive Json where
  | null
  | bool (b : Bool)
  | int (n : Int)
  | float (x : Binary64)
  | str (s : String)
  | arr (items : List Json)
  | obj (members : List (String × Json))
  deriving Inhabited

/-- The members of an object, in order. -/
abbrev Members := List (String × Json)

namespace Members

/-- The value of a member, if the object has it. -/
def find? : Members → String → Option Json
  | [], _ => none
  | (k, v) :: rest, key => if k = key then some v else find? rest key

/-- The value of a member; an absent member reads as `null`. -/
def get (ms : Members) (key : String) : Json := (ms.find? key).getD .null

def has (ms : Members) (key : String) : Bool := (ms.find? key).isSome

/-- Sets a member: in place if the object has it, at the end otherwise. -/
def set : Members → String → Json → Members
  | [], key, value => [(key, value)]
  | (k, v) :: rest, key, value =>
    if k = key then (k, value) :: rest else (k, v) :: set rest key value

/-- A member that is left out when it is not set. -/
def given (key : String) (value : Option Json) : Members :=
  match value with
  | some j => [(key, j)]
  | none => []

def keys (ms : Members) : List String := ms.map Prod.fst

end Members

namespace Json

/-- The name of a value's type in messages. -/
def typeName : Json → String
  | .null => "NoneType"
  | .bool _ => "bool"
  | .int _ => "int"
  | .float _ => "float"
  | .str _ => "str"
  | .arr _ => "list"
  | .obj _ => "dict"

def isNull : Json → Bool
  | .null => true
  | _ => false

/-- Whether a value counts as set: zero and everything empty do not. -/
def truthy : Json → Bool
  | .null => false
  | .bool b => b
  | .int n => n != 0
  | .float x => !x.isZero
  | .str s => s != ""
  | .arr items => !items.isEmpty
  | .obj members => !members.isEmpty

/-- Whether a value may be looked up in a table: arrays and objects may not. -/
def isScalar : Json → Bool
  | .arr _ => false
  | .obj _ => false
  | _ => true

def str? : Json → Option String
  | .str s => some s
  | _ => none

end Json

end StrictDdl
