import StrictDdl.ParseTree.Node
import StrictDdl.Numeric.Reader

/-! Constants of a parse tree.

Two layouts are in use: the value in a member named for its type, and the value
as a node under `val`. A number too large for the whole-number member, or with a
fraction, comes as text. -/
namespace StrictDdl

/-- The refusal of a whole number with more digits than the limit; `size` says
how many, if that is known. -/
def Fault.tooManyDigits (size : String) : Fault :=
  .badValue ("Exceeds the limit (" ++ writeNat Numeral.digitLimit ++
    " digits) for integer string conversion" ++ size ++
    "; use sys.set_int_max_str_digits() to increase the limit")

namespace Json

/-- The most characters of a text that a message about a numeral shows. -/
def shownNumeral : Nat := 200

/-- The refusal of a text that is not a whole number, or has too many digits for
one. -/
def notWhole (s : String) : Fault :=
  match Numeral.overlong? s with
  | some count => .tooManyDigits (": value has " ++ writeNat count ++ " digits")
  | none =>
    .badValue ("invalid literal for int() with base 10: " ++
      String.ofList ((Text.quoted s).toList.take shownNumeral))

def notFloat (s : String) : Fault :=
  .badValue ("could not convert string to float: " ++ Text.quoted s)

/-- The whole part of a binary number. -/
def wholePart (x : Binary64) : Read Int :=
  match x with
  | .nan => .error (.badValue "cannot convert float NaN to integer")
  | .infinite _ => .error (.overflow "cannot convert float infinity to integer")
  | x => .ok (x.truncate?.getD 0)

/-- A value as a whole number. -/
def toInt : Json → Read Int
  | .bool b => .ok (if b then 1 else 0)
  | .int n => .ok n
  | .float x => wholePart x
  | .str s =>
    match Numeral.readInt? s with
    | some n => .ok n
    | none => .error (notWhole s)
  | _ => .error .mistyped

/-- A value as a binary number. -/
def toFloat : Json → Read Binary64
  | .bool b => .ok (.ofInt (if b then 1 else 0))
  | .int n =>
    match Binary64.ofInt n with
    | .infinite _ => .error (.overflow "int too large to convert to float")
    | x => .ok x
  | .float x => .ok x
  | .str s =>
    match Numeral.readFloat? s with
    | some x => .ok x
    | none => .error (notFloat s)
  | _ => .error .mistyped

/-- A value as a number: whole if it can be. -/
def toNumber (j : Json) : Read Json :=
  match j.toInt with
  | .ok n => .ok (.int n)
  | .error (.badValue _) => j.toFloat.map .float
  | .error e => .error e

end Json

namespace Constant

/-- The value of a member of a member, both of which may be left out. -/
def inner (ms : Members) (key : String) (absent : Json) : Read Json :=
  let v := ms.get key
  if v.truthy then do return ((← v.members).find? key).getD absent else .ok absent

/-- The value of a constant in the layout with a node. -/
def ofNode (j : Json) : Read Json := do
  let (kind, ms) ← Node.unwrap j
  match kind with
  | "Integer" => return .int (← ((ms.find? "ival").getD (.int 0)).toInt)
  | "Float" => ((((ms.find? "fval").or (ms.find? "str"))).getD (.str "0")).toNumber
  | "String" => return Node.eitherOf ms "sval" "str"
  | "Boolean" => return .bool (ms.get "boolval").truthy
  | "Null" => return .null
  | kind => malformed ("unknown constant kind " ++ kind)

/-- The value of a constant's body. -/
def ofBody (ms : Members) : Read Json := do
  if (ms.get "isnull").truthy then return .null
  else if ms.has "ival" then return .int (← (← inner ms "ival" (.int 0)).toInt)
  else if ms.has "fval" then (← inner ms "fval" (.str "0")).toNumber
  else if ms.has "sval" then inner ms "sval" (.str "")
  else if ms.has "boolval" then return .bool (← inner ms "boolval" (.bool false)).truthy
  else if ms.has "bsval" then inner ms "bsval" (.str "")
  else if ms.has "val" then ofNode (ms.get "val")
  else malformed "A_Const has no value"

/-- The value of a constant node, or of the body of one. -/
def value (j : Json) : Read Json := do
  if Node.isA "A_Const" j then ofBody (← Node.body j) else ofBody (← j.members)

/-- The whole number a constant node holds, if it holds one. -/
def int? (j : Json) : Read (Option Int) := do
  if Node.isA "A_Const" j then
    match ← value j with
    | .int n => return some n
    | _ => return none
  else return none

end Constant

end StrictDdl
