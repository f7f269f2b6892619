import StrictDdl.Expr.Basic
import StrictDdl.Expr.Columns
import StrictDdl.Lenient
import StrictDdl.RuleSet
import StrictDdl.Sql.Vocabulary

/-! Checks as rules on one column.

A check that mentions one column only and has one of a few shapes says the same as
a rule: comparisons and ranges are bounds, also when several are joined, an equality
or a membership is a list of values, a match is a pattern. Any other check is kept
as it is and yields no rule.

On a column of whole numbers a strict bound becomes the adjacent inclusive one. -/
namespace StrictDdl

namespace Number

/-- The greatest whole number that is not above. -/
def floor : Number → Read Int
  | .int n => .ok n
  | .float x =>
    match x.toRat? with
    | some r => .ok r.floor
    | none => Json.wholePart x

/-- The least whole number that is not below. -/
def ceil : Number → Read Int
  | .int n => .ok n
  | .float x =>
    match x.toRat? with
    | some r => .ok r.ceil
    | none => Json.wholePart x

end Number

namespace Expr

/-- The operator's name. -/
def operatorName (symbol : Read (List Json)) : Read Json := do
  return ((← symbol).getLast?).getD (.str "")

/-- Whether the expression is a reference to the column. -/
def isColumn (column : Json) : Expr → Read Bool
  | .column path => do
    match (← path).getLast? with
    | some name => return name.same column
    | none => return false
  | e => do sound ["ColumnRef"] e; return false

/-- The number a constant is; truth values are none. -/
def numberOf? : Json → Option Number
  | .int n => some (.int n)
  | .float x => some (.float x)
  | _ => none

/-- The value of a constant, seen through casts and a minus sign. -/
def constant? : Expr → Read (Option Json)
  | .cast _ operand => constant? operand
  | .constant value _ => value.map some
  | .operator .plain symbol left right => do
    if left.isAbsent then
      if (← operatorName symbol).same (.str "-") then
        match ← constant? right with
        | some (.int n) => return some (.int (-n))
        | some (.float x) => return some (.float x.neg)
        | _ => return none
      else return none
    else return none
  | .unlisted => .error .mistyped
  | e => do sound ["TypeCast", "A_Const", "A_Expr"] e; return none

/-- The values of several constants; nothing if one is no constant or there are
none. -/
def constants? (es : List Expr) : Read (Option (List Json)) := do
  let values ← es.mapM constant?
  return if values.isEmpty then none else values.mapM id

/-- The elements of a list, an array or a row. -/
def listed? : Expr → Read (Option (List Expr))
  | .items es => .ok (some es)
  | .row es => .ok (some es)
  | .array es => .ok (some es)
  | e => do sound ["List", "A_ArrayExpr"] e; return none

end Expr

/-! ### Bounds -/

/-- One end of a range. -/
structure Bound where
  value : Number
  strict : Bool
  deriving DecidableEq

structure Bounds where
  lower : Option Bound := none
  upper : Option Bound := none
  deriving DecidableEq

namespace Bounds

/-- The bound of the two that admits less; `tighter a b` compares their values. -/
def tightest (tighter : Number → Number → Bool) : Option Bound → Option Bound → Option Bound
  | a, none => a
  | none, some b => some b
  | some a, some b =>
    if tighter b.value a.value || (b.value.same a.value && b.strict) then some b else some a

/-- What both ranges admit. -/
def meet (a b : Bounds) : Bounds where
  lower := tightest (fun x y => y.lt x) a.lower b.lower
  upper := tightest Number.lt a.upper b.upper

/-- The bound a comparison with a value sets. -/
def ofComparison (op : String) (value : Number) : Bounds :=
  if op = ">=" then { lower := some ⟨value, false⟩ }
  else if op = ">" then { lower := some ⟨value, true⟩ }
  else { upper := some ⟨value, op = "<"⟩ }

/-- The rules of a range; none if the range has no end. -/
def rules (b : Bounds) (whole : Bool) : Read (Option ValueRules) := do
  let low : ValueRules ← match b.lower with
    | none => pure {}
    | some ⟨v, false⟩ => pure { minimum := some v }
    | some ⟨v, true⟩ =>
      if whole then (v.floor).map fun n => { minimum := some (.int (n + 1)) }
      else pure { exclusiveMinimum := some v }
  let high : ValueRules ← match b.upper with
    | none => pure {}
    | some ⟨v, false⟩ => pure { maximum := some v }
    | some ⟨v, true⟩ =>
      if whole then (v.ceil).map fun n => { maximum := some (.int (n - 1)) }
      else pure { exclusiveMaximum := some v }
  return if b.lower.isNone && b.upper.isNone then none else some (low.merge high)

end Bounds

namespace Check

/-- The bounds of a comparison, with the column on either side. -/
def comparisonBounds (column : Json) (symbol : Read (List Json)) (left right : Expr) :
    Read (Option Bounds) := do
  match ← (← Expr.operatorName symbol).key with
  | .str op =>
    match Sql.flipped? op with
    | none => return none
    | some flipped =>
      let swapped ← if ← right.isColumn column then (left.isColumn column).map not else pure false
      let (column', value, op) := if swapped then (right, left, flipped) else (left, right, op)
      if ← column'.isColumn column then
        match (← value.constant?).bind Expr.numberOf? with
        | some n => return some (Bounds.ofComparison op n)
        | none => return none
      else return none
  | _ => return none

/-- The bounds of a range with two ends. -/
def betweenBounds (column : Json) (left right : Expr) : Read (Option Bounds) := do
  if ← left.isColumn column then
    match ← right.listed? with
    | none => return none
    | some es =>
      match ← Expr.constants? es with
      | some [low, high] =>
        match Expr.numberOf? low, Expr.numberOf? high with
        | some low, some high => return some ⟨some ⟨low, false⟩, some ⟨high, false⟩⟩
        | _, _ => return none
      | _ => return none
  else return none

mutual

/-- The bounds an expression sets on the column, if bounds are all it sets. -/
def bounds? (column : Json) : Expr → Read (Option Bounds)
  | .operator .plain symbol left right => comparisonBounds column symbol left right
  | .operator (.between false false) _ left right => betweenBounds column left right
  | .connective .conjunction operands => meetAll? column {} operands
  | .unlisted => .error .mistyped
  | e => do e.sound ["A_Expr", "BoolExpr"]; return none

/-- The bounds found so far, met with those of the operands. -/
def meetAll? (column : Json) (found : Bounds) : List Expr → Read (Option Bounds)
  | [] => .ok (some found)
  | e :: rest => do
    match ← bounds? column e with
    | none => return none
    | some b => meetAll? column (found.meet b) rest

end

/-! ### Values and patterns -/

/-- The value an equality gives the column. -/
def equality? (column : Json) (symbol : Read (List Json)) (left right : Expr) :
    Read (Option Json) := do
  if (← Expr.operatorName symbol).same (.str "=") then
    let swapped ← right.isColumn column
    let (column', value) := if swapped then (right, left) else (left, right)
    if ← column'.isColumn column then value.constant? else return none
  else return none

/-- Whether an expression is an equality test of the column with something. -/
def isEqualityOf (column : Json) (symbol : Read (List Json)) (left : Expr) : Read Bool := do
  if (← Expr.operatorName symbol).same (.str "=") then left.isColumn column else return false

/-- The elements of an array, seen through one cast. -/
def arrayElements? (e : Expr) : Read (Option (List Expr)) := do
  e.sound ["TypeCast"]
  let e := match e with
    | .cast _ operand => operand
    | e => e
  e.sound ["A_ArrayExpr"]
  match e with
  | .array es => return some es
  | _ => return none

/-- The values with those that are new, in order. -/
def addNew (found : List Json) : List Json → List Json
  | [] => found
  | v :: rest => addNew (if v.isIn found then found else found ++ [v]) rest

mutual

/-- The values an expression admits for the column, if a list of values is all it
says. -/
def values? (column : Json) : Expr → Read (Option (List Json))
  | .operator .membership symbol left right => do
    if ← isEqualityOf column symbol left then
      match ← right.listed? with
      | some es => Expr.constants? es
      | none => return none
    else return none
  | .operator (.quantified false) symbol left right => do
    if ← isEqualityOf column symbol left then
      match ← arrayElements? right with
      | some es => Expr.constants? es
      | none => return none
    else return none
  | .connective .disjunction operands => joinAll? column [] operands
  | .operator .plain symbol left right => do
    return (← equality? column symbol left right).map fun v => [v]
  | .unlisted => .error .mistyped
  | e => do e.sound ["A_Expr", "BoolExpr"]; return none

/-- The values found so far, with those of the operands. -/
def joinAll? (column : Json) (found : List Json) : List Expr → Read (Option (List Json))
  | [] => .ok (if found.isEmpty then none else some found)
  | e :: rest => do
    match ← values? column e with
    | none => return none
    | some vs => joinAll? column (addNew found vs) rest

end

/-- The pattern an expression matches the column with. -/
def pattern? (column : Json) : Expr → Read (Option String)
  | .operator .plain symbol left right => do
    if (← Expr.operatorName symbol).same (.str Sql.patternOperator) then
      if ← left.isColumn column then
        match ← right.constant? with
        | some (.str s) => return some s
        | _ => return none
      else return none
    else return none
  | e => do e.sound ["A_Expr"]; return none

/-- The rule that admits these values. -/
def enumRule (vs : List Json) : Read ValueRules :=
  (((Lenient.each Lenient.scalar 0 vs).under "enum_values").map fun vs =>
    { enumValues := some vs }).toRead

/-- The rules a check on the column amounts to; none if it is of no known shape or
mentions another column. `mentioned` are the columns of the expression. -/
def classify (mentioned : List Json) (e : Expr) (column : Json) (whole : Bool) :
    Read (Option ValueRules) := do
  match mentioned with
  | [only] =>
    if only.same column then
      match ← bounds? column e with
      | some b => b.rules whole
      | none =>
        match ← values? column e with
        | some vs => (enumRule vs).map some
        | none => return (← pattern? column e).map fun p => { pattern := some p }
    else return none
  | _ => return none

end Check

end StrictDdl
