import StrictDdl.Check
import StrictDdl.Expr.Render

/-! Defaults of columns: a constant, or an expression that is computed when a row is
inserted. A computed default keeps its text in the source dialect, the key of its
function if it is a call, and the expression itself. -/
namespace StrictDdl

/-- How a computed default was written. -/
inductive ComputedKind where
  | call
  | valueFunction
  | cast
  | expression
  deriving DecidableEq

namespace ComputedKind

def name : ComputedKind → String
  | .call => "function_call"
  | .valueFunction => "value_function"
  | .cast => "type_cast"
  | .expression => "expression"

def of : Expr → ComputedKind
  | .call .. => .call
  | .valueFunction _ => .valueFunction
  | .cast .. => .cast
  | _ => .expression

end ComputedKind

/-- A default evaluated when a row is inserted. -/
structure Computed where
  kind : ComputedKind
  /-- The text in the source dialect. -/
  expression : String
  /-- The lower-case name under which a call is looked up. -/
  function : Option String
  node : Option Expr

inductive Default where
  | literal (value : Scalar)
  | computed (c : Computed)

namespace Default

def isTrueWord (s : String) : Bool := Sql.trueSpellings.contains (LetterCase.lower s)

def isFalseWord (s : String) : Bool := Sql.falseSpellings.contains (LetterCase.lower s)

/-- The truth value a text spells. -/
def truth? (s : String) : Option Bool :=
  if isTrueWord s then some true else if isFalseWord s then some false else none

/-- The truth value that a cast of a constant denotes. -/
def truthCast? (type : TypeName) (operand : Expr) : Read (Option Bool) := do
  match (← type.names).getLast? with
  | none => return none
  | some name =>
    let name := LetterCase.lower (← name.text)
    if name = "bool" ∨ name = "boolean" then
      operand.sound ["A_Const"]
      match operand with
      | .constant value _ =>
        match ← value with
        | .bool b => return some b
        | .str s => return truth? s
        | _ => return none
      | _ => return none
    else return none

/-- The number that a minus sign before a constant denotes. -/
def negative? (symbol : Read (List Json)) (left right : Expr) : Read (Option Scalar) := do
  if left.isAbsent then
    match ← symbol with
    | [.str "-"] =>
      right.sound ["A_Const"]
      match right with
      | .constant value _ =>
        match ← value with
        | .int n => return some (.int (-n))
        | .float x => return some (.float x.neg)
        | _ => return none
      | _ => return none
    | _ => return none
  else return none

/-- The constant a default is, if it is one. -/
def literal? : Expr → Read (Option Scalar)
  | .constant _ shown => do
    return some (← ((Lenient.scalar (← shown)).under "value").toRead)
  | .operator _ symbol left right => negative? symbol left right
  | .cast type operand => do return (← truthCast? type operand).map .bool
  | _ => .ok none

/-- The key of a function: the name of a call that is unqualified or qualified as
built in, or the keyword of a value function. -/
def functionKey : Expr → Read (Option String)
  | .call function _ _ => do
    let names ← function
    match names with
    | [] => return none
    | [name] => return some (LetterCase.lower (← name.text))
    | schema :: _ =>
      if schema.same (.str Sql.builtinSchema) then
        match names.getLast? with
        | some name => return some (LetterCase.lower (← name.text))
        | none => return none
      else return none
  | .valueFunction code => .ok (Sql.valueFunction? code)
  | _ => .ok none

/-- What a default expression is. -/
def classify (e : Expr) : Read Default := do
  let _ ← e.kind
  match ← literal? e with
  | some value => return .literal value
  | none =>
    let expression ← e.text .postgres
    let function ← functionKey e
    return .computed ⟨.of e, expression, function, some e⟩

/-- A constant default as a column of the family stores it: a boolean column takes
the spellings of truth values and whole numbers. -/
def stored (family : Family) (value : Scalar) : Scalar :=
  match family, value with
  | .boolean, .text s => (truth? s).elim value .bool
  | .boolean, .int n => .bool (n ≠ 0)
  | _, _ => value

end Default

namespace Computed

/-- Whether the function has a counterpart, or none is needed. -/
def isKnown (c : Computed) : Bool :=
  match c.function with
  | none => true
  | some name => (Sql.computed? name).isSome

/-- The expression in the target dialect. A call that cannot be written passes as it
is, since its name is looked up only when a row is inserted; nothing else without a
form does. -/
def target? (c : Computed) : Read (Option String) :=
  match c.function.bind Sql.computed? with
  | some text => .ok (some text)
  | none =>
    match c.node with
    | none => .ok (some c.expression)
    | some e =>
      match e.text .sqlite with
      | .ok text => .ok (some text)
      | .error (.unrenderable _ _) =>
        .ok (if c.kind = .call then some c.expression else none)
      | .error fault => .error fault

end Computed

end StrictDdl
