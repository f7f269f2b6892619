import StrictDdl.Sql.Vocabulary

/-! How strongly the parts of an expression hold together.

A rendered expression remembers its binding; an operand is put in parentheses when
it binds more loosely than the place it stands in, and on the right of a comparison
or tighter operator also when it binds equally. -/
namespace StrictDdl

/-- Bindings, loosest first. -/
inductive Binding where
  | disjunction
  | conjunction
  | negation
  | test
  | comparison
  /-- Matches, memberships and ranges. -/
  | matching
  /-- Operators without a place of their own. -/
  | userOperator
  | sum
  | product
  | power
  | sign
  | cast
  | atom
  deriving DecidableEq

namespace Binding

def rank : Binding → Nat
  | .disjunction => 1
  | .conjunction => 2
  | .negation => 3
  | .test => 4
  | .comparison => 5
  | .matching => 6
  | .userOperator => 7
  | .sum => 8
  | .product => 9
  | .power => 10
  | .sign => 11
  | .cast => 12
  | .atom => 13

/-- The binding of an operator between two operands. -/
def ofOperator (op : String) : Binding :=
  if Sql.comparisons.contains op then .comparison
  else if op = "+" ∨ op = "-" then .sum
  else if op = "*" ∨ op = "/" ∨ op = "%" then .product
  else if op = "^" then .power
  else .userOperator

end Binding

/-- The text of an expression and its binding. -/
structure Rendered where
  text : String
  binding : Binding

namespace Rendered

def atom (text : String) : Rendered := ⟨text, .atom⟩

/-- Whether the expression needs parentheses in a place of this binding. -/
def isLoose (r : Rendered) (place : Binding) (onRight : Bool) : Bool :=
  r.binding.rank < place.rank ||
    (onRight && r.binding = place && Binding.comparison.rank ≤ place.rank)

/-- The expression as an operand. -/
def operand (r : Rendered) (place : Binding) (onRight : Bool) : String :=
  if r.isLoose place onRight then "(" ++ r.text ++ ")" else r.text

/-- An operator between two expressions. -/
def between (left : Rendered) (op : String) (right : Rendered) (binding : Binding) : Rendered :=
  ⟨left.operand binding false ++ " " ++ op ++ " " ++ right.operand binding true, binding⟩

end Rendered

/-- The texts of a list of expressions. -/
def joinTexts (rs : List Rendered) : String := String.intercalate ", " (rs.map Rendered.text)

end StrictDdl
