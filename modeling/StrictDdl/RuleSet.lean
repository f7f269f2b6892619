import StrictDdl.Scalar

/-! Rules on the values of a column.

Rules come from the type of a column and from its checks. An array column has one
rule set per dimension, each holding the next as the rules of its items, and the
rules of the type stand on the innermost one. Rule sets are merged with the later
one winning: each value rule is overridden on its own, the array part as a
whole. -/
namespace StrictDdl

/-- The rules on one value; an absent rule admits everything. -/
structure ValueRules where
  minimum : Option Number := none
  maximum : Option Number := none
  exclusiveMinimum : Option Number := none
  exclusiveMaximum : Option Number := none
  enumValues : Option (List Scalar) := none
  pattern : Option String := none
  maxLength : Option Int := none
  multipleOf : Option Binary64 := none
  deriving DecidableEq, Inhabited

namespace ValueRules

def isEmpty (r : ValueRules) : Bool := r = {}

/-- The rules of both, those on the right winning. -/
def merge (a b : ValueRules) : ValueRules where
  minimum := b.minimum.or a.minimum
  maximum := b.maximum.or a.maximum
  exclusiveMinimum := b.exclusiveMinimum.or a.exclusiveMinimum
  exclusiveMaximum := b.exclusiveMaximum.or a.exclusiveMaximum
  enumValues := b.enumValues.or a.enumValues
  pattern := b.pattern.or a.pattern
  maxLength := b.maxLength.or a.maxLength
  multipleOf := b.multipleOf.or a.multipleOf

end ValueRules

/-- The rules on a column, or on the items of an array. -/
structure RuleSet where
  values : ValueRules := {}
  isArray : Bool := false
  items : Option RuleSet := none
  deriving Inhabited

namespace RuleSet

def ofValues (values : ValueRules) : RuleSet := { values }

def isEmpty (r : RuleSet) : Bool := !r.isArray && r.values.isEmpty

/-- The rules of both, those on the right winning. -/
def merge (a b : RuleSet) : RuleSet where
  values := a.values.merge b.values
  isArray := b.isArray || a.isArray
  items := if b.isArray then b.items else a.items

/-- The number of array dimensions. -/
def arrayDepth : RuleSet → Nat
  | ⟨_, true, some r⟩ => r.arrayDepth + 1
  | ⟨_, true, none⟩ => 1
  | ⟨_, false, _⟩ => 0

/-- The rules on the elements that are no arrays. -/
def innermost : RuleSet → RuleSet
  | ⟨_, true, some r⟩ => r.innermost
  | r => r

/-- The rules of an array of the given depth. -/
def arrayOf (r : RuleSet) : Nat → RuleSet
  | 0 => r
  | depth + 1 => { isArray := true, items := some (r.arrayOf depth) }

end RuleSet

end StrictDdl
