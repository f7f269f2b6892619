import StrictDdl.Proofs.Labels
import StrictDdl.Proofs.Model.Columns
import StrictDdl.Proofs.References

/-! The type of a column, from the tree to the document.

A column keeps the names and the modifiers of its type, and what becomes of the type is found again
from these when an output is written. That is always what the tree says
(`Model.targets_found_again`). An array is as deep in the rules of its column and in a document as
it is in the tree, and inside stands what one value of its type has (`Model.nesting_kept`). -/
namespace StrictDdl

/-! ### Type names -/

theorem Modifiers.arrayDepth_ofFamily (family : Family) (given : List Int) (depth : Nat) :
    (ofFamily family given depth).arrayDepth = depth := by
  unfold ofFamily
  split <;> rfl

/-- The array bounds of a type name count its dimensions. -/
theorem TypeName.depth_ofJson {j : Json} {depth : Nat} (h : (ofJson j).depth = .ok depth) :
    ∃ ms, j = .obj ms ∧ (Members.get ms "arrayBounds").listed.length = depth := by
  obtain ⟨ms, hms, h⟩ := Read.bind_eq_ok_iff.1 h
  obtain ⟨bounds, hbounds, h⟩ := Read.bind_eq_ok_iff.1 h
  have hj : j = .obj ms := by
    cases j <;> cases hms
    rfl
  refine ⟨ms, hj, ?_⟩
  rw [Json.listed_eq hbounds]
  exact Except.ok.inj h

namespace Target

variable {enums : EnumRegistry} {type : TypeName} {entity : Json} {target : Target}

/-- What a type name says of its target. -/
theorem ofTypeName_eq_ok (h : ofTypeName type enums entity = .ok target) :
    ∃ qualifier name, type.parts entity = .ok (qualifier, .str name) ∧
      type.depth = .ok target.modifiers.arrayDepth ∧
      target = ofName name target.modifiers enums qualifier ∧
      target.modifiers.admitScale target.family = .ok () := by
  unfold ofTypeName at h
  obtain ⟨⟨qualifier, j⟩, hparts, h⟩ := Read.bind_eq_ok_iff.1 h
  obtain ⟨name, hname, h⟩ := Read.bind_eq_ok_iff.1 h
  obtain ⟨modifiers, hmodifiers, h⟩ := Read.bind_eq_ok_iff.1 h
  unfold find at h
  obtain ⟨_, hscale, h⟩ := Read.bind_eq_ok_iff.1 h
  cases h
  unfold Modifiers.ofTypeName at hmodifiers
  obtain ⟨given, _, hmodifiers⟩ := Read.bind_eq_ok_iff.1 hmodifiers
  obtain ⟨depth, hdepth, hmodifiers⟩ := Read.bind_eq_ok_iff.1 hmodifiers
  cases hmodifiers
  have hj : j = .str name := by
    cases j <;> cases hname
    rfl
  rw [ofName_modifiers, Modifiers.arrayDepth_ofFamily]
  exact ⟨qualifier, name, hj ▸ hparts, hdepth, rfl, hscale⟩

end Target

theorem Column.TypedBy.target_eq {enums : EnumRegistry} {c : Column} {name : String}
    {qualifier : Json} {target : Target} (h : c.TypedBy target)
    (htarget : target = Target.ofName name target.modifiers enums qualifier) :
    c.target enums = target := by
  rw [← h.modifiers] at htarget
  exact Column.target_eq htarget h.sourceType h.enumName

/-- **The type of a column is found again as the tree has it**, with its storage, its type and
format in a document, its modifiers, its enumeration and its rules. An enumeration that is called
like a built-in type does not stand in the way, and neither does the spelling of the name. -/
theorem Model.targets_found_again {settings : Settings} {tree : Json} {m : Model}
    (h : (build settings tree).outcome = .ok m) :
    m.EachColumn tree fun t element c => ∃ target,
      Target.ofTypeName (.ofJson ((Node.content element).get "typeName")) m.enums
        (.str (ColumnKey.label (t.name, c.name))) = .ok target ∧
      c.target m.enums = target ∧ target.modifiers.admitScale target.family = .ok () := by
  refine (build_columns h).imp fun t _ c _ element hc => ?_
  obtain ⟨target, htarget, htyped⟩ := hc.target
  obtain ⟨_, _, _, _, hofName, hscale⟩ := Target.ofTypeName_eq_ok htarget
  exact ⟨target, htarget, htyped.target_eq hofName, hscale⟩

namespace Sample

/-- A column with a type of several parts, and what else its type name says. -/
def typed (columnName : String) (typeParts : List String) (ms : Members)
    (constraints : List Json) : Json :=
  .obj [("ColumnDef", .obj [("colname", .str columnName),
    ("typeName", .obj (("names", .arr (typeParts.map name)) :: ms)),
    ("constraints", .arr constraints)])]

def number (n : Int) : Json := .obj [("A_Const", .obj [("ival", .obj [("ival", .int n)])])]

/-- An enumeration that is called like a built-in type, the type itself, and a type in capitals. -/
def shadowed : Json := .arr [enum "text" ["open", "closed"], table "orders" [
  typed "state" ["text"] [] [],
  typed "note" ["pg_catalog", "text"] [] [],
  typed "price" ["NUMERIC"] [("typmods", .arr [number 10, number 2])] []]]

end Sample

theorem Model.shadowed_found_again : ∃ m, (build {} Sample.shadowed).outcome = .ok m ∧
    (m.tables.flatMap Table.columns).map Column.family = [.enum, .text, .decimal] ∧
    m.EachColumn Sample.shadowed fun t element c => ∃ target,
      Target.ofTypeName (.ofJson ((Node.content element).get "typeName")) m.enums
        (.str (ColumnKey.label (t.name, c.name))) = .ok target ∧
      c.target m.enums = target ∧ target.modifiers.admitScale target.family = .ok () := by
  have hview : (do
      let m ← (build {} Sample.shadowed).outcome
      return (m.tables.flatMap Table.columns).map Column.family : Read _).toOption =
        some [.enum, .text, .decimal] := by decide +kernel
  obtain ⟨m, hm, hfamilies⟩ := Read.bind_eq_ok_iff.1 (Read.eq_ok_of_toOption hview)
  exact ⟨m, hm, Except.ok.inj hfamilies, targets_found_again hm⟩

/-! ### Arrays -/

namespace RuleSet

theorem arrayDepth_merge_ofValues (r : RuleSet) (values : ValueRules) :
    (r.merge (.ofValues values)).arrayDepth = r.arrayDepth := by
  obtain ⟨_, isArray, items⟩ := r
  cases isArray <;> cases items <;> rfl

/-- Checks change no nesting. -/
theorem arrayDepth_withChecks (r : RuleSet) (rules : List ValueRules) :
    (r.withChecks rules).arrayDepth = r.arrayDepth := by
  induction rules generalizing r with
  | nil => rfl
  | cons values rules ih => exact (ih _).trans (r.arrayDepth_merge_ofValues values)

theorem arrayDepth_arrayOf (values : ValueRules) (depth : Nat) :
    ((ofValues values).arrayOf depth).arrayDepth = depth := by
  induction depth with
  | zero => rfl
  | succ depth ih => exact congrArg (· + 1) ih

end RuleSet

/-- Arrays in one another, and the property inside. -/
def Property.nested (p : Property) : Nat → Property
  | 0 => p
  | depth + 1 => { type := some (.one "array"), items := some (p.nested depth) }

namespace Target

/-- The property of one value of the type: the reference to a shared enumeration, or else the type
with its format and its labels; and with either the rules of the type. -/
def scalarProperty (shared : EnumRegistry) (t : Target) : Property :=
  match t.enumName.filter fun name => shared.contains name with
  | some name => ({ ref := some (Property.definitionPath name) } : Property).withRules t.rules.values
  | none =>
    ({ type := t.jsonType.map .one
       format := t.jsonFormat
       enum := t.rules.values.enumValues.map fun values => values.map Scalar.toJson } :
      Property).withRules t.rules.values

/-- The type of one value: the same type, but no array. -/
def scalarOf (name : String) (modifiers : Modifiers) (enums : EnumRegistry) (qualifier : Json) :
    Target :=
  ofName name { modifiers with arrayDepth := 0 } enums qualifier

variable (name : String) (modifiers : Modifiers) (enums : EnumRegistry) (qualifier : Json)

theorem rules_scalarOf : (scalarOf name modifiers enums qualifier).rules =
    .ofValues (scalarOf name modifiers enums qualifier).rules.values := by
  unfold scalarOf ofName
  split <;> rfl

theorem rules_ofSpec (spec : TypeSpec) (enumName : Option String) (labels : List String) :
    (ofSpec spec name modifiers enumName labels).rules =
      (ofSpec spec name { modifiers with arrayDepth := 0 } enumName labels).rules.arrayOf
        modifiers.arrayDepth := rfl

/-- Array rules are those of one value, nested. -/
theorem rules_ofName : (ofName name modifiers enums qualifier).rules =
    (scalarOf name modifiers enums qualifier).rules.arrayOf modifiers.arrayDepth := by
  unfold scalarOf ofName
  split <;> exact rules_ofSpec ..

theorem scalarOf_document : (scalarOf name modifiers enums qualifier).jsonType =
      (ofName name modifiers enums qualifier).jsonType ∧
    (scalarOf name modifiers enums qualifier).jsonFormat =
      (ofName name modifiers enums qualifier).jsonFormat ∧
    (scalarOf name modifiers enums qualifier).enumName =
      (ofName name modifiers enums qualifier).enumName := by
  unfold scalarOf ofName
  split <;> exact ⟨rfl, rfl, rfl⟩

/-- An enumeration has its labels for a rule. -/
theorem enumValues_scalarOf {enum : String}
    (h : (scalarOf name modifiers enums qualifier).enumName = some enum) :
    (scalarOf name modifiers enums qualifier).rules.values.enumValues =
      some ((enums.labels enum).map .text) := by
  unfold scalarOf ofName at h ⊢
  split at h
  · cases h
    rename_i hisEnum
    rw [if_pos hisEnum]
    rfl
  · cases h

end Target

namespace Column

variable {settings : Settings} {enums : EnumRegistry} {c : Column}

theorem valueProperty_scalarOf {name : String} {qualifier : Json} (shared : EnumRegistry)
    (htyped : c.TypedBy (Target.ofName name c.modifiers enums qualifier)) :
    c.valueProperty enums shared (Target.scalarOf name c.modifiers enums qualifier).rules.values =
      (Target.scalarOf name c.modifiers enums qualifier).scalarProperty shared := by
  obtain ⟨htype, hformat, henum⟩ := Target.scalarOf_document name c.modifiers enums qualifier
  have henum : (Target.scalarOf name c.modifiers enums qualifier).enumName = c.enumName :=
    henum.trans htyped.enumName.symm
  have htarget : c.target enums = Target.ofName name c.modifiers enums qualifier := by
    have hname : Target.ofName name (Target.ofName name c.modifiers enums qualifier).modifiers enums
        qualifier = Target.ofName name c.modifiers enums qualifier := by
      rw [Target.ofName_modifiers]
    exact htyped.target_eq hname.symm
  have hshared : c.sharedEnum? enums shared
      (Target.scalarOf name c.modifiers enums qualifier).rules.values =
        c.enumName.filter fun name => shared.contains name := by
    cases hname : c.enumName with
    | none =>
      rw [sharedEnum?, hname]
      rfl
    | some n =>
      rw [sharedEnum?_of_labels hname
        (Target.enumValues_scalarOf name c.modifiers enums qualifier (henum.trans hname)),
        Option.filter_some]
  rw [Target.scalarProperty, henum, ← hshared, htype, hformat, ← htarget]
  rfl

/-- The property under nested rules is nested as they are. -/
theorem ruledProperty_arrayOf {shared : EnumRegistry} (values : ValueRules) (depth : Nat) :
    c.ruledProperty enums shared ((RuleSet.ofValues values).arrayOf depth) =
      (c.valueProperty enums shared values).nested depth := by
  induction depth with
  | zero => rfl
  | succ depth ih =>
    rw [RuleSet.arrayOf, ruledProperty, ih]
    rfl

/-- The rules of an array column: checks reach the outermost level only. -/
theorem Sound.rules_of_array (h : c.Sound settings enums) {values : ValueRules} {depth : Nat}
    (htarget : (c.target enums).rules = (RuleSet.ofValues values).arrayOf (depth + 1)) :
    ∃ outer, c.rules = ⟨outer, true, some ((RuleSet.ofValues values).arrayOf depth)⟩ := by
  rw [h.rules, htarget]
  exact RuleSet.withChecks_of_array ..

end Column

theorem Model.PropertyOf.eq_base {m : Model} {shared : EnumRegistry} {table : String} {c : Column}
    {p : Property} (h : m.PropertyOf shared table c p) :
    p = { c.baseProperty m.enums shared with
      default := p.default
      computedDefault := p.computedDefault
      primaryKey := p.primaryKey
      index := p.index } := by
  have hprimaryKey : p.primaryKey = if c.isPrimaryKey then some true else none := by rw [h.eq]
  have hindex : p.index = if c.isUnique then some .unique else m.indexFlag? table c.name := by
    rw [h.eq]
  rw [hprimaryKey, hindex]
  exact h.eq

/-- The property of an array column without a reference. -/
theorem Model.PropertyOf.eq_nested {m : Model} {shared : EnumRegistry} {table name : String}
    {qualifier : Json} {c : Column} {p : Property} {outer values : ValueRules} {depth : Nat}
    (h : m.PropertyOf shared table c p) (hkey : c.foreignKey = none)
    (htyped : c.TypedBy (Target.ofName name c.modifiers m.enums qualifier))
    (hvalues : (Target.scalarOf name c.modifiers m.enums qualifier).rules = .ofValues values)
    (hrules : c.rules = ⟨outer, true, some ((RuleSet.ofValues values).arrayOf depth)⟩) :
    p = { ((Target.scalarOf name c.modifiers m.enums qualifier).scalarProperty shared).nested
        (depth + 1) with
      default := p.default
      computedDefault := p.computedDefault
      primaryKey := p.primaryKey
      index := p.index } := by
  have hvalue : c.valueProperty m.enums shared values =
      (Target.scalarOf name c.modifiers m.enums qualifier).scalarProperty shared := by
    have hscalar := Column.valueProperty_scalarOf shared htyped
    rwa [hvalues] at hscalar
  have hproperty := h.eq_base
  rw [Column.baseProperty, hkey, hrules] at hproperty
  dsimp only [Column.ruledProperty] at hproperty
  rw [Column.ruledProperty_arrayOf, hvalue] at hproperty
  exact hproperty

/-- **An array is as deep everywhere as it is in the tree.** The bounds of its type name count the
levels of its rules, however many checks there are; inside are the rules of one value. In a document
there is a property of type array for each level, and inside the property of one value; the outermost
one has the default, the key and the index of the column besides. -/
theorem Model.nesting_kept {settings : Settings} {tree : Json} {m : Model}
    (h : (build settings tree).outcome = .ok m) :
    m.EachColumn tree fun t element c =>
      (∃ typeName, (Node.content element).get "typeName" = .obj typeName ∧
        (Members.get typeName "arrayBounds").listed.length = c.modifiers.arrayDepth) ∧
      c.rules.arrayDepth = c.modifiers.arrayDepth ∧
      (0 < c.modifiers.arrayDepth → ∃ qualifier name scalar,
        (TypeName.ofJson ((Node.content element).get "typeName")).parts
          (.str (ColumnKey.label (t.name, c.name))) = .ok (qualifier, .str name) ∧
        scalar = Target.ofName name { c.modifiers with arrayDepth := 0 } m.enums qualifier ∧
        c.rules.innermost = scalar.rules ∧
        (c.foreignKey = none → ∀ document,
          (Convert.toDocument settings tree).outcome = .ok document → ∃ p,
            document.output.property? t.name c.name = some p ∧
            p = { (scalar.scalarProperty (m.sharedEnums settings.sharedEnumMinRefs)).nested
                c.modifiers.arrayDepth with
              default := p.default
              computedDefault := p.computedDefault
              primaryKey := p.primaryKey
              index := p.index })) := by
  have hsound := build_sound h
  refine (build_columns h).imp fun t ht c hc element hread => ?_
  have hcolumn := (hsound.tables t ht).columns c hc
  obtain ⟨target, htarget, htyped⟩ := hread.target
  obtain ⟨qualifier, name, hparts, hdepth, hofName, _⟩ := Target.ofTypeName_eq_ok htarget
  have hfound := htyped.target_eq hofName
  rw [← htyped.modifiers] at hdepth hofName
  subst hofName
  -- The rules of the type are those of one value, nested.
  obtain ⟨values, hvalues⟩ : ∃ values,
      (Target.scalarOf name c.modifiers m.enums qualifier).rules = .ofValues values :=
    ⟨_, Target.rules_scalarOf ..⟩
  have hrules : (c.target m.enums).rules =
      (RuleSet.ofValues values).arrayOf c.modifiers.arrayDepth := by
    rw [hfound, Target.rules_ofName, hvalues]
  refine ⟨TypeName.depth_ofJson hdepth, ?_, fun hpositive => ⟨qualifier, name, _, hparts, rfl, ?_⟩⟩
  · rw [hcolumn.rules, RuleSet.arrayDepth_withChecks, hrules, RuleSet.arrayDepth_arrayOf]
  · obtain ⟨depth, hdepth⟩ := Nat.exists_eq_add_one_of_ne_zero hpositive.ne'
    rw [hdepth] at hrules
    obtain ⟨outer, houter⟩ := hcolumn.rules_of_array hrules
    refine ⟨?_, fun hkey document hdocument => ?_⟩
    · rw [houter]
      exact (RuleSet.innermost_arrayOf values depth).trans hvalues.symm
    · obtain ⟨m', hm', hof⟩ := Convert.toDocument_spec hdocument
      rw [h] at hm'
      cases hm'
      obtain ⟨p, hp, hpof⟩ := hof.exists_property hsound ht hc
      refine ⟨p, hp, ?_⟩
      rw [hdepth]
      exact hpof.eq_nested hkey htyped hvalues houter

/-- Arrays of arrays of numbers with a check, and arrays of an enumeration. -/
def Sample.grids : Json := .arr [enum "color" ["red", "green"], table "picture" [
  typed "pixels" ["numeric"] [("typmods", .arr [number 6, number 2]),
    ("arrayBounds", .arr [number (-1), number (-1)])] [atLeast "pixels" 0],
  typed "palette" ["color"] [("arrayBounds", .arr [number (-1)])] []]]

theorem Model.grids_nested : ∃ m, (build {} Sample.grids).outcome = .ok m ∧
    (Convert.toDocument {} Sample.grids).outcome.isOk = true ∧
    (m.tables.flatMap Table.columns).map (fun c => c.rules.arrayDepth) = [2, 1] ∧
    m.EachColumn Sample.grids fun t element c =>
      (∃ typeName, (Node.content element).get "typeName" = .obj typeName ∧
        (Members.get typeName "arrayBounds").listed.length = c.modifiers.arrayDepth) ∧
      c.rules.arrayDepth = c.modifiers.arrayDepth ∧
      (0 < c.modifiers.arrayDepth → ∃ qualifier name scalar,
        (TypeName.ofJson ((Node.content element).get "typeName")).parts
          (.str (ColumnKey.label (t.name, c.name))) = .ok (qualifier, .str name) ∧
        scalar = Target.ofName name { c.modifiers with arrayDepth := 0 } m.enums qualifier ∧
        c.rules.innermost = scalar.rules ∧
        (c.foreignKey = none → ∀ document,
          (Convert.toDocument {} Sample.grids).outcome = .ok document → ∃ p,
            document.output.property? t.name c.name = some p ∧
            p = { (scalar.scalarProperty (m.sharedEnums (Settings.sharedEnumMinRefs {}))).nested
                c.modifiers.arrayDepth with
              default := p.default
              computedDefault := p.computedDefault
              primaryKey := p.primaryKey
              index := p.index })) := by
  have hview : (do
      let m ← (build {} Sample.grids).outcome
      return (m.tables.flatMap Table.columns).map fun c => c.rules.arrayDepth : Read _).toOption =
        some [2, 1] := by decide +kernel
  obtain ⟨m, hm, hdepths⟩ := Read.bind_eq_ok_iff.1 (Read.eq_ok_of_toOption hview)
  exact ⟨m, hm, by decide +kernel, Except.ok.inj hdepths, nesting_kept hm⟩

end StrictDdl
