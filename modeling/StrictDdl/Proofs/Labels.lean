import StrictDdl.Proofs.Script
import StrictDdl.Proofs.Sqlite.Meaning
import StrictDdl.Proofs.Storage
import StrictDdl.Proofs.Validation

/-! The labels of an enumeration in both outputs.

A column of an enumeration is guarded by its labels in a script, and in a document its property
lists them or refers to the definition that does. Both are the labels that were declared, with one
exception on either side: a script has no guard for an enumeration without labels, and the
reference to a shared enumeration with a slash in its name leads nowhere
(`Convert.labels_agree_iff`). -/
namespace StrictDdl

/-- The values that a property lists, or the definition that it refers to. -/
def Document.listed? (d : Document) (p : Property) : Option (List Json) :=
  match p.ref with
  | some path => (d.referred? path).bind fun q => q.enum
  | none => p.enum

/-! ### Columns of an enumeration -/

namespace EnumRegistry

variable {enums : EnumRegistry} {name : String} {e : EnumType}

theorem name_of_find? (h : enums.find? name = some e) : e.name = name := by
  simpa using List.find?_some h

theorem labels_of_find? (h : enums.find? name = some e) : enums.labels name = e.labels := by
  rw [labels, h]

end EnumRegistry

namespace Column

variable {settings : Settings} {enums shared : EnumRegistry} {c : Column} {name : String}

theorem target_of_enum (hname : c.enumName = some name) (hdeclared : enums.contains name) :
    c.target enums = .ofSpec .enum name c.modifiers (some name) (enums.labels name) := by
  simp [target, hname, Target.ofName, Target.isEnum, hdeclared]

theorem Sound.family_of_enum (h : c.Sound settings enums) (hname : c.enumName = some name) :
    c.family = .enum := by
  rw [← h.family, target_of_enum hname (h.declared name hname)]
  rfl

/-- Without checks, the labels are the only rule of a column that is no array. -/
theorem Sound.rules_of_enum (h : c.Sound settings enums) (hname : c.enumName = some name)
    (harray : c.isArray = false) (hchecks : c.checks = []) :
    c.rules = .ofValues { enumValues := some ((enums.labels name).map .text) } := by
  have hdepth : c.modifiers.arrayDepth = 0 := Nat.eq_zero_of_not_pos (of_decide_eq_false harray)
  rw [h.rules, target_of_enum hname (h.declared name hname), hchecks]
  simp [Target.ofSpec, hdepth, Target.valueRules, RuleSet.withChecks, RuleSet.arrayOf, TypeSpec.enum]

theorem sharedEnum?_of_labels {r : ValueRules} (hname : c.enumName = some name)
    (hvalues : r.enumValues = some ((enums.labels name).map .text)) :
    c.sharedEnum? enums shared r = if shared.contains name then some name else none := by
  simp [sharedEnum?, hname, hvalues]

end Column

/-! ### Documents -/

namespace Model

variable {settings : Settings} {m : Model} {d : Document} {name : String} {e : EnumType}

/-- A declared enumeration is shared if enough columns have it. -/
theorem contains_sharedEnums_iff {minRefs : Int} (h : m.enums.find? name = some e) :
    EnumRegistry.contains (m.sharedEnums minRefs) name ↔ minRefs ≤ m.enumRefs name := by
  rw [EnumRegistry.contains, EnumRegistry.find?, List.find?_isSome]
  constructor
  · rintro ⟨e', he', hname⟩
    rw [decide_eq_true_eq] at hname
    rw [← hname]
    simpa using (List.mem_filter.1 he').2
  · intro hrefs
    have hname := EnumRegistry.name_of_find? h
    refine ⟨e, List.mem_filter.2 ⟨List.mem_of_find?_eq_some h, ?_⟩, decide_eq_true hname⟩
    rw [hname]
    exact decide_eq_true hrefs

/-- The property of a column of an enumeration refers to its definition if there is one, and else
it lists the labels itself. -/
theorem PropertyOf.ref_or_enum {shared : EnumRegistry} {table : String} {c : Column} {p : Property}
    (h : m.PropertyOf shared table c p) (hc : c.Sound settings m.enums)
    (hname : c.enumName = some name) (harray : c.isArray = false) (hkey : c.foreignKey = none)
    (hchecks : c.checks = []) :
    shared.contains name = true ∧ p.ref = some (Property.definitionPath name) ∨
      shared.contains name = false ∧ p.ref = none ∧
        p.enum = some ((m.enums.labels name).map .str) := by
  have hbase : c.baseProperty m.enums shared = c.valueProperty m.enums shared
      { enumValues := some ((m.enums.labels name).map .text) } := by
    rw [Column.baseProperty, hkey, hc.rules_of_enum hname harray hchecks]
    rfl
  have hkeywords := h.eq
  rw [hbase, Column.valueProperty, Column.sharedEnum?_of_labels hname rfl] at hkeywords
  cases hshared : shared.contains name with
  | true =>
    rw [hshared, if_pos rfl] at hkeywords
    refine .inl ⟨rfl, ?_⟩
    rw [hkeywords]
    rfl
  | false =>
    rw [hshared, if_neg Bool.false_ne_true] at hkeywords
    refine .inr ⟨rfl, ?_, ?_⟩
    · rw [hkeywords]
      rfl
    · rw [hkeywords]
      simp [Property.withRules, Scalar.toJson, Function.comp_def]

namespace DocumentOf

/-- Every column of the model has its property. -/
theorem exists_property (h : m.DocumentOf settings d) (hsound : m.Sound settings) {t : Table}
    (ht : t ∈ m.tables) {c : Column} (hc : c ∈ t.columns) :
    ∃ p, d.property? t.name c.name = some p ∧
      m.PropertyOf (m.sharedEnums settings.sharedEnumMinRefs) t.name c p := by
  have hcolumn := hsound.column?_eq ht hc
  rcases h.property?_spec t.name c.name with ⟨hnone, _⟩ | ⟨c', p, hc', hp, hpof⟩
  · rw [hcolumn] at hnone
    cases hnone
  · rw [hcolumn] at hc'
    cases hc'
    exact ⟨p, hp, hpof⟩

/-- The definition of a shared enumeration is found unless its name holds a slash. -/
theorem referred?_isSome_iff (h : m.DocumentOf settings d)
    (hshared : EnumRegistry.contains (m.sharedEnums settings.sharedEnumMinRefs) name)
    (hname : name ≠ "") :
    (d.referred? (Property.definitionPath name)).isSome ↔ (RefKey.definition name).IsPlain := by
  rw [Document.referred?]
  constructor
  · intro hsome
    obtain ⟨q, hq⟩ := Option.isSome_iff_exists.1 hsome
    obtain ⟨key, hkey, _⟩ := Option.bind_eq_some_iff.1 hq
    exact RefKey.isPlain_of_definition? (by rw [hkey]; rfl)
  · intro hplain
    rw [RefKey.definition?_of_isPlain hname hplain, Option.bind_some, h.definition?_eq,
      Option.isSome_map]
    exact hshared

/-- **A document lists the labels of a column's enumeration exactly if too few columns share the
enumeration for a definition, or if its name holds no slash.** -/
theorem listed?_eq_iff (h : m.DocumentOf settings d) (hsound : m.Sound settings)
    {table : String} {c : Column} {p : Property} (hc : c.Sound settings m.enums)
    (hp : m.PropertyOf (m.sharedEnums settings.sharedEnumMinRefs) table c p)
    (hname : c.enumName = some name) (he : m.enums.find? name = some e) (harray : c.isArray = false)
    (hkey : c.foreignKey = none) (hchecks : c.checks = []) :
    d.listed? p = some (e.labels.map .str) ↔
      (m.enumRefs name : Int) < settings.sharedEnumMinRefs ∨ (RefKey.definition name).IsPlain := by
  have hlabels := EnumRegistry.labels_of_find? he
  have hnonempty : name ≠ "" := by
    rw [← EnumRegistry.name_of_find? he]
    exact hsound.enums e (List.mem_of_find?_eq_some he)
  rw [← Int.not_le, ← contains_sharedEnums_iff he, Document.listed?]
  rcases hp.ref_or_enum hc hname harray hkey hchecks with ⟨hshared, href⟩ | ⟨hshared, href, henum⟩
  · rw [href, ← h.referred?_isSome_iff hshared hnonempty, hshared]
    simp only [not_true, false_or]
    generalize hq : d.referred? (Property.definitionPath name) = q?
    cases q? with
    | none => simp
    | some q => simp [h.referred?_enum hq, hlabels]
  · simp [href, henum, hlabels, hshared]

end DocumentOf

end Model

/-! ### Both outputs -/

namespace Convert

variable {settings : Settings} {tree : Json} {direct : Converted Ddl.Script}
  {document : Converted Document}

/-- **A column of an enumeration admits the same labels in both outputs, those that were declared,
with one exception on either side.** The script admits exactly the labels if there are labels and
the column can be read, and otherwise not. The document lists exactly the labels if too few columns
share the enumeration for a definition or if its name holds no slash, and otherwise not. -/
theorem labels_agree_iff (hdirect : (toDdl settings tree).outcome = .ok direct)
    (hdocument : (toDocument settings tree).outcome = .ok document) :
    ∃ m, (Model.build settings tree).outcome = .ok m ∧
      ∀ t ∈ m.tables, ∀ c ∈ t.columns, ∀ name, c.enumName = some name → c.isArray = false →
        c.foreignKey = none → c.checks = [] → ∃ e column p,
          m.enums.find? name = some e ∧
          direct.output.column? t.name c.name = some column ∧
          document.output.property? t.name c.name = some p ∧
          ((∀ s, ∃ truth, column.verdict? (.text s) = some truth ∧ (truth ≠ .no ↔ s ∈ e.labels)) ↔
            e.labels ≠ [] ∧ Sqlite.IsName c.name) ∧
          (document.output.listed? p = some (e.labels.map .str) ↔
            (m.enumRefs name : Int) < settings.sharedEnumMinRefs ∨
              (RefKey.definition name).IsPlain) := by
  obtain ⟨m, hm, hscript⟩ := toDdl_spec hdirect
  obtain ⟨m', hm', hof⟩ := toDocument_spec hdocument
  rw [hm] at hm'
  cases hm'
  have hsound := Model.build_sound hm
  obtain ⟨_, _, _, haccounts⟩ := Model.build_accounts hm
  have hcovers := (haccounts.scriptOf hscript).covers
  refine ⟨m, hm, fun t ht c hc name hname harray hkey hchecks => ?_⟩
  have hcolumn := (hsound.tables t ht).columns c hc
  obtain ⟨e, he⟩ := Option.isSome_iff_exists.1 (hcolumn.declared name hname)
  obtain ⟨column, hfound, hdefined⟩ :=
    hcovers.column?_eq hsound (fun _ _ _ h => (Column.definition_eq_ok h).1) ht hc
  obtain ⟨p, hp, hpof⟩ := hof.exists_property hsound ht hc
  have hguards := Column.guards_of_definition hdefined
  rw [Column.guards_of_enum harray (hcolumn.family_of_enum hname) hname
    (EnumRegistry.labels_of_find? he)] at hguards
  refine ⟨e, column, p, he, hfound, hp, ?_, ?_⟩
  · rw [← (Column.definition_eq_ok hdefined).1]
    exact Ddl.ColumnDef.verdict?_labels_iff (Except.ok.inj hguards).symm
  · exact hof.listed?_eq_iff hsound hcolumn hpof hname he harray hkey hchecks

end Convert

/-- A column of an enumeration without labels. -/
def Sample.unlabelled : Json := .arr [enum "state" [], table "orders" [column "state" "state" []]]

/-- A script admits any text for an enumeration without labels, a document none, and no marker
tells. -/
theorem Convert.unlabelled_disagree : ∃ direct document,
    (toDdl {} Sample.unlabelled).outcome = .ok direct ∧ direct.markers = [] ∧
    (toDocument {} Sample.unlabelled).outcome = .ok document ∧ document.markers = [] ∧
    (direct.output.column? "orders" "state").bind (·.verdict? (.text "open")) = some .yes ∧
    (document.output.property? "orders" "state").bind document.output.listed? = some [] ∧
    ∃ m, (Model.build {} Sample.unlabelled).outcome = .ok m ∧
      ∀ t ∈ m.tables, ∀ c ∈ t.columns, ∀ name, c.enumName = some name → c.isArray = false →
        c.foreignKey = none → c.checks = [] → ∃ e column p,
          m.enums.find? name = some e ∧
          direct.output.column? t.name c.name = some column ∧
          document.output.property? t.name c.name = some p ∧
          ((∀ s, ∃ truth, column.verdict? (.text s) = some truth ∧ (truth ≠ .no ↔ s ∈ e.labels)) ↔
            e.labels ≠ [] ∧ Sqlite.IsName c.name) ∧
          (document.output.listed? p = some (e.labels.map .str) ↔
            (m.enumRefs name : Int) < Settings.sharedEnumMinRefs {} ∨
              (RefKey.definition name).IsPlain) := by
  have hview : (do
      let direct ← (toDdl {} Sample.unlabelled).outcome
      let document ← (toDocument {} Sample.unlabelled).outcome
      return (direct.markers, document.markers,
        (direct.output.column? "orders" "state").bind (·.verdict? (.text "open")),
        ((document.output.property? "orders" "state").bind document.output.listed?).map
          List.length) : Read _).toOption = some ([], [], some .yes, some 0) := by decide +kernel
  have h := Read.eq_ok_of_toOption hview
  obtain ⟨direct, hdirect, h⟩ := Read.bind_eq_ok_iff.1 h
  obtain ⟨document, hdocument, h⟩ := Read.bind_eq_ok_iff.1 h
  have h := Except.ok.inj h
  simp only [Prod.mk.injEq] at h
  obtain ⟨hlossless, hlossless', hverdict, hlength⟩ := h
  obtain ⟨values, hvalues, hlength⟩ := Option.map_eq_some_iff.1 hlength
  rw [List.length_eq_zero_iff.1 hlength] at hvalues
  exact ⟨direct, document, hdirect, hlossless, hdocument, hlossless', hverdict, hvalues,
    labels_agree_iff hdirect hdocument⟩

end StrictDdl
