import StrictDdl.Document.ToDdl
import StrictDdl.Proofs.Document.Load
import StrictDdl.Proofs.Document.OfModel
import StrictDdl.Proofs.Document.Reference
import StrictDdl.Proofs.Walk

/-! The references of a document follow those of its model.

A document refers wherever a column of its model does, and besides from a column to the
enumeration it shares, which refers to nothing. So every walk along its references arrives
(`Model.DocumentOf.run`), and it arrives at a property that is stored the way the owner of
the column is. -/
namespace StrictDdl

/-! ### Reading back -/

namespace Property

@[simp] theorem written_ref (p : Property) : p.written.ref = p.ref := by
  obtain ⟨keywords, _ | items⟩ := p <;> rfl

@[simp] theorem written_primaryKey (p : Property) : p.written.primaryKey = p.primaryKey := by
  obtain ⟨keywords, _ | items⟩ := p <;> rfl

@[simp] theorem written_index (p : Property) : p.written.index = p.index := by
  obtain ⟨keywords, _ | items⟩ := p <;> rfl

@[simp] theorem written_onDelete (p : Property) : p.written.onDelete = p.onDelete := by
  obtain ⟨keywords, _ | items⟩ := p <;> rfl

@[simp] theorem written_onUpdate (p : Property) : p.written.onUpdate = p.onUpdate := by
  obtain ⟨keywords, _ | items⟩ := p <;> rfl

@[simp] theorem written_storage (p : Property) : p.written.storage = p.storage := by
  obtain ⟨keywords, _ | items⟩ := p <;> rfl

@[simp] theorem written_path? (p : Property) : p.written.path? = p.path? := by
  rw [path?, path?, written_ref]

@[simp] theorem written_columnRef? (p : Property) : p.written.columnRef? = p.columnRef? := by
  rw [columnRef?, columnRef?, written_path?]

/-- A property of one value is stored by its type. -/
theorem storage_of_type {p : Property} (type : Option String) (hitems : p.items = none)
    (htype : p.type = type.map .one) :
    p.storage = (type.bind fun name => TypeSpec.storageOf.lookup name).getD
      TypeSpec.unknown.storage := by
  have hscalar : p.scalarType? = type := by
    rw [Keywords.scalarType?, htype]
    cases type <;> rfl
  rw [storage, hitems, hscalar]
  by_cases harray : type = some "array"
  · subst harray
    rfl
  · simp [harray]

end Property

namespace Document

theorem written_property? (d : Document) (table column : String) :
    d.written.property? table column = (d.property? table column).map Property.written := by
  rw [property?, property?, table?, table?, written, lookup_map_values, Option.map_bind,
    Option.bind_map]
  congr 1
  funext t
  exact lookup_map_values Property.written t.properties column

theorem written_definition? (d : Document) (name : String) :
    d.written.definition? name = (d.definition? name).map Property.written := by
  rw [definition?, definition?, written]
  cases d.defs with
  | none => rfl
  | some defs => exact lookup_map_values Property.written defs name

/-! What a key of a document says, by what it finds there. -/

section Step

variable {d : Document} {k : RefKey} {p : Property}

theorem refStep_of_none (h : d.find? k = none) : d.refStep k = .stop .missing := by
  rw [refStep, h]

theorem refStep_of_no_path (h : d.find? k = some p) (hpath : p.path? = none) :
    d.refStep k = .stop (.property p) := by
  rw [refStep, h]
  simp only [hpath]

theorem refStep_of_unrecognised {path : String} (h : d.find? k = some p)
    (hpath : p.path? = some path) (hnone : RefKey.ofPath? path = none) :
    d.refStep k = .stop .unrecognised := by
  rw [refStep, h]
  simp only [hpath, hnone]

theorem refStep_of_path {path : String} {next : RefKey} (h : d.find? k = some p)
    (hpath : p.path? = some path) (hnext : RefKey.ofPath? path = some next) :
    d.refStep k = .go next := by
  rw [refStep, h]
  simp only [hpath, hnext]

end Step

end Document

/-! ### Columns and their properties -/

namespace Column

/-- How a document stores the values of a column that refers to nothing. -/
def documentStorage (enums : EnumRegistry) (c : Column) : String :=
  if c.rules.isArray then TypeSpec.arrayStorage
  else ((c.target enums).jsonType.bind fun name => TypeSpec.storageOf.lookup name).getD
    TypeSpec.unknown.storage

end Column

namespace Model

variable {m : Model} {shared : EnumRegistry} {table : String} {c : Column} {p : Property}

namespace PropertyOf

theorem path?_eq (h : m.PropertyOf shared table c p) :
    p.path? = (c.baseProperty m.enums shared).path? := congrArg (·.path?) h.eq

theorem storage_eq (h : m.PropertyOf shared table c p) :
    p.storage = (c.baseProperty m.enums shared).storage := congrArg (·.storage) h.eq

end PropertyOf

end Model

namespace Column

variable {enums shared : EnumRegistry} {c : Column}

/-- A referencing column refers to what its foreign key does. -/
theorem baseProperty_path?_of_key {fk : ForeignKey} (h : c.foreignKey = some fk) :
    (c.baseProperty enums shared).path? = some fk.path := by
  rw [baseProperty, h]
  simp [Property.path?, RefKey.path_ne_empty]

theorem sharedEnum?_eq_some {r : ValueRules} {name : String}
    (h : c.sharedEnum? enums shared r = some name) :
    c.enumName = some name ∧ shared.contains name ∧
      ∀ values, r.enumValues = some values → values = (enums.labels name).map .text := by
  unfold sharedEnum? at h
  split at h
  · cases h
  · rename_i enum henum
    obtain ⟨hshared, heq⟩ := Option.ite_none_right_eq_some.1 h
    cases heq
    obtain ⟨hcontains, hall⟩ := Bool.and_eq_true_iff.1 hshared
    refine ⟨henum, hcontains, ?_⟩
    intro values hvalues
    simpa [hvalues] using hall

/-- Any other column is stored by its type, or refers to the enumeration it shares. -/
theorem baseProperty_of_no_key (h : c.foreignKey = none) :
    ((c.baseProperty enums shared).path? = none ∧
      (c.baseProperty enums shared).storage = c.documentStorage enums) ∨
    ∃ name, (c.baseProperty enums shared).path? = some (Property.definitionPath name) ∧
      c.rules.isArray = false ∧ c.enumName = some name ∧ shared.contains name := by
  rw [baseProperty, h, documentStorage]
  obtain ⟨values, isArray, items⟩ := c.rules
  cases isArray with
  | true =>
    left
    cases items with
    | some r => exact ⟨rfl, by simp [ruledProperty, Property.storage]⟩
    | none => exact ⟨rfl, by simp [ruledProperty, Property.storage]⟩
  | false =>
    simp only [ruledProperty, valueProperty]
    cases hshared : c.sharedEnum? enums shared values with
    | none =>
      refine .inl ⟨rfl, ?_⟩
      rw [Property.storage_of_type (c.target enums).jsonType rfl rfl]
      rfl
    | some name =>
      obtain ⟨henum, hcontains, _⟩ := sharedEnum?_eq_some hshared
      have hpath := RefKey.definitionPath_ne_empty name
      exact .inr ⟨name, by simp [Property.path?, Property.withRules, hpath], trivial, henum, hcontains⟩

/-- A column of an enumeration is stored as text. -/
theorem documentStorage_of_enum {name : String} (hrules : c.rules.isArray = false)
    (hname : c.enumName = some name) (hcontains : enums.contains name) :
    c.documentStorage enums = (Property.ofEnum ⟨name, []⟩).storage := by
  have hjson : (c.target enums).jsonType = some "string" := by
    simp [target, hname, Target.ofName, Target.isEnum, hcontains, Target.ofSpec, TypeSpec.enum]
  rw [documentStorage, hrules, hjson]
  rfl

end Column

/-! ### Walks -/

namespace Model

/-- What a document finds where the references of a column end. A path of no known form ends
a walk early. -/
inductive EndOf (m : Model) : Option Column → Document.ChainEnd → Prop where
  | missing : EndOf m none .missing
  | unrecognised (owner : Option Column) : EndOf m owner .unrecognised
  | property {owner : Column} {p : Property} :
    p.storage = owner.documentStorage m.enums → EndOf m (some owner) (.property p)

namespace DocumentOf

variable {settings : Settings} {m : Model} {d : Document}

/-- A document finds a property exactly where its model finds a column. -/
theorem property?_spec (h : m.DocumentOf settings d) (table column : String) :
    (m.column? table column = none ∧ d.property? table column = none) ∨
      ∃ c p, m.column? table column = some c ∧ d.property? table column = some p ∧
        m.PropertyOf (m.sharedEnums settings.sharedEnumMinRefs) table c p := by
  rw [column?, table?, Document.property?, Document.table?]
  cases htable : d.properties.lookup table with
  | none => exact .inl ⟨by rw [h.tables.lookup_eq_none htable]; rfl, rfl⟩
  | some s =>
    obtain ⟨t, ht, hs⟩ := h.tables.lookup_eq_some htable
    have hname : t.name = table := by simpa using List.find?_some ht
    subst hname
    rw [ht, Option.bind_some, Option.bind_some, Table.column?]
    cases hcolumn : s.properties.lookup column with
    | none => exact .inl ⟨hs.properties.lookup_eq_none hcolumn, rfl⟩
    | some p =>
      obtain ⟨c, hc, hp⟩ := hs.properties.lookup_eq_some hcolumn
      exact .inr ⟨c, p, hc, rfl, hp⟩

theorem definition?_eq (h : m.DocumentOf settings d) (name : String) :
    d.definition? name =
      (EnumRegistry.find? (m.sharedEnums settings.sharedEnumMinRefs) name).map .ofEnum := by
  rw [Document.definition?, h.defs, EnumRegistry.find?]
  induction m.sharedEnums settings.sharedEnumMinRefs with
  | nil => rfl
  | cons e shared ih =>
    rw [List.map_cons, List.lookup_cons, List.find?_cons]
    by_cases hname : e.name = name
    · simp [hname]
    · have hne : (name == e.name) = false := by simpa using fun h => hname h.symm
      simp only [hne, hname, decide_false]
      exact ih

/-- A shared enumeration is the one that is declared under its name. -/
theorem enum_of_shared {minRefs : Int} {name : String} {e : EnumType}
    (h : EnumRegistry.find? (m.sharedEnums minRefs) name = some e) :
    m.enums.find? name = some e := by
  have hmem := List.mem_of_find?_eq_some h
  have hname : e.name = name := by simpa using List.find?_some h
  have hrefs : (m.enumRefs name : Int) ≥ minRefs := by
    simpa [hname] using (List.mem_filter.1 hmem).2
  rw [EnumRegistry.find?, sharedEnums, List.find?_filter] at h
  rw [EnumRegistry.find?, ← h]
  congr 1
  funext e'
  by_cases he' : e'.name = name
  · simp [he', hrefs]
  · simp [he']

theorem contains_of_shared {minRefs : Int} {name : String}
    (h : EnumRegistry.contains (m.sharedEnums minRefs) name) : m.enums.contains name := by
  obtain ⟨e, he⟩ := Option.isSome_iff_exists.1 h
  rw [EnumRegistry.contains, enum_of_shared he]
  rfl

/-- The property of a column that refers to nothing: it ends a walk, or only the
enumeration it shares is behind it. -/
theorem refStep_of_no_key (h : m.DocumentOf settings d) {table column : String} {c : Column}
    {p : Property} (hp : d.property? table column = some p)
    (hof : m.PropertyOf (m.sharedEnums settings.sharedEnumMinRefs) table c p)
    (hkey : c.foreignKey = none) :
    (∃ e, d.written.refStep (.column table column) = .stop e ∧ m.EndOf (some c) e) ∨
      ∃ name e, d.written.refStep (.column table column) = .go (.definition name) ∧
        d.written.refStep (.definition name) = .stop e ∧ m.EndOf (some c) e := by
  have hfind : d.written.find? (.column table column) = some p.written := by
    rw [Document.find?, Document.written_property?, hp, Option.map_some]
  rcases Column.baseProperty_of_no_key hkey with ⟨hpath, hstorage⟩ | ⟨name, hpath, hrules, henum, hshared⟩
  · rw [← hof.path?_eq, ← p.written_path?] at hpath
    refine .inl ⟨_, Document.refStep_of_no_path hfind hpath, .property ?_⟩
    rw [p.written_storage, hof.storage_eq, hstorage]
  · rw [← hof.path?_eq, ← p.written_path?] at hpath
    rcases RefKey.ofPath?_definitionPath name with hnone | hnext
    · exact .inl ⟨_, Document.refStep_of_unrecognised hfind hpath hnone, .unrecognised _⟩
    · obtain ⟨e, he⟩ := Option.isSome_iff_exists.1 hshared
      have hdefinition : d.written.find? (.definition name) = some (Property.ofEnum e).written := by
        rw [Document.find?, Document.written_definition?, h.definition?_eq, he]
        rfl
      refine .inr ⟨name, _, Document.refStep_of_path hfind hpath hnext,
        Document.refStep_of_no_path hdefinition rfl, .property ?_⟩
      rw [Column.documentStorage_of_enum hrules henum (contains_of_shared hshared)]
      rfl

/-- The property of a referencing column leads where the column does, or its path is of no
known form. -/
theorem refStep_of_key {table column : String} {c : Column} {p : Property} {fk : ForeignKey}
    (hp : d.property? table column = some p)
    (hof : m.PropertyOf (m.sharedEnums settings.sharedEnumMinRefs) table c p)
    (hkey : c.foreignKey = some fk) :
    d.written.refStep (.column table column) = .go (.column fk.table fk.column) ∨
      d.written.refStep (.column table column) = .stop .unrecognised := by
  have hfind : d.written.find? (.column table column) = some p.written := by
    rw [Document.find?, Document.written_property?, hp, Option.map_some]
  have hpath : p.written.path? = some fk.path := by
    rw [p.written_path?, hof.path?_eq, Column.baseProperty_path?_of_key hkey]
  rcases RefKey.ofPath?_path fk with hnone | hnext
  · exact .inr (Document.refStep_of_unrecognised hfind hpath hnone)
  · exact .inl (Document.refStep_of_path hfind hpath hnext)

/-- The references of a document follow those of its model. -/
theorem simulates (h : m.DocumentOf settings d) :
    Walk.Simulates m.references d.written.references (fun k => .column k.1 k.2) m.EndOf where
  injective := by
    rintro ⟨t, c⟩ ⟨t', c'⟩ heq
    cases heq
    rfl
  stop := by
    rintro ⟨table, column⟩ r hstep
    replace hstep : m.referenceStep (table, column) = .stop r := hstep
    rw [referenceStep] at hstep
    rcases h.property?_spec table column with ⟨hc, hp⟩ | ⟨c, p, hc, hp, hof⟩
    · rw [hc] at hstep
      cases hstep
      have hfind : d.written.find? (.column table column) = none := by
        rw [Document.find?, Document.written_property?, hp, Option.map_none]
      exact .inl ⟨_, Document.refStep_of_none hfind, .missing⟩
    · rw [hc] at hstep
      cases hkey : c.foreignKey with
      | some fk => simp [hkey] at hstep
      | none =>
        simp only [hkey, Step.stop.injEq] at hstep
        subst hstep
        rcases h.refStep_of_no_key hp hof hkey with hstop | ⟨name, e, hgo, hstop, hend⟩
        · exact .inl hstop
        · exact .inr ⟨.definition name, e, hgo, by simp, hstop, hend⟩
  go := by
    rintro ⟨table, column⟩ next hstep
    replace hstep : m.referenceStep (table, column) = .go next := hstep
    rw [referenceStep] at hstep
    rcases h.property?_spec table column with ⟨hc, hp⟩ | ⟨c, p, hc, hp, hof⟩
    · rw [hc] at hstep
      cases hstep
    · rw [hc] at hstep
      cases hkey : c.foreignKey with
      | none => simp [hkey] at hstep
      | some fk =>
        simp only [hkey, Step.go.injEq] at hstep
        subst hstep
        rcases refStep_of_key hp hof hkey with hgo | hstop
        · exact .inl hgo
        · exact .inr ⟨.unrecognised, hstop, .unrecognised⟩

/-- A model that has a document has an end for the references of every column. -/
theorem owner_eq_ok (h : m.DocumentOf settings d) (table column : String) :
    ∃ owner, m.owner table column = .ok owner := by
  have hstop : ∀ r, m.referenceStep (table, column) = .stop r →
      ∃ owner, m.owner table column = .ok owner := by
    intro r hr
    have hrun : m.references.run (table, column) = _ := Walk.run_of_stop hr
    exact ⟨r, by rw [owner, hrun]⟩
  rcases h.property?_spec table column with ⟨hc, _⟩ | ⟨c, p, hc, _, hof⟩
  · exact hstop none (by rw [referenceStep, hc])
  · cases hkey : c.foreignKey with
    | none => exact hstop (some c) (by rw [referenceStep, hc]; simp only [hkey])
    | some fk =>
      have howner := hof.owner (by rw [hkey]; rfl)
      rw [column?, Option.bind_eq_some_iff] at hc
      obtain ⟨t, _, hc⟩ := hc
      have hname : c.name = column := by simpa using List.find?_some hc
      rwa [hname] at howner

/-- **Every reference of a document ends where that of its model does.** -/
theorem run (h : m.DocumentOf settings d) (table column : String) :
    ∃ owner path e, m.owner table column = .ok owner ∧
      d.written.references.run (.column table column) = .arrived path e ∧ m.EndOf owner e := by
  obtain ⟨owner, howner⟩ := h.owner_eq_ok table column
  have hrun := howner
  rw [Model.owner] at hrun
  split at hrun
  · rename_i path result harrived
    cases hrun
    obtain ⟨path', e, he, hend⟩ := Walk.run_simulates h.simulates (table, column) harrived
    exact ⟨owner, path', e, howner, he, hend⟩
  · cases hrun

end DocumentOf

end Model

end StrictDdl
