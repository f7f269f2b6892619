import StrictDdl.Document.Load
import StrictDdl.Proofs.Outcome

/-! A document that was written is read back.

Only values of no particular type change on the way: numbers that are not finite become
`null`, and a default that is `null` counts as none (`Document.written`). -/
namespace StrictDdl

/-! ### Members -/

namespace Members

theorem find?_append (ms ns : Members) (key : String) :
    find? (ms ++ ns) key = (ms.find? key).or (ns.find? key) := by
  induction ms with
  | nil => rfl
  | cons m ms ih =>
    obtain ⟨k, v⟩ := m
    rw [List.cons_append, find?, find?]
    split
    · rfl
    · exact ih

theorem find?_given (k : String) (value : Option Json) (key : String) :
    find? (given k value) key = if k = key then value else none := by
  cases value with
  | none => simp [given, find?]
  | some j => simp [given, find?]

end Members

/-! ### Fields -/

namespace Lenient

variable {α β : Type}

theorem each_map (read : Json → Lenient α) (write : β → Json) (value : β → α)
    (h : ∀ b, read (write b) = .ok (value b)) (position : Nat) (bs : List β) :
    each read position (bs.map write) = .ok (bs.map value) := by
  induction bs generalizing position with
  | nil => rfl
  | cons b bs ih => simp only [List.map_cons, each, h, ih, under, map, and]

theorem each_anything (position : Nat) (js : List Json) :
    each Keywords.anything position js = .ok js := by
  have := each_map Keywords.anything id id (fun _ => rfl) position js
  simpa using this

theorem each_text (position : Nat) (texts : List String) :
    each text position (texts.map .str) = .ok texts := by
  have := each_map text Json.str id (fun _ => rfl) position texts
  simpa using this

theorem field_of_some {ms : Members} {key : String} {rest : List String} {absent : α}
    {read : Json → Lenient α} (j : Json) (h : ms.find? key = some j) :
    field ms (key :: rest) absent read = (read j).under key := by
  simp only [field, member?, h]

/-- A field that was written under its first name, or not at all. -/
theorem field_of_find? {ms : Members} {key : String} {rest : List String} (value : Option β)
    {write : β → Json} {read : Json → Lenient α} {written : β → Option α}
    (hread : ∀ b, value = some b → optional read (write b) = .ok (written b))
    (hkey : ms.find? key = value.map write) (hrest : ∀ k ∈ rest, ms.find? k = none) :
    field ms (key :: rest) none (optional read) = .ok (value.bind written) := by
  cases value with
  | some b =>
    rw [Option.map_some] at hkey
    simp only [field, member?, hkey, hread b rfl, under, Option.bind_some]
  | none =>
    have hnone : member? ms rest = none := by
      clear hkey
      induction rest with
      | nil => rfl
      | cons k rest ih =>
        rw [member?, hrest k (List.mem_cons_self ..)]
        exact ih fun l hl => hrest l (List.mem_cons_of_mem k hl)
    rw [Option.map_none] at hkey
    simp only [field, member?, hkey, hnone, Option.bind_none]

/-- A field that is read back as it was written. -/
theorem field_same {ms : Members} {key : String} {rest : List String} (value : Option α)
    {write : α → Json} {read : Json → Lenient α}
    (hread : ∀ a, optional read (write a) = .ok (some a))
    (hkey : ms.find? key = value.map write) (hrest : ∀ k ∈ rest, ms.find? k = none) :
    field ms (key :: rest) none (optional read) = .ok value := by
  rw [field_of_find? value (fun a _ => hread a) hkey hrest, Option.bind_fun_some]

end Lenient

/-! ### Properties -/

namespace Json

/-- A value unless it is `null`. -/
def present? : Json → Option Json
  | .null => none
  | j => some j

theorem optional_anything (j : Json) : Lenient.optional Keywords.anything j = .ok j.present? := by
  cases j <;> rfl

end Json

namespace TypeKeyword

theorem ofJson_toJson (t : TypeKeyword) : ofJson t.toJson = .ok t := by
  cases t with
  | one name => rfl
  | several names =>
    simp only [toJson, ofJson, Lenient.list, Lenient.each_text, Lenient.under, Lenient.map,
      Lenient.or]

end TypeKeyword

namespace Keywords

/-- The keywords as they are read back. -/
def written (p : Keywords) : Keywords :=
  { p with
    enum := p.enum.map Json.finiteAll
    default := p.default.bind fun j => j.finite.present? }

theorem ofMembers_toMembers (p : Keywords) (items : Option Json) :
    ofMembers (p.toMembers ++ Members.given "items" items) = .ok p.written := by
  generalize hms : p.toMembers ++ Members.given "items" items = ms
  have hfind (key : String) := congrArg (Members.find? · key) hms
  simp only [toMembers, Members.find?_append, Members.find?_given] at hfind
  have htext : ∀ s, Lenient.optional Lenient.text (.str s) = .ok (some s) := fun _ => rfl
  have hwhole : ∀ n, Lenient.optional Lenient.int (.int n) = .ok (some n) := fun _ => rfl
  have hfloat : ∀ x, Lenient.optional Lenient.float (.float x) = .ok (some x) := fun _ => rfl
  have hbool : ∀ b, Lenient.optional Lenient.bool (.bool b) = .ok (some b) := fun _ => rfl
  have hnumber : ∀ n : Number, Lenient.optional Lenient.number n.toJson = .ok (some n) :=
    fun n => by cases n <;> rfl
  have hindex : ∀ f : IndexFlag, Lenient.optional IndexFlag.ofJson f.toJson = .ok (some f) :=
    fun f => by cases f <;> rfl
  have htype : ∀ t : TypeKeyword, Lenient.optional TypeKeyword.ofJson t.toJson = .ok (some t) := by
    intro t
    have : Lenient.optional TypeKeyword.ofJson t.toJson = (TypeKeyword.ofJson t.toJson).map some := by
      cases t <;> rfl
    rw [this, TypeKeyword.ofJson_toJson]
    rfl
  have henum : ∀ values, Lenient.optional (Lenient.list "list_type" anything)
      (Json.arr values).finite = .ok (some (Json.finiteAll values)) := by
    intro values
    show (Lenient.each anything 0 (Json.finiteAll values)).map some = _
    rw [Lenient.each_anything]
    rfl
  simp only [ofMembers]
  rw [Lenient.field_same p.ref htext (by simp [← hfind]) (by simp [← hfind]),
    Lenient.field_same p.type htype (by simp [← hfind]) (by simp),
    Lenient.field_same p.format htext (by simp [← hfind]) (by simp),
    Lenient.field_of_find? p.enum (fun b _ => henum b) (by simp [← hfind]) (by simp),
    Lenient.field_same p.minimum hnumber (by simp [← hfind]) (by simp),
    Lenient.field_same p.maximum hnumber (by simp [← hfind]) (by simp),
    Lenient.field_same p.exclusiveMinimum hnumber (by simp [← hfind]) (by simp [← hfind]),
    Lenient.field_same p.exclusiveMaximum hnumber (by simp [← hfind]) (by simp [← hfind]),
    Lenient.field_same p.pattern htext (by simp [← hfind]) (by simp),
    Lenient.field_same p.maxLength hwhole (by simp [← hfind]) (by simp [← hfind]),
    Lenient.field_same p.multipleOf hfloat (by simp [← hfind]) (by simp [← hfind]),
    Lenient.field_of_find? p.default (fun j _ => j.finite.optional_anything) (by simp [← hfind])
      (by simp),
    Lenient.field_same p.computedDefault htext (by simp [← hfind]) (by simp [← hfind]),
    Lenient.field_same p.primaryKey hbool (by simp [← hfind]) (by simp [← hfind]),
    Lenient.field_same p.index hindex (by simp [← hfind]) (by simp [← hfind]),
    Lenient.field_same p.onDelete htext (by simp [← hfind]) (by simp [← hfind]),
    Lenient.field_same p.onUpdate htext (by simp [← hfind]) (by simp [← hfind])]
  rw [written, Option.map_eq_bind]
  rfl

end Keywords

namespace Property

/-- The property as it is read back. -/
def written : Property → Property
  | ⟨keywords, none⟩ => ⟨keywords.written, none⟩
  | ⟨keywords, some items⟩ => ⟨keywords.written, some items.written⟩

theorem itemsOf_eq (level : Nat) (ms : Members) :
    itemsOf level ms = match ms.find? "items" with
      | none => .ok none
      | some .null => .ok none
      | some j => ((ofJson level j).map some).under "items" := by
  induction ms with
  | nil => simp only [itemsOf, Members.find?]
  | cons m ms ih =>
    obtain ⟨key, j⟩ := m
    by_cases hkey : key = "items"
    · subst hkey
      cases j <;> simp only [itemsOf, Members.find?, if_true]
    · cases j <;> simp only [itemsOf, Members.find?, if_neg hkey, ih]

theorem find?_items (p : Keywords) (items : Option Json) :
    Members.find? (p.toMembers ++ Members.given "items" items) "items" = items := by
  simp [Keywords.toMembers, Members.find?_append, Members.find?_given]

theorem toJson_eq (keywords : Keywords) (items : Option Property) :
    (Property.mk keywords items).toJson =
      .obj (keywords.toMembers ++ Members.given "items" (items.map toJson)) := by
  cases items with
  | none => rw [toJson, Option.map_none, Members.given, List.append_nil]
  | some items => rw [toJson, Option.map_some, Members.given]

/-- A property that is not nested too deeply is read back. -/
theorem ofJson_toJson (level : Nat) (p : Property) (h : level + p.depth ≤ Nesting.limit + 1) :
    ofJson level p.toJson = .ok p.written := by
  match p with
  | ⟨keywords, none⟩ =>
    rw [depth] at h
    have hlevel : ¬ level > Nesting.limit := by omega
    rw [toJson_eq, ofJson, if_neg hlevel, Keywords.ofMembers_toMembers, itemsOf_eq, find?_items,
      written]
    rfl
  | ⟨keywords, some items⟩ =>
    rw [depth] at h
    have hlevel : ¬ level > Nesting.limit := by omega
    have hinner := ofJson_toJson (level + 1) items (by omega)
    have hobject : ∀ j, items.toJson = j → j ≠ .null := by
      obtain ⟨inner, more⟩ := items
      rintro j hj rfl
      rw [toJson_eq] at hj
      cases hj
    rw [toJson_eq, ofJson, if_neg hlevel, Keywords.ofMembers_toMembers, itemsOf_eq, find?_items,
      Option.map_some, written]
    generalize items.toJson = j at hinner hobject
    cases j with
    | null => exact absurd rfl (hobject _ rfl)
    | _ =>
      simp only [hinner]
      rfl

theorem depth_le_levels (p : Property) : p.depth ≤ p.levels := by
  match p with
  | ⟨keywords, none⟩ =>
    rw [depth, levels]
    omega
  | ⟨keywords, some items⟩ =>
    have := depth_le_levels items
    rw [depth, levels]
    omega

end Property

/-! ### Documents -/

namespace Lenient

/-- The members of an object that are all read back. -/
theorem eachMember_map {α β : Type} (read : Json → Lenient α) (write : β → Json) (value : β → α)
    {entries : List (String × β)}
    (h : ∀ entry ∈ entries, read (write entry.2) = .ok (value entry.2)) :
    eachMember read (entries.map fun (name, b) => (name, write b)) =
      .ok (entries.map fun (name, b) => (name, value b)) := by
  induction entries with
  | nil => rfl
  | cons entry entries ih =>
    obtain ⟨name, b⟩ := entry
    have hb := h (name, b) (List.mem_cons_self ..)
    have hrest := ih fun e he => h e (List.mem_cons_of_mem _ he)
    simp only at hb
    simp only [List.map_cons, eachMember, hb, hrest, under, map, and]

end Lenient

namespace TableSchema

/-- The object of a table as it is read back. -/
def written (t : TableSchema) : TableSchema :=
  { t with properties := t.properties.map fun (name, p) => (name, p.written) }

theorem ofJson_toJson {t : TableSchema}
    (h : ∀ entry ∈ t.properties, 2 + entry.2.depth ≤ Nesting.limit + 1) :
    ofJson t.toJson = .ok t.written := by
  have hproperties := Lenient.eachMember_map Property.ofMember Property.toJson Property.written
    fun entry he => Property.ofJson_toJson 2 entry.2 (h entry he)
  have htype : Lenient.exactly "object" (.str "object") = .ok () := rfl
  have hadditional : Lenient.bool (.bool t.additionalProperties) = .ok t.additionalProperties := rfl
  have hrequired := Lenient.each_text 0 t.required
  simp only [toJson, ofJson]
  rw [Lenient.field_of_some (.str "object") (by simp [Members.find?]),
    Lenient.field_of_some (.bool t.additionalProperties) (by simp [Members.find?]),
    Lenient.field_of_some (.obj _) (by simp [Members.find?]; rfl),
    Lenient.field_of_some (.arr (t.required.map .str)) (by simp [Members.find?]),
    htype, hadditional, Lenient.dict, hproperties, Lenient.list, hrequired]
  rfl

end TableSchema

namespace Document

/-- The document as it is read back. -/
def written (d : Document) : Document where
  schemaUri := d.schemaUri
  defs := d.defs.map fun defs => defs.map fun (name, p) => (name, p.written)
  properties := d.properties.map fun (name, t) => (name, t.written)

theorem depth_of_write {d : Document} {j : Json} (h : d.write = .ok j) {p : Property}
    (hp : p ∈ d.allProperties) : 2 + p.depth ≤ Nesting.limit + 1 := by
  obtain ⟨_, hall, _⟩ := Read.bind_eq_ok_iff.1 h
  have hwithin := Read.forM_eq_ok_iff.1 hall p hp
  have := p.depth_le_levels
  rw [Nesting.within] at hwithin
  split at hwithin
  · omega
  · cases hwithin

theorem tableSchema_of_write {d : Document} {j : Json} (h : d.write = .ok j)
    {entry : String × TableSchema} (he : entry ∈ d.properties) :
    TableSchema.ofJson entry.2.toJson = .ok entry.2.written := by
  refine TableSchema.ofJson_toJson fun column hcolumn => depth_of_write h ?_
  refine List.mem_append_right _ (List.mem_flatMap.2 ⟨entry, he, ?_⟩)
  exact List.mem_map.2 ⟨column, hcolumn, rfl⟩

theorem definition_of_write {d : Document} {j : Json} (h : d.write = .ok j)
    {defs : List (String × Property)} (hdefs : d.defs = some defs) {entry : String × Property}
    (he : entry ∈ defs) : Property.ofMember entry.2.toJson = .ok entry.2.written := by
  refine Property.ofJson_toJson 2 entry.2 (depth_of_write h (List.mem_append_left _ ?_))
  rw [hdefs]
  exact List.mem_map.2 ⟨entry, he, rfl⟩

/-- **Every document that can be written is read back.** -/
theorem load_toJson {d : Document} {j : Json} (h : d.write = .ok j) :
    load d.toJson = .ok d.written := by
  have htables := Lenient.eachMember_map TableSchema.ofJson TableSchema.toJson TableSchema.written
    fun entry he => tableSchema_of_write h he
  have hdefs : ∀ defs, d.defs = some defs → Lenient.optional (Lenient.dict Property.ofMember)
      (.obj (defs.map fun (name, p) => (name, p.toJson))) =
        .ok (some (defs.map fun (name, p) => (name, p.written))) := by
    intro defs hdefs
    have := Lenient.eachMember_map Property.ofMember Property.toJson Property.written
      fun entry he => definition_of_write h hdefs he
    show (Lenient.eachMember _ _).map some = _
    rw [this]
    rfl
  have htext : ∀ s, Lenient.optional Lenient.text (.str s) = .ok (some s) := fun _ => rfl
  generalize htables' : Json.obj (d.properties.map fun (name, t) => (name, t.toJson)) = tables
  generalize hms : Members.given "$schema" (d.schemaUri.map .str) ++ [("type", .str "object")] ++
    Members.given "$defs" (d.defs.map fun defs => .obj (defs.map fun (name, p) => (name, p.toJson))) ++
    [("properties", tables)] = ms
  have hfind (key : String) := congrArg (Members.find? · key) hms
  simp only [Members.find?_append, Members.find?_given, Members.find?] at hfind
  have hproperties : ms.find? "properties" = some tables := by simp [← hfind]
  rw [load, toJson, htables', hms]
  simp only [ofJson]
  rw [Lenient.field_same d.schemaUri htext (by simp [← hfind]) (by simp [← hfind]),
    Lenient.field_of_find? d.defs hdefs (by simp [← hfind]) (by simp [← hfind]),
    Lenient.field_of_some (.str "object") (by simp [← hfind]), hproperties]
  simp only [← htables', Lenient.dict, htables]
  rw [written, Option.map_eq_bind]
  rfl

end Document

end StrictDdl
