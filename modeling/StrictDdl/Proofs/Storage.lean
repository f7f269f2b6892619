import StrictDdl.Proofs.RoundTrip
import StrictDdl.Proofs.Ddl.OfModel

/-! How a column is stored, straight from its type and by way of a schema document.

Both ways lead to the same storage, with one exception: binary data are stored as they are by
the first and as text by the second, since a schema document describes them as text in a format
of its own (`Convert.storage_agrees_iff`). -/
namespace StrictDdl

/-! ### Columns of a script -/

/-- Among items that belong to others by their names, the first with a name belongs to the one
item that has it. -/
theorem find?_of_names {α β : Type} {name : α → String} {name' : β → String} {R : α → β → Prop}
    {as : List α} {bs : List β} (hnodup : (as.map name).Nodup)
    (hbs : ∀ b ∈ bs, ∃ a ∈ as, name' b = name a ∧ R a b) {a : α} (ha : a ∈ as)
    (hsome : ∃ b ∈ bs, name' b = name a) :
    ∃ b, bs.find? (fun b => name' b = name a) = some b ∧ R a b := by
  obtain ⟨b, hb, hname⟩ := hsome
  have hisSome : (bs.find? fun b => name' b = name a).isSome :=
    List.find?_isSome.2 ⟨b, hb, decide_eq_true hname⟩
  obtain ⟨found, hfound⟩ := Option.isSome_iff_exists.1 hisSome
  obtain ⟨a', ha', hname', hR⟩ := hbs found (List.mem_of_find?_eq_some hfound)
  have hfoundName : name' found = name a := by simpa using List.find?_some hfound
  have heq : a' = a := List.inj_on_of_nodup_map hnodup ha' ha (hname'.symm.trans hfoundName)
  exact ⟨found, hfound, heq ▸ hR⟩

namespace Ddl.Script

/-- The tables that a script creates. -/
def creates (s : Script) : List CreateTable := s.blocks.filterMap Block.table

/-- The definition of a column. -/
def column? (s : Script) (table column : String) : Option ColumnDef :=
  (s.creates.find? fun t => t.name = table).bind fun t => t.columns.find? fun c => c.name = column

/-- How a column is stored. -/
def type? (s : Script) (table column : String) : Option String :=
  (s.column? table column).map ColumnDef.type

/-- The tables of a script are those of a model that have columns, and each column is defined
for one of the model. -/
structure Covers (R : Table → Column → ColumnDef → Prop) (m : Model) (s : Script) : Prop where
  created : ∀ create ∈ s.creates, ∃ t ∈ m.tables, create.name = t.name ∧
    List.Forall₂ (R t) t.columns create.columns
  complete : ∀ t ∈ m.tables, t.columns ≠ [] → ∃ create ∈ s.creates, create.name = t.name

/-- A column of a model is found in a script that covers the model. -/
theorem Covers.column?_eq {R : Table → Column → ColumnDef → Prop} {m : Model} {s : Script}
    {settings : Settings} (h : s.Covers R m) (hsound : m.Sound settings)
    (hR : ∀ t c d, R t c d → d.name = c.name) {t : Table} (ht : t ∈ m.tables) {c : Column}
    (hc : c ∈ t.columns) : ∃ d, s.column? t.name c.name = some d ∧ R t c d := by
  obtain ⟨create, hcreate, hcolumns⟩ := find?_of_names hsound.names h.created ht
    (h.complete t ht (List.ne_nil_of_mem hc))
  have hdefined : ∀ d ∈ create.columns, ∃ c ∈ t.columns, d.name = c.name ∧ R t c d := by
    intro d hd
    obtain ⟨c', hc', hcd⟩ := exists_of_forall₂ hcolumns.flip hd
    exact ⟨c', hc', hR t c' d hcd, hcd⟩
  have hsome : ∃ d ∈ create.columns, d.name = c.name := by
    obtain ⟨d, hd, hcd⟩ := exists_of_forall₂ hcolumns hc
    exact ⟨d, hd, hR t c d hcd⟩
  obtain ⟨d, hd, hcd⟩ := find?_of_names (hsound.tables t ht).names hdefined hc hsome
  exact ⟨d, by rw [column?, hcreate, Option.bind_some, hd], hcd⟩

end Ddl.Script

namespace Model

variable {settings settings' : Settings} {m : Model} {script : Ddl.Script}

theorem ScriptOf.covers (h : m.ScriptOf settings script) :
    script.Covers (fun t c d => (c.definition settings m.enums t.name).outcome = .ok d) m := by
  constructor
  · intro create hcreate
    obtain ⟨b, hb, hcreate⟩ := List.mem_filterMap.1 hcreate
    obtain ⟨t, ht, hname, hcolumns, _⟩ := h.exists_table hb hcreate
    exact ⟨t, ht, hname, hcolumns⟩
  · intro t ht hne
    obtain ⟨b, hb, create, hcreate, hname, _⟩ := h.exists_create ht hne
    exact ⟨create, List.mem_filterMap.2 ⟨b, hb, hcreate⟩, hname⟩

/-- A script that is regenerated without markers covers the model. -/
theorem DocumentOf.covers {d : Document} (h : m.DocumentOf settings d) (hsound : m.Sound settings)
    (hscript : (d.written.script settings').Lossless script) :
    script.Covers (Column.Regenerated m script) m := by
  have hblocks := (Document.script_lossless hscript).1
  rw [Document.written, List.forall₂_map_left_iff] at hblocks
  have hregenerated : List.Forall₂ (Table.Regenerated m script) m.tables script.blocks := by
    refine forall₂_comp h.tables hblocks ?_
    rintro t ht ⟨name, s⟩ hs block ⟨rfl, hof⟩ hblock
    exact h.table_regenerated hsound hscript ht hs hof hblock
  constructor
  · intro create hcreate
    obtain ⟨b, hb, hcreate⟩ := List.mem_filterMap.1 hcreate
    obtain ⟨t, ht, columns, rfl, hcolumns⟩ := exists_of_forall₂ hregenerated.flip hb
    cases hcreate
    exact ⟨t, ht, rfl, hcolumns⟩
  · intro t ht _
    obtain ⟨b, hb, columns, rfl, _⟩ := exists_of_forall₂ hregenerated ht
    exact ⟨_, List.mem_filterMap.2 ⟨_, hb, rfl⟩, rfl⟩

end Model

/-! ### Types -/

namespace TypeSpec

/-- Whether a document describes a type so that it is stored in the same way again. -/
def isKept (spec : TypeSpec) : Bool :=
  (spec.jsonType.bind fun name => storageOf.lookup name).getD unknown.storage = spec.storage

theorem isKept_iff {spec : TypeSpec} : spec.isKept = true ↔
    (spec.jsonType.bind fun name => storageOf.lookup name).getD unknown.storage = spec.storage :=
  decide_eq_true_iff

/-- Of all types, only binary data are not stored in the same way again. -/
theorem find_isKept (name : String) :
    (find name).isKept = decide ((find name).family ≠ .binary) := by
  have htable : ∀ entry ∈ table, entry.2.isKept = decide (entry.2.family ≠ .binary) := by decide
  rw [find, find?]
  cases hlookup : table.lookup name with
  | none => rfl
  | some spec =>
    obtain ⟨before, after, hsplit, _⟩ := List.lookup_eq_some_iff.1 hlookup
    exact htable (name, spec) (by simp [hsplit])

end TypeSpec

/-- Every type is stored by one of the ways there are. -/
theorem Target.ofName_eq (name : String) (modifiers : Modifiers) (enums : EnumRegistry)
    (qualifier : Json) : ∃ spec sourceName enumName labels,
      ofName name modifiers enums qualifier = ofSpec spec sourceName modifiers enumName labels ∧
      spec.isKept = decide (spec.family ≠ .binary) := by
  rw [ofName]
  split
  · exact ⟨_, _, _, _, rfl, rfl⟩
  · exact ⟨_, _, _, _, rfl, TypeSpec.find_isKept _⟩

namespace Column

theorem target_eq_ofSpec (c : Column) (enums : EnumRegistry) : ∃ spec sourceName enumName labels,
    c.target enums = .ofSpec spec sourceName c.modifiers enumName labels ∧
      spec.isKept = decide (spec.family ≠ .binary) := by
  rw [target]
  split
  · exact Target.ofName_eq ..
  · exact Target.ofName_eq ..

/-- A column that refers to nothing is stored in the same way by both, unless it holds binary
data and is no array. -/
theorem storage_eq_regeneratedType_iff (c : Column) (enums : EnumRegistry) :
    (c.target enums).storage = c.regeneratedType enums ↔
      ¬ ((c.target enums).family = .binary ∧ c.isArray = false) := by
  obtain ⟨spec, sourceName, enumName, labels, htarget, hkept⟩ := c.target_eq_ofSpec enums
  rw [regeneratedType, htarget]
  by_cases harray : c.modifiers.arrayDepth > 0
  · have hisArray : c.isArray = true := decide_eq_true harray
    simp [Target.ofSpec, harray, hisArray]
  · have hisArray : c.isArray = false := decide_eq_false harray
    have hfamily : (Target.ofSpec spec sourceName c.modifiers enumName labels).family =
        spec.family := rfl
    have hstorage : (Target.ofSpec spec sourceName c.modifiers enumName labels).storage =
        spec.storage := if_neg harray
    rw [hfamily, hstorage, hisArray, if_neg Bool.false_ne_true, eq_comm, and_iff_left rfl]
    have hiff : spec.isKept = true ↔ ¬ spec.family = .binary := by
      rw [hkept, decide_eq_true_iff]
    exact TypeSpec.isKept_iff.symm.trans hiff

end Column

namespace Convert

variable {settings settings' : Settings} {tree : Json} {direct regenerated : Converted Ddl.Script}
  {document : Converted Document}

/-- A script that was written is that of the model of the tree. -/
theorem toDdl_spec (h : (toDdl settings tree).outcome = .ok direct) :
    ∃ m, (Model.build settings tree).outcome = .ok m ∧
      (m.script settings).outcome = .ok direct.output := by
  obtain ⟨m, _, hm, hscript, _⟩ := toDdl_sets h
  exact ⟨m, hm, hscript.1⟩

/-- **Straight and by way of a document, a column that refers to nothing is stored in the same
way exactly if it does not hold binary data on its own.** -/
theorem storage_agrees_iff (hdirect : (toDdl settings tree).outcome = .ok direct)
    (hdocument : (toDocument settings tree).outcome = .ok document)
    (hregenerated : (render settings' document.output.toJson).outcome = .ok regenerated)
    (hmarkers : regenerated.markers = []) :
    ∃ m, (Model.build settings tree).outcome = .ok m ∧
      ∀ t ∈ m.tables, ∀ c ∈ t.columns, c.foreignKey = none → ∃ type type',
        direct.output.type? t.name c.name = some type ∧
        regenerated.output.type? t.name c.name = some type' ∧
        (type = type' ↔ ¬ (c.family = .binary ∧ c.isArray = false)) := by
  obtain ⟨m, hm, hscript⟩ := toDdl_spec hdirect
  obtain ⟨m', hm', hof⟩ := toDocument_spec hdocument
  rw [hm] at hm'
  cases hm'
  have hsound := Model.build_sound hm
  obtain ⟨_, _, _, haccounts⟩ := Model.build_accounts hm
  have hcovers := (haccounts.scriptOf hscript).covers
  obtain ⟨j, hwrite⟩ := hof.writable
  obtain ⟨d, hload, hscript', hjournal⟩ := render_eq_ok_iff.1 hregenerated
  rw [Document.load_toJson hwrite] at hload
  cases hload
  have hcovers' := hof.covers hsound ⟨hscript', hjournal.trans hmarkers⟩
  refine ⟨m, hm, fun t ht c hc hkey => ?_⟩
  obtain ⟨column, hcolumn, hdefined⟩ :=
    hcovers.column?_eq hsound (fun _ _ _ h => (Column.definition_eq_ok h).1) ht hc
  obtain ⟨column', hcolumn', hdefined'⟩ :=
    hcovers'.column?_eq hsound (fun _ _ _ h => h.name) ht hc
  refine ⟨column.type, column'.type, ?_, ?_, ?_⟩
  · rw [Ddl.Script.type?, hcolumn, Option.map_some]
  · rw [Ddl.Script.type?, hcolumn', Option.map_some]
  · obtain ⟨owner, howner, htype'⟩ := hdefined'.type
    rw [hsound.owner_eq_self ht hc hkey] at howner
    cases howner
    rw [(Column.definition_eq_ok hdefined).2.1, htype',
      ← ((hsound.tables t ht).columns c hc).family]
    exact c.storage_eq_regeneratedType_iff m.enums

end Convert

/-- A table of files, with their contents. -/
def Sample.files : Json := table "file" [column "name" "text" [], column "content" "bytea" []]

/-- The contents of a file are stored as text by way of a document, and no marker tells. -/
theorem Convert.files_stored : ∃ direct document regenerated,
    (toDdl {} Sample.files).outcome = .ok direct ∧ direct.markers = [] ∧
    (toDocument {} Sample.files).outcome = .ok document ∧ document.markers = [] ∧
    (render {} document.output.toJson).outcome = .ok regenerated ∧ regenerated.markers = [] ∧
    direct.output.type? "file" "content" = some "BLOB" ∧
    regenerated.output.type? "file" "content" = some "TEXT" ∧
    ∃ m, (Model.build {} Sample.files).outcome = .ok m ∧
      ∀ t ∈ m.tables, ∀ c ∈ t.columns, c.foreignKey = none → ∃ type type',
        direct.output.type? t.name c.name = some type ∧
        regenerated.output.type? t.name c.name = some type' ∧
        (type = type' ↔ ¬ (c.family = .binary ∧ c.isArray = false)) := by
  have hview : (do
      let direct ← (toDdl {} Sample.files).outcome
      let document ← (toDocument {} Sample.files).outcome
      let regenerated ← (render {} document.output.toJson).outcome
      return (direct.markers, document.markers, regenerated.markers,
        direct.output.type? "file" "content", regenerated.output.type? "file" "content") :
          Read _).toOption = some ([], [], [], some "BLOB", some "TEXT") := by decide +kernel
  have h := Read.eq_ok_of_toOption hview
  obtain ⟨direct, hdirect, h⟩ := Read.bind_eq_ok_iff.1 h
  obtain ⟨document, hdocument, h⟩ := Read.bind_eq_ok_iff.1 h
  obtain ⟨regenerated, hregenerated, h⟩ := Read.bind_eq_ok_iff.1 h
  have h := Except.ok.inj h
  simp only [Prod.mk.injEq] at h
  obtain ⟨hlossless, hlossless', hmarkers, htype, htype'⟩ := h
  exact ⟨direct, document, regenerated, hdirect, hlossless, hdocument, hlossless', hregenerated,
    hmarkers, htype, htype', storage_agrees_iff hdirect hdocument hregenerated hmarkers⟩

end StrictDdl
