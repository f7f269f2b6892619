import StrictDdl.Conversion
import StrictDdl.Proofs.Document.Load

/-! Loading a document makes it normal.

What a document says of a value of no particular type is kept as it is, so writing the loaded
document loses nothing but numbers that are not finite (`Json.finite_eq`). Without these, the
written document is read back as the very same (`Document.load_toJson_of_load`), and is rendered
as the one that was loaded (`Convert.reload`). There is no written document at all if its values of
no particular type are nested too deeply: reading does not limit these. -/
namespace StrictDdl

/-! ### Finite numbers -/

namespace Json

mutual

/-- Whether all numbers in a value are finite. -/
def AllFinite : Json → Prop
  | .float x => x.isFinite = true
  | .arr items => AllFiniteItems items
  | .obj ms => AllFiniteMembers ms
  | _ => True

def AllFiniteItems : List Json → Prop
  | [] => True
  | j :: rest => AllFinite j ∧ AllFiniteItems rest

def AllFiniteMembers : List (String × Json) → Prop
  | [] => True
  | (_, j) :: rest => AllFinite j ∧ AllFiniteMembers rest

end

mutual

theorem finite_eq (j : Json) (h : j.AllFinite) : j.finite = j := by
  cases j with
  | float x =>
    rw [AllFinite] at h
    rw [finite, if_pos h]
  | arr items => rw [finite, finiteAll_eq items h]
  | obj ms => rw [finite, finiteMembers_eq ms h]
  | _ => rfl

theorem finiteAll_eq (items : List Json) (h : AllFiniteItems items) : finiteAll items = items := by
  cases items with
  | nil => rfl
  | cons j rest => rw [finiteAll, finite_eq j h.1, finiteAll_eq rest h.2]

theorem finiteMembers_eq (ms : Members) (h : AllFiniteMembers ms) : finiteMembers ms = ms := by
  cases ms with
  | nil => rfl
  | cons m rest =>
    obtain ⟨key, j⟩ := m
    rw [finiteMembers, finite_eq j h.1, finiteMembers_eq rest h.2]

end

theorem AllFiniteMembers.find? {ms : Members} {key : String} {j : Json} (h : AllFiniteMembers ms)
    (hfind : Members.find? ms key = some j) : j.AllFinite := by
  induction ms with
  | nil => cases hfind
  | cons m ms ih =>
    obtain ⟨k, v⟩ := m
    rw [Members.find?] at hfind
    split at hfind
    · cases hfind
      exact h.1
    · exact ih h.2 hfind

end Json

/-! ### Fields -/

namespace Lenient

variable {α : Type}

/-- A field is absent, or read from a member. -/
theorem field_eq_ok {ms : Members} {keys : List String} {absent a : α} {read : Json → Lenient α}
    (hfinite : Json.AllFiniteMembers ms) (h : field ms keys absent read = .ok a) :
    a = absent ∨ ∃ j : Json, j.AllFinite ∧ read j = .ok a := by
  rw [field] at h
  split at h
  · rename_i key j hmember
    refine .inr ⟨j, ?_, under_eq_ok_iff.1 h⟩
    induction keys with
    | nil => cases hmember
    | cons k rest ih =>
      rw [member?] at hmember
      split at hmember
      · rename_i j' hfind
        cases hmember
        exact hfinite.find? hfind
      · exact ih hmember
  · cases h
    exact .inl rfl

theorem optional_eq_ok {read : Json → Lenient α} {j : Json} {a? : Option α}
    (h : optional read j = .ok a?) :
    a? = none ∨ j ≠ .null ∧ ∃ a, read j = .ok a ∧ a? = some a := by
  cases j with
  | null =>
    cases h
    exact .inl rfl
  | _ =>
    obtain ⟨a, ha, rfl⟩ := map_eq_ok_iff.1 h
    exact .inr ⟨by simp, a, ha, rfl⟩

/-- An optional field is absent, or read from a member. -/
theorem field_optional_eq_ok {ms : Members} {keys : List String} {a? : Option α}
    {read : Json → Lenient α} (hfinite : Json.AllFiniteMembers ms)
    (h : field ms keys none (optional read) = .ok a?) :
    a? = none ∨ ∃ j : Json, j.AllFinite ∧ j ≠ .null ∧ ∃ a, read j = .ok a ∧ a? = some a := by
  rcases field_eq_ok hfinite h with hnone | ⟨j, hj, hread⟩
  · exact .inl hnone
  · exact (optional_eq_ok hread).imp_right fun ⟨hne, ha⟩ => ⟨j, hj, hne, ha⟩

theorem eq_of_each_anything {position : Nat} {items values : List Json}
    (h : each Keywords.anything position items = .ok values) : values = items := by
  rw [each_anything] at h
  cases h
  rfl

/-- The values of members are read from them. -/
theorem exists_of_eachMember {read : Json → Lenient α} {ms : Members} {entries : List (String × α)}
    (hfinite : Json.AllFiniteMembers ms) (h : eachMember read ms = .ok entries)
    {entry : String × α} (he : entry ∈ entries) :
    ∃ j : Json, j.AllFinite ∧ read j = .ok entry.2 := by
  induction ms generalizing entries with
  | nil =>
    cases h
    cases he
  | cons m ms ih =>
    obtain ⟨key, j⟩ := m
    rw [eachMember] at h
    obtain ⟨g, rest, hg, hrest, rfl⟩ := and_eq_ok_iff.1 h
    obtain ⟨a, ha, rfl⟩ := map_eq_ok_iff.1 hg
    rcases List.mem_cons.1 he with rfl | he
    · exact ⟨j, hfinite.1, under_eq_ok_iff.1 ha⟩
    · exact ih hfinite.2 hrest he

/-- What is the same when it is read from a member is the same in an object of such members. -/
theorem map_eq_of_dict {read : Json → Lenient α} {written : α → α} {j : Json}
    {entries : List (String × α)} (hj : j.AllFinite) (h : dict read j = .ok entries)
    (hread : ∀ (j : Json) (a : α), j.AllFinite → read j = .ok a → written a = a) :
    (entries.map fun (name, a) => (name, written a)) = entries := by
  cases j with
  | obj ms =>
    refine (List.map_congr_left fun entry he => ?_).trans entries.map_id
    obtain ⟨j, hj, ha⟩ := exists_of_eachMember hj h he
    exact Prod.ext rfl (hread j entry.2 hj ha)
  | _ => cases h

end Lenient

/-! ### Properties, tables and documents -/

namespace Keywords

/-- Values that were read are finite. -/
theorem finiteAll_of_field {ms : Members} {keys : List String} {values? : Option (List Json)}
    (hfinite : Json.AllFiniteMembers ms)
    (h : Lenient.field ms keys none (Lenient.optional (Lenient.list "list_type" anything)) =
      .ok values?) : values?.map Json.finiteAll = values? := by
  rcases Lenient.field_optional_eq_ok hfinite h with rfl | ⟨j, hj, _, values, hvalues, rfl⟩
  · rfl
  · cases j with
    | arr items =>
      obtain rfl := Lenient.eq_of_each_anything hvalues
      rw [Option.map_some, Json.finiteAll_eq values hj]
    | _ => cases hvalues

/-- A default that was read is finite, and none if it is null. -/
theorem finite_of_field {ms : Members} {keys : List String} {default? : Option Json}
    (hfinite : Json.AllFiniteMembers ms)
    (h : Lenient.field ms keys none (Lenient.optional anything) = .ok default?) :
    (default?.bind fun j => j.finite.present?) = default? := by
  rcases Lenient.field_optional_eq_ok hfinite h with rfl | ⟨j, hj, hne, value, hvalue, rfl⟩
  · rfl
  · cases hvalue
    rw [Option.bind_some, Json.finite_eq j hj]
    cases j <;> simp_all [Json.present?]

/-- Keywords that were read are written as they are. -/
theorem written_of_ofMembers {ms : Members} {p : Keywords} (hfinite : Json.AllFiniteMembers ms)
    (h : ofMembers ms = .ok p) : p.written = p := by
  -- the keywords are read in order, so the last one is taken off first
  simp only [ofMembers, Lenient.and_eq_ok_iff, Lenient.map_eq_ok_iff] at h
  iterate 5 obtain ⟨_, _, h, _, rfl⟩ := h
  obtain ⟨_, default, h, hdefault, rfl⟩ := h
  iterate 7 obtain ⟨_, _, h, _, rfl⟩ := h
  obtain ⟨_, enum, h, henum, rfl⟩ := h
  iterate 2 obtain ⟨_, _, h, _, rfl⟩ := h
  obtain ⟨ref, _, rfl⟩ := h
  simp only [written, finiteAll_of_field hfinite henum, finite_of_field hfinite hdefault]

end Keywords

namespace Property

mutual

/-- A property that was read is written as it is. -/
theorem written_of_ofJson (level : Nat) (j : Json) {p : Property} (hfinite : j.AllFinite)
    (h : ofJson level j = .ok p) : p.written = p := by
  cases j with
  | obj ms =>
    rw [ofJson] at h
    split at h
    · cases h
    · obtain ⟨_, items, hread, hitems, rfl⟩ := Lenient.and_eq_ok_iff.1 h
      obtain ⟨keywords, hms, rfl⟩ := Lenient.map_eq_ok_iff.1 hread
      have hkeywords := Keywords.written_of_ofMembers hfinite hms
      cases items with
      | none => rw [written, hkeywords]
      | some inner => rw [written, hkeywords, written_of_itemsOf (level + 1) ms hfinite hitems]
  | _ => cases h

theorem written_of_itemsOf (level : Nat) (ms : Members) {p : Property}
    (hfinite : Json.AllFiniteMembers ms) (h : itemsOf level ms = .ok (some p)) : p.written = p := by
  cases ms with
  | nil => cases h
  | cons m ms =>
    obtain ⟨key, j⟩ := m
    unfold itemsOf at h
    split at h
    · split at h
      · cases h
      · obtain ⟨q, hq, hp⟩ := Lenient.map_eq_ok_iff.1 (Lenient.under_eq_ok_iff.1 h)
        cases hp
        exact written_of_ofJson level j hfinite.1 hq
    · exact written_of_itemsOf level ms hfinite.2 h

end

end Property

namespace TableSchema

theorem written_of_ofJson {j : Json} {t : TableSchema} (hfinite : j.AllFinite)
    (h : ofJson j = .ok t) : t.written = t := by
  cases j with
  | obj ms =>
    simp only [ofJson, Lenient.and_eq_ok_iff, Lenient.map_eq_ok_iff] at h
    obtain ⟨_, required, ⟨_, properties, ⟨_, additional, ⟨_, _, rfl⟩, _, rfl⟩, hproperties, rfl⟩,
      _, rfl⟩ := h
    rw [written]
    congr 1
    rcases Lenient.field_eq_ok hfinite hproperties with rfl | ⟨j, hj, hread⟩
    · rfl
    · exact Lenient.map_eq_of_dict hj hread fun _ _ => Property.written_of_ofJson 2 _
  | _ => cases h

end TableSchema

namespace Document

variable {source : Json} {d : Document}

/-- A document that was read is written as it is. -/
theorem written_of_load (hfinite : source.AllFinite) (h : load source = .ok d) : d.written = d := by
  rw [load] at h
  split at h
  · rename_i d' hread
    cases h
    cases source with
    | obj ms =>
      simp only [ofJson, Lenient.and_eq_ok_iff, Lenient.map_eq_ok_iff] at hread
      obtain ⟨_, _, ⟨_, _, rfl⟩, ⟨_, tables, ⟨_, defs, ⟨uri, _, rfl⟩, hdefs, rfl⟩, htables, rfl⟩,
        rfl⟩ := hread
      have hdefs : (defs.map fun defs => defs.map fun entry => (entry.1, entry.2.written)) = defs := by
        rcases Lenient.field_optional_eq_ok hfinite hdefs with rfl | ⟨j, hj, _, entries, hread, rfl⟩
        · rfl
        · exact congrArg some (Lenient.map_eq_of_dict hj hread fun _ _ => Property.written_of_ofJson 2 _)
      have htables : (tables.map fun entry => (entry.1, entry.2.written)) = tables := by
        split at htables
        · rename_i j hj
          exact Lenient.map_eq_of_dict (hfinite.find? hj) (Lenient.under_eq_ok_iff.1 htables)
            fun _ _ => TableSchema.written_of_ofJson
        · cases htables
      exact congrArg₂ (Document.mk uri) hdefs htables
    | _ => cases hread
  · cases h

/-- **A document that was read and written is read back as the very same.** -/
theorem load_toJson_of_load (hfinite : source.AllFinite) (h : load source = .ok d) {written : Json}
    (hwritten : d.write = .ok written) : load written = .ok d := by
  obtain ⟨_, _, hpure⟩ := Read.bind_eq_ok_iff.1 hwritten
  cases hpure
  rw [load_toJson hwritten, written_of_load hfinite h]

/-- A document can be written exactly if nothing in it is nested too deeply. -/
theorem exists_write_iff :
    (∃ written, d.write = .ok written) ↔ ∀ p ∈ d.allProperties, p.levels + 1 ≤ Nesting.limit := by
  have hwithin (levels : Nat) : Nesting.within levels = .ok () ↔ levels ≤ Nesting.limit := by
    rw [Nesting.within]
    split
    · simp_all
    · simp_all
  rw [write, Read.ending.exists_map_iff]
  constructor
  · rintro ⟨_, hall⟩ p hp
    exact (hwithin _).1 (Read.forM_eq_ok_iff.1 hall p hp)
  · intro hall
    exact ⟨(), Read.forM_eq_ok_iff.2 fun p hp => (hwithin _).2 (hall p hp)⟩

end Document

namespace Convert

variable {source : Json} {d : Document}

/-- **Loading is a normalisation that rendering does not notice.** A document without numbers that
are not finite can be written after it was loaded unless a property is nested too deeply, and then
loading what was written changes nothing, and renders as the document itself. -/
theorem reload (hfinite : source.AllFinite) (h : Document.load source = .ok d) :
    ((∃ written, d.write = .ok written) ↔
      ∀ p ∈ d.allProperties, p.levels + 1 ≤ Nesting.limit) ∧
    ∀ written, d.write = .ok written →
      (Document.load written >>= Document.write) = .ok written ∧
        ∀ settings, render settings written = render settings source := by
  refine ⟨Document.exists_write_iff, fun written hwritten => ?_⟩
  have hload := Document.load_toJson_of_load hfinite h hwritten
  refine ⟨?_, fun settings => ?_⟩
  · rw [hload]
    exact hwritten
  · rw [render, render, hload, h]

namespace Sample

/-- A document of one table with one column. -/
def documentOf (column : Members) : Json :=
  .obj [("type", .str "object"), ("properties", .obj [("t", .obj [("type", .str "object"),
    ("properties", .obj [("c", .obj column)])])])]

/-- Arrays in one another. -/
def nested : Nat → Json
  | 0 => .int 1
  | n + 1 => .arr [nested n]

theorem nested_allFinite (n : Nat) : (nested n).AllFinite := by
  induction n with
  | zero => trivial
  | succ n ih => exact ⟨ih, trivial⟩

end Sample

/-- A bound that is a text and a flag that is a word. -/
def Sample.lenient : Json := documentOf [("minimum", .str "5"), ("$primaryKey", .str "yes")]

/-- A default that is an array with many levels. -/
def Sample.deep : Json := documentOf [("default", nested 300)]

/-- What is read by conversion is written as what it was taken for, and read back. -/
theorem reload_lenient :
    ∃ d written, Document.load Sample.lenient = .ok d ∧ d.write = .ok written ∧
      (Document.load written >>= Document.write) = .ok written ∧
      ∀ settings, render settings written = render settings Sample.lenient := by
  have hfinite : Sample.lenient.AllFinite := by
    simp [Sample.lenient, Sample.documentOf, Json.AllFinite, Json.AllFiniteMembers]
  have hok : (Document.load Sample.lenient >>= Document.write).isOk = true := by decide +kernel
  obtain ⟨written, hboth⟩ := Read.exists_of_isOk hok
  obtain ⟨d, hd, hwritten⟩ := Read.bind_eq_ok_iff.1 hboth
  exact ⟨d, written, hd, hwritten, (reload hfinite hd).2 written hwritten⟩

/-- A default that is nested deeply is loaded and rendered, but cannot be written. -/
theorem deep_unwritten :
    Sample.deep.AllFinite ∧ (render {} Sample.deep).outcome.isOk = true ∧
      ∃ d, Document.load Sample.deep = .ok d ∧ ∀ written, d.write ≠ .ok written := by
  have hfinite : Sample.deep.AllFinite := by
    simp [Sample.deep, Sample.documentOf, Json.AllFinite, Json.AllFiniteMembers,
      Sample.nested_allFinite]
  have hload : (Document.load Sample.deep).isOk = true := by decide +kernel
  have hfails : (Document.load Sample.deep >>= Document.write).isOk = false := by decide +kernel
  obtain ⟨d, hd⟩ := Read.exists_of_isOk hload
  refine ⟨hfinite, by decide +kernel, d, hd, fun written hwritten => ?_⟩
  rw [hd, show (Except.ok d >>= Document.write) = _ from hwritten] at hfails
  cases hfails

end Convert

end StrictDdl
