import StrictDdl.Proofs.Document.Chain
import StrictDdl.Proofs.Walk.Path

/-! Where the references of a document lead.

From every property the references lead to a property or definition without one, to one that is
not there, to a path of no known form, or back to where they have been, and to only one of them
(`Document.existsUnique_resolves`). How a column is stored depends on nothing else
(`Document.storage_resolved`). -/
namespace StrictDdl.Document

open Walk

/-- The reference of the property or definition at the one key points at the other. -/
def RefersTo (d : Document) (k l : RefKey) : Prop :=
  ∃ p path, d.find? k = some p ∧ p.path? = some path ∧ RefKey.ofPath? path = some l

/-- What is found at a key from which no reference leads on. -/
inductive EndsAt (d : Document) (k : RefKey) : ChainEnd → Prop where
  | property {p : Property} : d.find? k = some p → p.path? = none → EndsAt d k (.property p)
  | missing : d.find? k = none → EndsAt d k .missing
  | unrecognised {p : Property} {path : String} : d.find? k = some p → p.path? = some path →
    RefKey.ofPath? path = none → EndsAt d k .unrecognised

/-- The way that the references from a key take, and what is found at its end: the way stops
there, or it comes back. -/
def Resolves (d : Document) (k : RefKey) : Arrival RefKey ChainEnd → Prop
  | .arrived path e => ∃ last, Reaches d.RefersTo k path last ∧ d.EndsAt last e
  | .cycle path => Returns d.RefersTo k path

variable {d : Document} {k : RefKey} {arrival : Arrival RefKey ChainEnd}

/-! ### One step -/

theorem refStep_eq_go_iff {next : RefKey} : d.refStep k = .go next ↔ d.RefersTo k next := by
  constructor
  · intro h
    unfold refStep at h
    split at h
    · cases h
    · rename_i p hp
      split at h
      · cases h
      · rename_i path hpath
        split at h
        · rename_i l hl
          cases h
          exact ⟨p, path, hp, hpath, hl⟩
        · cases h
  · rintro ⟨p, path, hp, hpath, hnext⟩
    exact refStep_of_path hp hpath hnext

theorem refStep_eq_stop_iff {e : ChainEnd} : d.refStep k = .stop e ↔ d.EndsAt k e := by
  constructor
  · intro h
    unfold refStep at h
    split at h
    · rename_i hnone
      cases h
      exact .missing hnone
    · rename_i p hp
      split at h
      · rename_i hpath
        cases h
        exact .property hp hpath
      · rename_i path hpath
        split at h
        · cases h
        · rename_i hnone
          cases h
          exact .unrecognised hp hpath hnone
  · rintro (⟨hp, hpath⟩ | hnone | ⟨hp, hpath, hnone⟩)
    · exact refStep_of_no_path hp hpath
    · exact refStep_of_none hnone
    · exact refStep_of_unrecognised hp hpath hnone

theorem leads_references (d : Document) : d.references.Leads = d.RefersTo := by
  funext k next
  exact propext refStep_eq_go_iff

/-! ### The whole way -/

theorem resolves_iff : d.Resolves k arrival ↔ d.references.run k = arrival := by
  cases arrival with
  | arrived path e =>
    rw [run_eq_arrived_iff, leads_references]
    exact exists_congr fun last => and_congr_right fun _ => refStep_eq_stop_iff.symm
  | cycle path =>
    rw [run_eq_cycle_iff, leads_references]
    exact Iff.rfl

/-- **References lead somewhere, and to one end only.** -/
theorem existsUnique_resolves (d : Document) (k : RefKey) : ∃! arrival, d.Resolves k arrival := by
  simp only [resolves_iff]
  exact ⟨_, rfl, fun _ h => h.symm⟩

/-- What is said about a column whose references lead to nothing. -/
def deadEnd (table column : String) (path : List RefKey) : Marker :=
  .unresolved "$ref" (table ++ "." ++ column)
    (String.intercalate " -> " (path.map RefKey.label) ++ " does not resolve")

section Storage

variable {table column : String} {path : List RefKey}

theorem storage_of_property {p : Property}
    (h : d.references.run (.column table column) = .arrived path (.property p)) :
    (d.storage table column).Sets p.storage [] := by
  rw [storage, h]
  exact ⟨rfl, rfl⟩

theorem storage_of_missing (h : d.references.run (.column table column) = .arrived path .missing) :
    (d.storage table column).Sets "ANY" [deadEnd table column path] := by
  rw [storage, h]
  exact ⟨rfl, rfl⟩

theorem storage_of_unrecognised
    (h : d.references.run (.column table column) = .arrived path .unrecognised) :
    (d.storage table column).Sets "ANY" [] := by
  rw [storage, h]
  exact ⟨rfl, rfl⟩

theorem storage_of_cycle (h : d.references.run (.column table column) = .cycle path) :
    (d.storage table column).outcome = .error (.cyclic (path.map RefKey.label)) := by
  rw [storage, h]
  rfl

/-- A column is marked exactly if its references lead to nothing. -/
theorem storage_sets_marker_iff :
    (∃ type marker, (d.storage table column).Sets type [marker]) ↔
      ∃ path, d.references.run (.column table column) = .arrived path .missing := by
  constructor
  · rintro ⟨type, marker, _, hmarkers⟩
    rcases hrun : d.references.run (.column table column) with ⟨path, p | _ | _⟩ | path
    · rw [(storage_of_property hrun).2] at hmarkers
      cases hmarkers
    · exact ⟨path, rfl⟩
    · rw [(storage_of_unrecognised hrun).2] at hmarkers
      cases hmarkers
    · rw [storage, hrun] at hmarkers
      cases hmarkers
  · rintro ⟨path, hrun⟩
    exact ⟨_, _, storage_of_missing hrun⟩

/-- If its references lead to no property, a column is stored as anything without a marker exactly
if they come to a path of no known form. -/
theorem storage_sets_unmarked_iff :
    ((d.storage table column).Sets "ANY" [] ∧
        ¬ ∃ path p, d.references.run (.column table column) = .arrived path (.property p)) ↔
      ∃ path, d.references.run (.column table column) = .arrived path .unrecognised := by
  constructor
  · rintro ⟨⟨houtcome, hmarkers⟩, hnone⟩
    rcases hrun : d.references.run (.column table column) with ⟨path, p | _ | _⟩ | path
    · exact absurd ⟨path, p, hrun⟩ hnone
    · rw [(storage_of_missing hrun).2] at hmarkers
      cases hmarkers
    · exact ⟨path, rfl⟩
    · rw [storage_of_cycle hrun] at houtcome
      cases houtcome
  · rintro ⟨path, hrun⟩
    refine ⟨storage_of_unrecognised hrun, ?_⟩
    rintro ⟨_, _, hproperty⟩
    rw [hrun] at hproperty
    cases hproperty

/-- A column has no storage exactly if its references come back. -/
theorem storage_fails_iff :
    (∃ fault, (d.storage table column).outcome = .error fault) ↔
      ∃ path, d.references.run (.column table column) = .cycle path := by
  constructor
  · rintro ⟨fault, hfault⟩
    rcases hrun : d.references.run (.column table column) with ⟨path, p | _ | _⟩ | path
    · rw [(storage_of_property hrun).1] at hfault
      cases hfault
    · rw [(storage_of_missing hrun).1] at hfault
      cases hfault
    · rw [(storage_of_unrecognised hrun).1] at hfault
      cases hfault
    · exact ⟨path, rfl⟩
  · rintro ⟨path, hrun⟩
    exact ⟨_, storage_of_cycle hrun⟩

end Storage

/-- **A column is stored as what its references lead to**: as the one property or definition
behind them, as anything with a marker if there is none, as anything if a path is of no known form,
and not at all if they come back. -/
theorem storage_resolved (d : Document) (table column : String) :
    (∃! arrival, d.Resolves (.column table column) arrival) ∧
    (∀ path p, d.Resolves (.column table column) (.arrived path (.property p)) →
      (d.storage table column).Sets p.storage []) ∧
    (∀ path, d.Resolves (.column table column) (.arrived path .missing) →
      (d.storage table column).Sets "ANY" [deadEnd table column path]) ∧
    (∀ path, d.Resolves (.column table column) (.arrived path .unrecognised) →
      (d.storage table column).Sets "ANY" []) ∧
    (∀ path, d.Resolves (.column table column) (.cycle path) →
      (d.storage table column).outcome = .error (.cyclic (path.map RefKey.label))) ∧
    ((∃ type marker, (d.storage table column).Sets type [marker]) ↔
      ∃ path, d.Resolves (.column table column) (.arrived path .missing)) ∧
    (((d.storage table column).Sets "ANY" [] ∧
        ¬ ∃ path p, d.Resolves (.column table column) (.arrived path (.property p))) ↔
      ∃ path, d.Resolves (.column table column) (.arrived path .unrecognised)) ∧
    ((∃ fault, (d.storage table column).outcome = .error fault) ↔
      ∃ path, d.Resolves (.column table column) (.cycle path)) := by
  refine ⟨existsUnique_resolves d _, ?_⟩
  simp only [resolves_iff]
  exact ⟨fun _ _ => storage_of_property, fun _ => storage_of_missing, fun _ =>
    storage_of_unrecognised, fun _ => storage_of_cycle, storage_sets_marker_iff,
    storage_sets_unmarked_iff, storage_fails_iff⟩

/-- References that come back by way of a definition, and one to a column that is not there. -/
def Sample.detours : Document where
  schemaUri := none
  defs := some [("size", { ref := some "#/properties/box/properties/width" })]
  properties := [("box", {
    properties := [("height", { ref := some "#/$defs/size" }),
      ("width", { ref := some "#/$defs/size" }),
      ("depth", { ref := some "#/properties/box/properties/length" })]
    required := [] })]

theorem detours_resolved :
    (Sample.detours.storage "box" "height").outcome = .error
      (.cyclic ["properties/box/height", "$defs/size", "properties/box/width", "$defs/size"]) ∧
    (Sample.detours.storage "box" "depth").Sets "ANY" [.unresolved "$ref" "box.depth"
      "properties/box/depth -> properties/box/length does not resolve"] := by
  have hheight : Sample.detours.RefersTo (.column "box" "height") (.definition "size") :=
    ⟨_, _, rfl, rfl, by decide⟩
  have hsize : Sample.detours.RefersTo (.definition "size") (.column "box" "width") :=
    ⟨_, _, rfl, rfl, by decide⟩
  have hwidth : Sample.detours.RefersTo (.column "box" "width") (.definition "size") :=
    ⟨_, _, rfl, rfl, by decide⟩
  have hdepth : Sample.detours.RefersTo (.column "box" "depth") (.column "box" "length") :=
    ⟨_, _, rfl, rfl, by decide⟩
  obtain ⟨_, _, _, _, hcycle, _⟩ := storage_resolved Sample.detours "box" "height"
  obtain ⟨_, _, hmissing, _⟩ := storage_resolved Sample.detours "box" "depth"
  constructor
  · exact hcycle [.column "box" "height", .definition "size", .column "box" "width",
      .definition "size"] ⟨rfl, by simp [hheight, hsize, hwidth], by simp, by simp⟩
  · exact hmissing [.column "box" "depth", .column "box" "length"]
      ⟨.column "box" "length", ⟨rfl, by simp [hdepth], rfl⟩, .missing rfl⟩

end StrictDdl.Document
