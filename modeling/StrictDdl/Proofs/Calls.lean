import StrictDdl.Proofs.Defaults
import StrictDdl.Proofs.Labels
import StrictDdl.Proofs.Model.Columns

/-! Calls as defaults, and what is said about them.

A call is looked up under its last name, and one that is looked up in vain has a marker. A call of a
function of another schema is not looked up at all, and no marker tells, although its text loses the
schema. So the default of a column is that of the table of counterparts or it is marked, unless the
function is one of another schema (`Convert.calls_reported_iff`). -/
namespace StrictDdl

namespace Default

/-- Whether no function is looked up under the parts of a name: there are none, or the first is a
schema other than that of what is built in. -/
def isForeign : List Json → Bool
  | [] => true
  | [_] => false
  | schema :: _ => !schema.same (.str Sql.builtinSchema)

variable {function : Read (List Json)} {star : Bool} {arguments : List Expr}

/-- A call has no key exactly if it is not looked up. -/
theorem functionKey_eq_none_iff : functionKey (.call function star arguments) = .ok none ↔
    ∃ names, function = .ok names ∧ isForeign names = true := by
  have hsome : ∀ j : Json, (do return some (LetterCase.lower (← j.text)) : Read _) ≠ .ok none := by
    intro j h
    obtain ⟨_, _, h⟩ := Read.bind_eq_ok_iff.1 h
    cases h
  unfold functionKey
  rw [Read.bind_eq_ok_iff]
  refine exists_congr fun names => and_congr_right fun _ => ?_
  match names with
  | [] => exact iff_of_true rfl rfl
  | [j] => exact iff_of_false (hsome j) Bool.false_ne_true
  | schema :: name :: rest =>
    dsimp only [isForeign]
    cases hbuiltin : schema.same (.str Sql.builtinSchema) with
    | false => exact iff_of_true rfl rfl
    | true =>
      obtain ⟨last, hlast⟩ : ∃ last, (schema :: name :: rest).getLast? = some last :=
        ⟨_, List.getLast?_eq_some_getLast (List.cons_ne_nil schema (name :: rest))⟩
      rw [if_pos rfl, hlast]
      exact iff_of_false (hsome last) Bool.false_ne_true

/-- A call is a computed default if its text and its key are there. -/
theorem classify_call_eq_ok_iff {d : Default} : classify (.call function star arguments) = .ok d ↔
    ∃ expression key?, (Expr.call function star arguments).text .postgres = .ok expression ∧
      functionKey (.call function star arguments) = .ok key? ∧
      d = .computed ⟨.call, expression, key?, some (.call function star arguments)⟩ := by
  have hclassify : classify (.call function star arguments) = (do
      let expression ← (Expr.call function star arguments).text .postgres
      let key? ← functionKey (.call function star arguments)
      return .computed ⟨.call, expression, key?, some (.call function star arguments)⟩) := rfl
  rw [hclassify]
  constructor
  · intro h
    obtain ⟨expression, hexpression, h⟩ := Read.bind_eq_ok_iff.1 h
    obtain ⟨key?, hkey, h⟩ := Read.bind_eq_ok_iff.1 h
    exact ⟨expression, key?, hexpression, hkey, (Except.ok.inj h).symm⟩
  · rintro ⟨expression, key?, hexpression, hkey, rfl⟩
    exact Read.bind_eq_ok_iff.2 ⟨_, hexpression, Read.bind_eq_ok_iff.2 ⟨_, hkey, rfl⟩⟩

end Default

/-- The default is written as the counterpart of a function. -/
def Ddl.ColumnDef.HasCounterpart (d : Ddl.ColumnDef) : Prop :=
  ∃ entry ∈ Sql.computed, d.default = some (.computed entry.2)

theorem Column.default_of_definition {settings : Settings} {enums : EnumRegistry} {table : String}
    {c : Column} {d : Ddl.ColumnDef} (h : (c.definition settings enums table).outcome = .ok d) :
    (c.defaultClause (table ++ "." ++ c.name)).outcome = .ok d.default := by
  unfold definition at h
  obtain ⟨default, hdefault, h⟩ := Traced.bind_eq_ok_iff.1 h
  obtain ⟨guards, _, h⟩ := Traced.bind_eq_ok_iff.1 h
  obtain ⟨checks, _, h⟩ := Traced.bind_eq_ok_iff.1 h
  cases h
  exact hdefault

namespace ConstraintSource

variable {k : ConstraintSource} {entity : String} {function : Read (List Json)} {star : Bool}
  {arguments : List Expr}

theorem entity_of_mem_defaultMarkers {marker : Marker} (h : marker ∈ k.defaultMarkers entity) :
    marker.entity = entity := by
  unfold defaultMarkers at h
  split at h
  · cases h
  · split at h
    · obtain rfl := List.mem_singleton.1 h
      rfl
    · cases h
  · obtain rfl := List.mem_singleton.1 h
    rfl

/-- The call is written in the source dialect, and is not looked up. -/
def PassesUnseen (k : ConstraintSource) : Prop :=
  ∃ function star arguments names text, k.condition = .call function star arguments ∧
    function = .ok names ∧ Default.isForeign names = true ∧ k.condition.text .postgres = .ok text

/-- What a call says about a column with it for a default. -/
theorem counterpart_or_marked_iff {c : Column} {d : Ddl.ColumnDef} {old : Option Default}
    (hcall : k.condition = .call function star arguments) (hc : c.default = k.defaultAfter old)
    (hd : (c.defaultClause entity).outcome = .ok d.default) :
    d.HasCounterpart ∨ (k.defaultMarkers entity ≠ [] ↔ ¬ k.PassesUnseen) := by
  have hunseen : k.PassesUnseen ↔ ∃ d, Default.classify k.condition = .ok (.computed d) ∧
      d.function = none := by
    rw [PassesUnseen, hcall]
    simp only [Default.classify_call_eq_ok_iff]
    constructor
    · rintro ⟨_, _, _, names, text, ⟨⟩, hnames, hforeign, htext⟩
      exact ⟨_, ⟨text, none, htext, Default.functionKey_eq_none_iff.2 ⟨names, hnames, hforeign⟩, rfl⟩,
        rfl⟩
    · rintro ⟨_, ⟨text, key?, htext, hkey, ⟨⟩⟩, rfl⟩
      obtain ⟨names, hnames, hforeign⟩ := Default.functionKey_eq_none_iff.1 hkey
      exact ⟨_, _, _, names, text, rfl, hnames, hforeign, htext⟩
  rw [hunseen]
  cases hclass : Default.classify k.condition with
  | error fault =>
    refine .inr (iff_of_true ?_ ?_)
    · simp [defaultMarkers, hclass]
    · rintro ⟨_, h, _⟩
      cases h
  | ok value =>
    obtain ⟨text, key?, _, _, rfl⟩ :=
      Default.classify_call_eq_ok_iff.1 (hcall ▸ hclass)
    cases key? with
    | none =>
      refine .inr (iff_of_false ?_ (not_not_intro ⟨_, rfl, rfl⟩))
      simp [defaultMarkers, hclass, Computed.isKnown]
    | some key =>
      cases hknown : Sql.computed? key with
      | none =>
        refine .inr (iff_of_true ?_ ?_)
        · simp [defaultMarkers, hclass, Computed.isKnown, hknown]
        · rintro ⟨_, ⟨⟩, h⟩
          cases h
      | some known =>
        refine .inl ⟨(key, known), Sql.mem_computed hknown, ?_⟩
        rw [defaultAfter, hclass] at hc
        have hclause : (c.defaultClause entity).outcome = .ok (some (.computed known)) := by
          unfold Column.defaultClause Computed.target?
          simp only [hc, Option.bind_some, hknown]
          rfl
        rw [hclause] at hd
        exact (Except.ok.inj hd).symm

end ConstraintSource

namespace Convert

/-- **A call that a column has for its default is written as a counterpart or marked, unless it is
not looked up.** The default that counts is the last one behind the column. The markers that it sets
are markers of the result and name the column; if the default is not written as the counterpart of
a function, there is such a marker exactly if the function is not one of another schema, or if the
call cannot even be written in the source dialect. -/
theorem calls_reported_iff {settings : Settings} {tree : Json} {result : Converted Ddl.Script}
    (h : (toDdl settings tree).outcome = .ok result) :
    ∃ m, (Model.build settings tree).outcome = .ok m ∧ m.EachColumn tree fun t element c =>
      ∃ d, result.output.column? t.name c.name = some d ∧
        ∀ earlier k function star arguments,
          ConstraintSource.defaultsOf element = earlier ++ [k] →
          k.condition = .call function star arguments →
          (∀ marker ∈ k.defaultMarkers (Model.ColumnKey.label (t.name, c.name)),
            marker ∈ result.markers ∧
              marker.entity = Model.ColumnKey.label (t.name, c.name)) ∧
          (¬ d.HasCounterpart →
            (k.defaultMarkers (Model.ColumnKey.label (t.name, c.name)) ≠ [] ↔
              ¬ k.PassesUnseen)) := by
  obtain ⟨m, dropped, hm, hscript, hmarkers⟩ := toDdl_sets h
  have hsound := Model.build_sound hm
  obtain ⟨_, _, _, haccounts⟩ := Model.build_accounts hm
  have hcovers := (haccounts.scriptOf hscript.1).covers
  obtain ⟨_, _, ⟨drafts⟩⟩ := Model.exists_drafts hm
  have hamong := drafts.readFrom.among.subset
  refine ⟨m, hm, (Model.build_columns hm).imp fun t ht c hc element hread => ?_⟩
  obtain ⟨d, hfound, hdefined⟩ :=
    hcovers.column?_eq hsound (fun _ _ _ h => (Column.definition_eq_ok h).1) ht hc
  refine ⟨d, hfound, fun earlier k function star arguments hdefaults hcall => ⟨?_, ?_⟩⟩
  · intro marker hmarker
    refine ⟨?_, ConstraintSource.entity_of_mem_defaultMarkers hmarker⟩
    have hk : k ∈ ConstraintSource.defaultsOf element := by simp [hdefaults]
    have htable := hread.marked k hk hmarker
    rw [hmarkers]
    exact List.mem_append_left _ (hamong (List.mem_flatMap_of_mem ht htable))
  · have hdefault := hread.default
    rw [hdefaults, List.foldl_append] at hdefault
    exact (ConstraintSource.counterpart_or_marked_iff hcall hdefault
      (Column.default_of_definition hdefined)).resolve_left

end Convert

namespace Sample

/-- A column with a call for its default. -/
def called (columnName : String) (function : List String) : Json :=
  column columnName "text" [constraint "CONSTR_DEFAULT"
    [("raw_expr", .obj [("FuncCall", .obj [("funcname", .arr (function.map name))])])]]

/-- A table with a function of another schema for a default. -/
def tickets : Json := table "ticket" [called "code" ["app", "next_code"]]

end Sample

/-- The schema of the function is lost, and no marker tells. -/
theorem Convert.tickets_unmarked : ∃ result, (toDdl {} Sample.tickets).outcome = .ok result ∧
    result.markers = [] ∧
    (result.output.column? "ticket" "code").map (fun d => d.default.map Ddl.DefaultClause.text) =
      some (some "DEFAULT (next_code())") ∧
    ∃ m, (Model.build {} Sample.tickets).outcome = .ok m ∧
      m.EachColumn Sample.tickets fun t element c =>
        ∃ d, result.output.column? t.name c.name = some d ∧
          ∀ earlier k function star arguments,
            ConstraintSource.defaultsOf element = earlier ++ [k] →
            k.condition = .call function star arguments →
            (∀ marker ∈ k.defaultMarkers (Model.ColumnKey.label (t.name, c.name)),
              marker ∈ result.markers ∧
                marker.entity = Model.ColumnKey.label (t.name, c.name)) ∧
            (¬ d.HasCounterpart →
              (k.defaultMarkers (Model.ColumnKey.label (t.name, c.name)) ≠ [] ↔
                ¬ k.PassesUnseen)) := by
  have hview : (do
      let result ← (toDdl {} Sample.tickets).outcome
      return (result.markers, (result.output.column? "ticket" "code").map fun d =>
        d.default.map Ddl.DefaultClause.text) : Read _).toOption =
          some ([], some (some "DEFAULT (next_code())")) := by decide +kernel
  obtain ⟨result, hresult, h⟩ := Read.bind_eq_ok_iff.1 (Read.eq_ok_of_toOption hview)
  have h := Except.ok.inj h
  simp only [Prod.mk.injEq] at h
  exact ⟨result, hresult, h.1, h.2, calls_reported_iff hresult⟩

end StrictDdl
