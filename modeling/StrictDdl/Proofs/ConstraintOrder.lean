import StrictDdl.Proofs.Model.Columns
import StrictDdl.Proofs.Script

/-! Constraints may stand anywhere among the columns.

The elements of a table are read in two passes: first those that are no constraints, and then the
constraints, each in their order (`readElements_sets_iff`). Two statements that differ in how the
ones are interleaved with the others are read in the same way, and so are trees with such statements
in the same places (`Model.constraints_anywhere`). Which element is malformed first may differ, and
with it the fault; the model does not. -/
namespace StrictDdl

/-! ### Steps that end in the same way -/

namespace Traced

variable {α β : Type}

/-- Both steps end with the same value and set the same markers, or neither ends with one. Unlike
`Agrees`, this leaves the faults open and compares the markers all the same. -/
def SameEnd (step step' : Traced α) : Prop :=
  ∀ a markers, step.Sets a markers ↔ step'.Sets a markers

namespace SameEnd

theorem refl (step : Traced α) : step.SameEnd step := fun _ _ => Iff.rfl

theorem outcome_iff {step step' : Traced α} (h : step.SameEnd step') (a : α) :
    step.outcome = .ok a ↔ step'.outcome = .ok a :=
  ⟨fun ha => ((h a _).1 ⟨ha, rfl⟩).1, fun ha => ((h a _).2 ⟨ha, rfl⟩).1⟩

theorem bind {step step' : Traced α} {next next' : α → Traced β} (h : step.SameEnd step')
    (hnext : ∀ a, (next a).SameEnd (next' a)) : (step >>= next).SameEnd (step' >>= next') := by
  intro b markers
  rw [bind_sets_iff, bind_sets_iff]
  refine exists_congr fun a => exists_congr fun first => exists_congr fun rest => ?_
  rw [h a first, hnext a b rest]

/-- The same step, followed by steps that end in the same way. -/
theorem then_same (step : Traced α) {next next' : α → Traced β}
    (h : ∀ a, (next a).SameEnd (next' a)) : (step >>= next).SameEnd (step >>= next') :=
  (refl step).bind h

/-- Readings with different values, followed by steps that end in the same way for these. -/
theorem of_ok {r r' : Read α} {a a' : α} {next next' : α → Traced β} (hr : r = .ok a)
    (hr' : r' = .ok a') (h : (next a).SameEnd (next' a')) :
    ((liftM r : Traced α) >>= next).SameEnd ((liftM r' : Traced α) >>= next') := by
  subst hr hr'
  exact h

/-- Steps that are taken only sometimes before the rest. -/
theorem optional {p : Prop} [Decidable p] {first first' rest rest' : Traced α}
    (hfirst : rest.SameEnd rest' → first.SameEnd first') (h : rest.SameEnd rest') :
    (if p then first else rest).SameEnd (if p then first' else rest') := by
  split
  · exact hfirst h
  · exact h

theorem collecting {step step' : Traced α} (h : step.SameEnd step') :
    step.collecting.SameEnd step'.collecting := by
  rintro ⟨a, collected⟩ markers
  rw [collecting_sets_iff, collecting_sets_iff, h a markers]

end SameEnd

end Traced

open Traced

/-! ### Elements -/

/-- Whether an element of a table is a constraint. -/
abbrev isConstraint : Json → Bool := Node.isA constraintElement

/-- Whether it is not. -/
abbrev isNoConstraint (element : Json) : Bool := !isConstraint element

section Elements

variable {settings : Settings} {enums : EnumRegistry} {t t' : TableDraft} {markers : List Marker}

/-- Reads elements that are no constraints, one after another. -/
def readOthers (settings : Settings) (enums : EnumRegistry) (table : TableDraft)
    (elements : List Json) : Traced TableDraft :=
  elements.foldlM (fun table element => do
    let (kind, body) ← Node.unwrap element
    readElement settings enums table kind body) table

theorem Node.unwrap_of_isA {tag : String} {node : Json} {body : Members}
    (h : Node.isA tag node = true) (hbody : Node.body node = .ok body) :
    Node.unwrap node = .ok (tag, body) := by
  have hkind : Node.kind node = .ok tag := by
    unfold isA at h
    split at h
    · rw [← of_decide_eq_true h]
      rfl
    · cases h
  unfold unwrap
  rw [hkind, hbody]
  rfl

/-- **The elements of a table are read in two passes.** The constraints have to have bodies and are
put aside in their order, whatever stands between them; the others are read in theirs. -/
theorem readElements_sets_iff {aside aside' : List Members} {elements : List Json} :
    (readElements settings enums t aside elements).Sets (t', aside') markers ↔
      (∀ e ∈ elements.filter isConstraint, ∃ body, Node.body e = .ok body) ∧
      aside' = aside ++ (elements.filter isConstraint).map Node.content ∧
      (readOthers settings enums t (elements.filter isNoConstraint)).Sets t' markers := by
  induction elements generalizing t aside markers with
  | nil =>
    rw [readElements, pure_sets_iff, Prod.mk.injEq, List.filter_nil, List.map_nil, List.append_nil]
    rw [List.filter_nil, readOthers, List.foldlM_nil, pure_sets_iff]
    simp only [List.not_mem_nil, false_imp_iff, implies_true, true_and]
    exact ⟨fun ⟨⟨ht, haside⟩, hm⟩ => ⟨haside.symm, ht, hm⟩,
      fun ⟨haside, ht, hm⟩ => ⟨⟨ht, haside.symm⟩, hm⟩⟩
  | cons element elements ih =>
    rw [readElements, liftM_bind_sets_iff, Prod.exists]
    cases helement : isConstraint element with
    | true =>
      rw [List.filter_cons_of_pos helement, List.filter_cons_of_neg (by simp [helement]),
        List.forall_mem_cons, List.map_cons]
      constructor
      · rintro ⟨kind, body, hunwrap, h⟩
        obtain ⟨hbody, hisA⟩ := Node.unwrap_eq_ok hunwrap
        dsimp only at h
        rw [if_pos (of_decide_eq_true ((hisA _).symm.trans helement))] at h
        obtain ⟨hbodies, rfl, hrest⟩ := ih.1 h
        rw [Node.content_eq hbody, List.append_assoc]
        exact ⟨⟨⟨body, hbody⟩, hbodies⟩, rfl, hrest⟩
      · rintro ⟨⟨⟨body, hbody⟩, hbodies⟩, rfl, hrest⟩
        refine ⟨constraintElement, body, Node.unwrap_of_isA helement hbody, ?_⟩
        dsimp only
        rw [if_pos rfl]
        refine ih.2 ⟨hbodies, ?_, hrest⟩
        rw [Node.content_eq hbody, List.append_assoc, List.singleton_append]
    | false =>
      rw [List.filter_cons_of_neg (by simp [helement]), List.filter_cons_of_pos (by simp [helement]),
        readOthers, List.foldlM_cons, Traced.bind_assoc, liftM_bind_sets_iff, Prod.exists]
      have hkind : ∀ {kind body}, Node.unwrap element = .ok (kind, body) →
          kind ≠ constraintElement := fun hunwrap =>
        of_decide_eq_false (((Node.unwrap_eq_ok hunwrap).2 _).symm.trans helement)
      constructor
      · rintro ⟨kind, body, hunwrap, h⟩
        dsimp only at h
        rw [if_neg (hkind hunwrap)] at h
        obtain ⟨t₁, first, rest, hfirst, hrest, rfl⟩ := bind_sets_iff.1 h
        obtain ⟨hbodies, haside, hothers⟩ := ih.1 hrest
        exact ⟨hbodies, haside, kind, body, hunwrap,
          bind_sets_iff.2 ⟨t₁, first, rest, hfirst, hothers, rfl⟩⟩
      · rintro ⟨hbodies, haside, kind, body, hunwrap, h⟩
        obtain ⟨t₁, first, rest, hfirst, hothers, rfl⟩ := bind_sets_iff.1 h
        refine ⟨kind, body, hunwrap, ?_⟩
        dsimp only
        rw [if_neg (hkind hunwrap)]
        exact bind_sets_iff.2 ⟨t₁, first, rest, hfirst, ih.2 ⟨hbodies, haside, hothers⟩, rfl⟩

theorem readElements_sameEnd {elements elements' : List Json} (aside : List Members)
    (hconstraints : elements.filter isConstraint = elements'.filter isConstraint)
    (hothers : elements.filter isNoConstraint = elements'.filter isNoConstraint) :
    (readElements settings enums t aside elements).SameEnd
      (readElements settings enums t aside elements') := by
  rintro ⟨t', aside'⟩ markers
  rw [readElements_sets_iff, readElements_sets_iff, hconstraints, hothers]

end Elements

/-! ### Statements -/

/-- The statements are the same, or they create a table from the same constraints and the same other
elements, each in the same order, and differ in nothing else. -/
inductive ParseTree.Rearranged : Json → Json → Prop where
  | same (statement : Json) : Rearranged statement statement
  | table {body body' : Members} {elements elements' : List Json} :
    (∀ key, key ≠ "tableElts" → body.get key = body'.get key) →
    body.get "tableElts" = .arr elements → body'.get "tableElts" = .arr elements' →
    elements.filter isConstraint = elements'.filter isConstraint →
    elements.filter isNoConstraint = elements'.filter isNoConstraint →
    Rearranged (.obj [("CreateStmt", .obj body)]) (.obj [("CreateStmt", .obj body')])

/-- The trees have such statements in the same places, or neither can be cut into statements. -/
def ParseTree.SameStatements (t t' : Json) : Prop :=
  Option.Rel (List.Forall₂ Rearranged) (statements t).toOption (statements t').toOption

theorem Json.elementsOrNone_arr (items : List Json) :
    (Json.arr items).elementsOrNone = .ok items := by
  cases items <;> rfl

theorem Node.require_congr {ms ms' : Members} {key : String} (h : ms.get key = ms'.get key)
    (entity : Json) : Node.require (.obj ms) key entity = Node.require (.obj ms') key entity := by
  simp only [require, Json.members, Bind.bind, Except.bind, h]

section Statements

variable {settings : Settings} {enums : EnumRegistry} {body body' : Members}
  {elements elements' : List Json}

theorem readParts_sameEnd (t : TableDraft)
    (hother : ∀ key, key ≠ "tableElts" → body.get key = body'.get key)
    (helements : body.get "tableElts" = .arr elements)
    (helements' : body'.get "tableElts" = .arr elements')
    (hconstraints : elements.filter isConstraint = elements'.filter isConstraint)
    (hothers : elements.filter isNoConstraint = elements'.filter isNoConstraint) :
    (readParts settings enums t body).SameEnd (readParts settings enums t body') := by
  unfold readParts
  rw [hother "partspec" (by decide), hother "inhRelations" (by decide), helements, helements']
  refine .optional (fun h => .then_same _ fun _ => .then_same _ fun _ => h) ?_
  refine .optional (fun h => .then_same _ fun _ => .then_same _ fun _ => .then_same _ fun _ => h) ?_
  refine .of_ok (Json.elementsOrNone_arr _) (Json.elementsOrNone_arr _) ?_
  exact (readElements_sameEnd [] hconstraints hothers).bind fun _ => .refl _

theorem readStatement_sameEnd (m : ModelDraft) (position : Nat) {statement statement' : Json}
    (h : ParseTree.Rearranged statement statement') :
    (readStatement settings enums m position statement).SameEnd
      (readStatement settings enums m position statement') := by
  cases h with
  | same => exact .refl _
  | @table body body' _ _ hother helements helements' hconstraints hothers =>
    show (readTable settings enums m position body).SameEnd
      (readTable settings enums m position body')
    unfold readTable
    dsimp only
    rw [Node.require_congr (hother "relation" (by decide))]
    refine .then_same _ fun relation => .then_same _ fun name => ?_
    split
    · exact .refl _
    · exact (readParts_sameEnd _ hother helements helements' hconstraints hothers).collecting.bind
        fun _ => .refl _

theorem readStatements_sameEnd {statements statements' : List Json}
    (h : List.Forall₂ ParseTree.Rearranged statements statements') (m : ModelDraft)
    (position : Nat) :
    (readStatements settings enums m position statements).SameEnd
      (readStatements settings enums m position statements') := by
  induction h generalizing m position with
  | nil => exact .refl _
  | cons hstatement _ ih =>
    exact (readStatement_sameEnd m position hstatement).bind fun m' => ih m' (position + 1)

theorem EnumRegistry.declaredFrom_sameEnd {statements statements' : List Json}
    (h : List.Forall₂ ParseTree.Rearranged statements statements') (enums : EnumRegistry)
    (position : Nat) :
    (declaredFrom enums position statements).SameEnd
      (declaredFrom enums position statements') := by
  induction h generalizing enums position with
  | nil => exact .refl _
  | @cons statement statement' _ _ hstatement _ ih =>
    cases hstatement with
    | same =>
      unfold declaredFrom
      split
      · exact .then_same _ fun e => .then_same _ fun _ => ih _ _
      · exact ih _ _
    | table => exact ih enums (position + 1)

end Statements

namespace Model

variable {t t' : Json} {statements statements' : List Json}

theorem read_sameEnd {settings : Settings} {enums : EnumRegistry}
    (h : List.Forall₂ ParseTree.Rearranged statements statements') :
    (read settings enums statements).SameEnd (read settings enums statements') :=
  (readStatements_sameEnd h {} 0).bind fun _ => .refl _

/-- **Constraints may stand anywhere among the columns**: a model is built from the one tree exactly
if it is built from the other, the same in every table, column, check, key and marker. -/
theorem constraints_anywhere (settings : Settings) (h : ParseTree.SameStatements t t') (m : Model) :
    (build settings t).outcome = .ok m ↔ (build settings t').outcome = .ok m := by
  rw [build_eq_ok_iff, build_eq_ok_iff]
  unfold ParseTree.SameStatements at h
  cases hs : ParseTree.statements t <;> cases hs' : ParseTree.statements t' <;> rw [hs, hs'] at h
  case error.error => simp only [reduceCtorEq, false_and, exists_const]
  case error.ok | ok.error => cases h
  case ok.ok statements statements' =>
    cases h with | some hstatements
    have henums := EnumRegistry.declaredFrom_sameEnd hstatements [] 0
    simp only [Except.ok.injEq, exists_and_left, exists_eq_left', EnumRegistry.declared,
      henums.outcome_iff, read_sameEnd hstatements _ _]

end Model

namespace Sample

def key (code : String) (columns : List String) : Json :=
  constraint code [("keys", .arr (columns.map name))]

/-- A table whose keys stand before the columns and among them, and the same with its keys last. -/
def rooms (keysLast : Bool) : Json :=
  let unique := key "CONSTR_UNIQUE" ["floor", "door"]
  let primary := key "CONSTR_PRIMARY" ["id"]
  let id := column "id" "int4" []
  let floor := column "floor" "int4" []
  let door := column "door" "text" []
  table "room" (if keysLast then [id, floor, door, unique, primary]
    else [unique, id, primary, floor, door])

end Sample

theorem Model.rooms_same : (build {} (Sample.rooms false)).outcome.isOk = true ∧
    ParseTree.SameStatements (Sample.rooms false) (Sample.rooms true) ∧
    ∀ m, (build {} (Sample.rooms false)).outcome = .ok m ↔
      (build {} (Sample.rooms true)).outcome = .ok m := by
  have hother : ∀ (relation elements elements' : Json) (key : String), key ≠ "tableElts" →
      Members.get [("relation", relation), ("tableElts", elements)] key =
        Members.get [("relation", relation), ("tableElts", elements')] key := by
    intro relation elements elements' key hkey
    simp only [Members.get, Members.find?, if_neg hkey.symm]
  have hsame : ParseTree.SameStatements (Sample.rooms false) (Sample.rooms true) :=
    .some (.cons (.table (hother _ _ _) rfl rfl rfl rfl) .nil)
  exact ⟨by decide +kernel, hsame, constraints_anywhere {} hsame⟩

end StrictDdl
