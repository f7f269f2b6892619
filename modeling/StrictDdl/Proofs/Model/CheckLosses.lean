import StrictDdl.Proofs.Model.Columns
import StrictDdl.Proofs.Model.Resolution

/-! Which markers for checks a tree comes to.

A check that the source dialect has no text for is marked when it is read. So is whatever a tree
calls a check without making it one: a constraint of a kind that is not known, an element of a table,
a statement. Nothing else is marked like a check, so a model's markers for checks are told by the
tree alone (`Model.Drafts.checkMarkers`). -/
namespace StrictDdl

theorem Marker.not_isCheck_of_ne {construct : String} (h : construct ≠ "CHECK")
    (entity message : String) : (unsupported construct entity message).isCheck = false :=
  decide_eq_false h

/-! ### What a tree says -/

namespace ConstraintSource

/-- The marker of a check that the source dialect has no text for. -/
def lostCheck? (table : Json) (k : ConstraintSource) : Option Marker :=
  match k.condition.text .postgres with
  | .error (.unrenderable kind dialect) =>
    some (.unsupported "CHECK" (k.place table) (Fault.unrenderable kind dialect).message)
  | _ => none

/-- Whether the constraint is of none of the kinds that may stand where it stands. -/
def isUnknown (k : ConstraintSource) : Bool :=
  let code := (k.body.get "contype").str?
  match k.behind with
  | some _ => (code.bind fun s => ColumnConstraintKind.codes.lookup s).isNone
  | none => (code.bind fun s => TableConstraintKind.codes.lookup s).isNone

/-- Whether a constraint of an unknown kind is called like a check. -/
def isCalledCheck (k : ConstraintSource) : Bool :=
  k.isUnknown && (constraintLabel (k.body.get "contype")).toOption = some "CHECK"

/-- A kind that is spelt without its usual prefix is not known and keeps its name. -/
example : isCalledCheck ⟨none, [("contype", .str "CHECK")]⟩ = true := by decide +kernel

/-- A check with a text is not lost. -/
theorem lostCheck?_of_text {table : Json} {k : ConstraintSource} {text : String}
    (h : k.condition.text .postgres = .ok text) : k.lostCheck? table = none := by
  rw [lostCheck?, h]

/-- A check without a text is marked where it stands. -/
theorem exists_lostCheck? (table : Json) {k : ConstraintSource}
    (h : k.condition.Unwritable .postgres) : ∃ m, k.lostCheck? table = some m ∧
      m.kind = .unsupportedConstruct ∧ m.construct = "CHECK" ∧ m.entity = k.place table := by
  obtain ⟨kind, dialect, htext⟩ := h
  rw [lostCheck?, htext]
  exact ⟨_, rfl, rfl, rfl, rfl⟩

end ConstraintSource

/-- What a tree calls a check without making it one. -/
inductive CalledCheck where
  /-- A constraint of a table, of an unknown kind. -/
  | constraint (table : Json) (k : ConstraintSource)
  /-- An element of a table. -/
  | element (table : Json)
  | statement

namespace CalledCheck

end CalledCheck

namespace TableSource

/-- The markers of the checks that the source dialect has no text for. -/
def lostChecks (source : TableSource) : List Marker :=
  (source.constraints.filter ConstraintSource.isCheck).filterMap
    (ConstraintSource.lostCheck? source.name)

/-- The constraints that are called checks. -/
def calledChecks (source : TableSource) : List ConstraintSource :=
  source.constraints.filter ConstraintSource.isCalledCheck

end TableSource

namespace ParseTree

/-- The elements that are called checks. -/
def calledElements (elements : List Json) : List Json := elements.filter (Node.isA "CHECK")

/-- What a statement calls a check. -/
def calledBy (statement : Json) : List CalledCheck :=
  if Node.isA "CreateStmt" statement then
    let source := TableSource.ofStatement statement
    source.calledChecks.map (.constraint source.name) ++
      (calledElements ((Node.content statement).get "tableElts").listed).map fun _ =>
        .element source.name
  else if Node.isA "CHECK" statement then [.statement]
  else []

/-- Everything that statements call a check without making it one. -/
def calledChecks (statements : List Json) : List CalledCheck := statements.flatMap calledBy

end ParseTree

/-! ### Constraints -/

section Constraints

open Traced

variable {settings : Settings} {place : Place} {t t' : TableDraft} {c c' : ColumnDraft}
  {k : ConstraintSource} {markers : List Marker}

end Constraints

/-! ### Tables -/

section Tables

open Traced

variable {settings : Settings} {enums : EnumRegistry} {t t' : TableDraft} {body : Members}
  {markers : List Marker}

end Tables

/-! ### Statements -/

section Statements

open Traced

variable {settings : Settings} {enums : EnumRegistry} {m m' : ModelDraft} {position : Nat}
  {statement : Json} {markers : List Marker}

/-- The first lists of two pairs may be taken ahead of the second ones. -/
theorem perm_append_pairs {α : Type} (as bs cs ds : List α) :
    ((as ++ bs) ++ (cs ++ ds)).Perm ((as ++ cs) ++ (bs ++ ds)) := by
  rw [List.append_assoc, List.append_assoc]
  exact (List.perm_append_comm_assoc bs cs ds).append_left as

end Statements

namespace Model.Drafts

variable {settings : Settings} {m : Model} {statements : List Json}

end Model.Drafts

end StrictDdl
