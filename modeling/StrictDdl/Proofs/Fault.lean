import StrictDdl.Expr.Columns
import StrictDdl.ForeignKey
import StrictDdl.ParseTree.TypeName
import StrictDdl.Proofs.Outcome

/-! Which readings can meet a construct without a counterpart.

Plain readings of nodes, names and codes cannot: they fail only on what is malformed. So a
reference fails for want of a counterpart only if it is one of several columns together
(`ForeignKey.Draft.ofConstraint_fails`), and what it refers to does not depend on the name that
it has in messages (`ForeignKey.Draft.toOption_ofConstraint`). -/
namespace StrictDdl

/-- Whether the fault is for want of a counterpart. -/
def Fault.isUnsupported : Fault → Bool
  | .unsupported _ _ => true
  | .unrenderable _ _ => true
  | _ => false

namespace Read

variable {α β : Type} {P : Fault → Prop}

/-- The reading fails with such faults only. -/
def Fails (P : Fault → Prop) (r : Read α) : Prop := ∀ fault, r = .error fault → P fault

/-- The reading meets no construct without a counterpart. -/
def Plain (r : Read α) : Prop := r.Fails fun fault => fault.isUnsupported = false

theorem fails_ok (a : α) : Fails P (.ok a : Read α) := by
  intro fault h
  cases h

theorem fails_error {fault : Fault} (h : P fault) : Fails P (.error fault : Read α) := by
  rintro _ ⟨⟩
  exact h

theorem Fails.bind_ok {r : Read α} {next : α → Read β} (h : r.Fails P)
    (hnext : ∀ a, r = .ok a → (next a).Fails P) : Fails P (r >>= next) := by
  cases r with
  | ok a => exact hnext a rfl
  | error fault => exact fails_error (h fault rfl)

theorem Fails.bind {r : Read α} {next : α → Read β} (h : r.Fails P)
    (hnext : ∀ a, (next a).Fails P) : Fails P (r >>= next) :=
  h.bind_ok fun a _ => hnext a

theorem Fails.map {r : Read α} (h : r.Fails P) (f : α → β) : Fails P (r.map f) := by
  cases r with
  | ok a => exact fails_ok (f a)
  | error fault => exact fails_error (h fault rfl)

theorem Fails.ite {p : Prop} [Decidable p] {r s : Read α} (h : r.Fails P) (h' : s.Fails P) :
    Fails P (if p then r else s) := by
  split
  · exact h
  · exact h'

theorem Fails.mono {Q : Fault → Prop} {r : Read α} (h : r.Fails P) (hPQ : ∀ fault, P fault → Q fault) :
    r.Fails Q :=
  fun fault hr => hPQ fault (h fault hr)

theorem toOption_bind (r : Read α) (next : α → Read β) :
    (r >>= next).toOption = r.toOption.bind fun a => (next a).toOption := by
  cases r with
  | ok a => rfl
  | error fault => rfl

theorem fails_mapM_of_mem {f : α → Read β} {as : List α} (h : ∀ a ∈ as, (f a).Fails P) :
    Fails P (as.mapM f) := by
  induction as with
  | nil => exact fails_ok []
  | cons a as ih =>
    obtain ⟨ha, has⟩ := List.forall_mem_cons.1 h
    rw [List.mapM_cons]
    exact ha.bind fun _ => (ih has).bind fun _ => fails_ok _

theorem fails_mapM {f : α → Read β} (h : ∀ a, (f a).Fails P) (as : List α) :
    (as.mapM f).Fails P :=
  fails_mapM_of_mem fun a _ => h a

theorem fails_forM {f : α → Read Unit} (h : ∀ a, (f a).Fails P) (as : List α) :
    Fails P (as.forM f) := by
  induction as with
  | nil => exact fails_ok ()
  | cons a as ih => exact (h a).bind fun _ => ih

end Read

/-! Steps that write into the journal fail like the readings in them. -/

namespace Traced

variable {α β : Type} {P : Fault → Prop}

theorem fails_bind {step : Traced α} {next : α → Traced β} (h : step.outcome.Fails P)
    (hnext : ∀ a, (next a).outcome.Fails P) : (step >>= next).outcome.Fails P := by
  rw [outcome_bind]
  exact h.bind hnext

theorem fails_ite {p : Prop} [Decidable p] {first second : Traced α} (h : first.outcome.Fails P)
    (h' : second.outcome.Fails P) : (if p then first else second).outcome.Fails P := by
  split
  · exact h
  · exact h'

theorem fails_mapM_of_mem {f : α → Traced β} {as : List α} (h : ∀ a ∈ as, (f a).outcome.Fails P) :
    (as.mapM f).outcome.Fails P := by
  induction as with
  | nil => exact Read.fails_ok []
  | cons a as ih =>
    obtain ⟨ha, has⟩ := List.forall_mem_cons.1 h
    rw [List.mapM_cons]
    exact fails_bind ha fun _ => fails_bind (ih has) fun _ => Read.fails_ok _

theorem fails_forM {f : α → Traced Unit} (h : ∀ a, (f a).outcome.Fails P) (as : List α) :
    (as.forM f).outcome.Fails P := by
  induction as with
  | nil => exact Read.fails_ok ()
  | cons a as ih => exact fails_bind (h a) fun _ => ih

end Traced

open Read

/-! ### Nodes -/

namespace Json

theorem members_plain (j : Json) : j.members.Plain := by
  cases j with
  | obj ms => exact fails_ok ms
  | _ => exact fails_error rfl

theorem elements_plain (j : Json) : j.elements.Plain := by
  cases j with
  | arr items => exact fails_ok items
  | str s => exact fails_ok _
  | obj ms => exact fails_ok _
  | _ => exact fails_error rfl

theorem elementsOrNone_plain (j : Json) : j.elementsOrNone.Plain :=
  Fails.ite j.elements_plain (fails_ok [])

theorem text_plain (j : Json) : j.text.Plain := by
  cases j with
  | str s => exact fails_ok s
  | _ => exact fails_error rfl

theorem key_plain (j : Json) : j.key.Plain := Fails.ite (fails_ok j) (fails_error rfl)

end Json

namespace Node

theorem kind_plain (j : Json) : (kind j).Plain := by
  unfold kind
  split
  · exact fails_ok _
  · exact fails_error rfl

theorem bodyOf_plain (tag : String) (j : Json) : (bodyOf tag j).Plain := by
  unfold bodyOf
  split
  · exact fails_ok _
  · exact fails_ok _
  · exact fails_error rfl

theorem body_plain (j : Json) : (body j).Plain := by
  unfold body
  split
  · exact bodyOf_plain _ _
  · exact fails_error rfl

theorem unwrap_plain (j : Json) : (unwrap j).Plain :=
  (kind_plain j).bind fun _ => (body_plain j).bind fun _ => fails_ok _

theorem require_plain (j : Json) (key : String) (entity : Json) : (require j key entity).Plain :=
  j.members_plain.bind fun _ => Fails.ite (fails_error rfl) (fails_ok _)

theorem string_plain (j : Json) : (string j).Plain := by
  unfold string
  split
  · exact fails_ok _
  · refine Fails.ite ((body_plain _).bind fun _ => fails_ok _) ?_
    split
    · exact Fails.ite (fails_ok _) ((kind_plain _).bind fun _ => fails_error rfl)
    · exact (kind_plain _).bind fun _ => fails_error rfl

theorem stringsOf_plain (js : List Json) : (stringsOf js).Plain := by
  induction js with
  | nil => exact fails_ok []
  | cons j js ih =>
    unfold stringsOf
    exact Fails.ite ih ((string_plain j).bind fun _ => ih.bind fun _ => fails_ok _)

theorem strings_plain (j : Json) : (strings j).Plain :=
  j.elementsOrNone_plain.bind stringsOf_plain

theorem join_plain (separator : String) (names : List Json) : (join separator names).Plain :=
  (fails_mapM Json.text_plain names).bind fun _ => fails_ok _

end Node

/-! ### Constants and types -/

namespace Json

theorem wholePart_plain (x : Binary64) : (wholePart x).Plain := by
  unfold wholePart
  split
  · exact fails_error rfl
  · exact fails_error rfl
  · exact fails_ok _

theorem notWhole_isUnsupported (s : String) : (notWhole s).isUnsupported = false := by
  unfold notWhole
  split <;> rfl

theorem toInt_plain (j : Json) : j.toInt.Plain := by
  unfold toInt
  split
  · exact fails_ok _
  · exact fails_ok _
  · exact wholePart_plain _
  · split
    · exact fails_ok _
    · exact fails_error (notWhole_isUnsupported _)
  · exact fails_error rfl

theorem toFloat_plain (j : Json) : j.toFloat.Plain := by
  unfold toFloat
  split
  · exact fails_ok _
  · split
    · exact fails_error rfl
    · exact fails_ok _
  · exact fails_ok _
  · split
    · exact fails_ok _
    · exact fails_error rfl
  · exact fails_error rfl

theorem toNumber_plain (j : Json) : j.toNumber.Plain := by
  have hint := j.toInt_plain
  unfold toNumber
  split
  · exact fails_ok _
  · exact j.toFloat_plain.map _
  · rename_i fault _ heq
    exact fails_error (hint fault heq)

end Json

namespace Constant

theorem inner_plain (ms : Members) (name : String) (absent : Json) :
    (inner ms name absent).Plain :=
  Fails.ite ((Json.members_plain _).bind fun _ => fails_ok _) (fails_ok absent)

theorem ofNode_plain (j : Json) : (ofNode j).Plain := by
  refine (Node.unwrap_plain j).bind fun node => ?_
  obtain ⟨kind, ms⟩ := node
  dsimp only
  split
  · exact (Json.toInt_plain _).bind fun _ => fails_ok _
  · exact Json.toNumber_plain _
  · exact fails_ok _
  · exact fails_ok _
  · exact fails_ok _
  · exact fails_error rfl

theorem ofBody_plain (ms : Members) : (ofBody ms).Plain := by
  unfold ofBody
  refine .ite (fails_ok _) (.ite ?_ (.ite ?_ (.ite (inner_plain _ _ _) (.ite ?_ (.ite (inner_plain _ _ _)
    (.ite (ofNode_plain _) (fails_error rfl)))))))
  · exact (inner_plain _ _ _).bind fun _ => (Json.toInt_plain _).bind fun _ => fails_ok _
  · exact (inner_plain _ _ _).bind fun _ => Json.toNumber_plain _
  · exact (inner_plain _ _ _).bind fun _ => fails_ok _

theorem value_plain (j : Json) : (value j).Plain :=
  Fails.ite ((Node.body_plain j).bind ofBody_plain) (j.members_plain.bind ofBody_plain)

end Constant

namespace TypeName

/-- No part of the type name meets a construct without a counterpart. -/
structure Plain (t : TypeName) : Prop where
  names : t.names.Plain
  modifiers : t.modifiers.Plain
  depth : t.depth.Plain

theorem modifier_plain (j : Json) : (modifier j).Plain :=
  Fails.ite ((Constant.value_plain j).map _) (fails_ok none)

theorem ofJson_plain (j : Json) : (TypeName.ofJson j).Plain where
  names := j.members_plain.bind fun _ => Node.strings_plain _
  modifiers := j.members_plain.bind fun _ => (Json.elementsOrNone_plain _).bind
    (fails_mapM modifier_plain)
  depth := j.members_plain.bind fun _ => (Json.elementsOrNone_plain _).bind fun _ => fails_ok _

end TypeName

/-! ### Columns -/

namespace ParseTree

mutual

theorem columnsFrom_plain (found : List Json) : (j : Json) → (columnsFrom found j).Plain
  | .arr items => by
    rw [columnsFrom]
    exact columnsFromAll_plain found items
  | .obj ms => by
    unfold columnsFrom
    split
    · rename_i hother heq
      cases heq
    · exact (Node.bodyOf_plain _ _).bind fun _ => (Node.strings_plain _).bind fun _ => fails_ok _
    · rename_i heq
      cases heq
      exact columnsFromMembers_plain found ms
    · exact fails_ok _
  | .null => fails_ok found
  | .bool _ => fails_ok found
  | .int _ => fails_ok found
  | .float _ => fails_ok found
  | .str _ => fails_ok found

theorem columnsFromAll_plain (found : List Json) :
    (js : List Json) → (columnsFromAll found js).Plain
  | [] => by
    rw [columnsFromAll]
    exact fails_ok _
  | j :: js => by
    rw [columnsFromAll]
    exact (columnsFrom_plain found j).bind fun found => columnsFromAll_plain found js

theorem columnsFromMembers_plain (found : List Json) :
    (ms : List (String × Json)) → (columnsFromMembers found ms).Plain
  | [] => by
    rw [columnsFromMembers]
    exact fails_ok _
  | (_, j) :: ms => by
    rw [columnsFromMembers]
    exact (columnsFrom_plain found j).bind fun found => columnsFromMembers_plain found ms

end

theorem columns_plain (j : Json) : (columns j).Plain := columnsFrom_plain [] j

end ParseTree

/-! ### References -/

namespace FkAction

theorem ofCode_plain (code entity : Json) : (ofCode code entity).Plain := by
  unfold ofCode
  extract_lets rest
  have hrest : ∀ key, (rest key).Plain := by
    intro key
    unfold rest
    split
    · exact fails_ok _
    · exact fails_error rfl
  exact Fails.ite (code.key_plain.bind hrest) ((fails_ok _).bind hrest)

theorem toOption_ofCode (code entity entity' : Json) :
    (ofCode code entity).toOption = (ofCode code entity').toOption := by
  unfold ofCode
  extract_lets rest rest'
  have hrest : ∀ key, (rest key).toOption = (rest' key).toOption := by
    intro key
    unfold rest rest'
    cases key.str?.bind fun s => codes.lookup s with
    | some action => rfl
    | none => rfl
  split
  · rw [toOption_bind, toOption_bind]
    simp only [hrest]
  · exact hrest (.str "")

end FkAction

namespace ForeignKey.Draft

/-- A reference has no counterpart only if it is one of several columns together. -/
theorem ofConstraint_fails (body : Members) (entity : Json) :
    (ofConstraint body entity).Fails fun fault =>
      fault.isUnsupported = true → ∃ detail, fault = .unsupported composite detail := by
  have hplain : ∀ {α : Type} {r : Read α}, r.Plain → r.Fails fun fault =>
      fault.isUnsupported = true → ∃ detail, fault = .unsupported composite detail := by
    intro α r h
    refine h.mono fun fault hno hyes => ?_
    rw [hno] at hyes
    cases hyes
  unfold ofConstraint
  extract_lets pktable rest
  have hrest : ∀ table, (rest table).Fails fun fault =>
      fault.isUnsupported = true → ∃ detail, fault = .unsupported composite detail := by
    intro table
    refine .ite (hplain (fails_error rfl)) ?_
    refine (hplain (Node.strings_plain _)).bind fun targets =>
      (hplain (Node.strings_plain _)).bind fun sources => .ite ?_ ?_
    · exact (hplain (Node.join_plain _ _)).bind fun _ => fails_error fun _ => ⟨_, rfl⟩
    · exact (hplain (FkAction.ofCode_plain _ _)).bind fun _ =>
        (hplain (FkAction.ofCode_plain _ _)).bind fun _ => fails_ok _
  exact .ite ((hplain (pktable.members_plain.map _)).bind hrest) ((fails_ok _).bind hrest)

theorem toOption_ofConstraint (body : Members) (entity entity' : Json) :
    (ofConstraint body entity).toOption = (ofConstraint body entity').toOption := by
  unfold ofConstraint
  extract_lets pktable rest rest'
  have hrest : ∀ table, (rest table).toOption = (rest' table).toOption := by
    intro table
    unfold rest rest'
    split
    · rfl
    · simp only [toOption_bind]
      congr 1
      funext targets
      congr 1
      funext sources
      split
      · rfl
      · rw [toOption_bind, toOption_bind, FkAction.toOption_ofCode _ entity entity']
        congr 1
        funext onDelete
        rw [toOption_bind, toOption_bind, FkAction.toOption_ofCode _ entity entity']
  split
  · rw [toOption_bind, toOption_bind]
    simp only [hrest]
  · exact hrest .null

end ForeignKey.Draft

end StrictDdl
