import StrictDdl.Marker

/-! The journal of a conversion: what happened, in order, and which table and
column were being read at the time.

A step of a conversion ends with a value or with a fault, and has written into
the journal either way. What a step does never depends on what the journal holds
already, so the outcome of a sequence of steps is the sequence of their outcomes
(`outcome_bind`). -/
namespace StrictDdl

inductive Event where
  | enumRegistered (name : String) (labels : Nat)
  /-- The statement at the position declares an enumeration that is registered. -/
  | enumPassed (position : Nat)
  /-- Something was lost while the input was read. -/
  | marked (marker : Marker)
  /-- Something was lost while the output was written. -/
  | dropped (marker : Marker)
  | columnRead (entity source storage : String)
  | tableRead (table : Json) (columns : Nat)
  | modelBuilt (tables markers : Nat)
  | tableWritten (table : String)
  | ddlWritten (tables indexes : Nat)
  | documentWritten (tables definitions : Nat)
  | ddlRegenerated (tables indexes : Nat)
  | outputEmitted (markers : Nat)
  | completed (markers : Nat)

namespace Event

def marker? : Event → Option Marker
  | .marked m => some m
  | .dropped m => some m
  | _ => none

end Event

/-- The table and column that are being read; `null` outside of any. -/
structure Place where
  table : Json := .null
  column : Json := .null

structure Entry where
  place : Place
  event : Event

abbrev Journal := List Entry

namespace Journal

/-- The markers that were set. -/
def markers (j : Journal) : List Marker := j.filterMap fun e => e.event.marker?

end Journal

/-- A step of a conversion: how it ends, and what it writes until then. -/
structure Traced (α : Type) where
  outcome : Read α
  journal : Journal

namespace Traced

variable {α β : Type}

/-- The step with something written before it. -/
def after (written : Journal) (step : Traced α) : Traced α :=
  ⟨step.outcome, written ++ step.journal⟩

/-- One step after another; a fault ends the sequence. -/
def bind (step : Traced α) (next : α → Traced β) : Traced β :=
  match step.outcome with
  | .ok a => (next a).after step.journal
  | .error fault => ⟨.error fault, step.journal⟩

instance : Monad Traced where
  pure a := ⟨.ok a, []⟩
  bind := bind

/-- A step that writes nothing. -/
def ofRead (r : Read α) : Traced α := ⟨r, []⟩

instance : MonadLift (Except Fault) Traced := ⟨ofRead⟩

/-- Writes into the journal. -/
def record (place : Place) (event : Event) : Traced Unit := ⟨.ok (), [⟨place, event⟩]⟩

/-- Sets a marker for what the input loses. -/
def mark (place : Place) (m : Marker) : Traced Unit := record place (.marked m)

/-- Sets a marker for what the output loses. -/
def drop (m : Marker) : Traced Unit := record {} (.dropped m)

/-- The value of a step together with the markers it sets. -/
def collecting (step : Traced α) : Traced (α × List Marker) :=
  ⟨step.outcome.map fun a => (a, step.journal.markers), step.journal⟩

theorem outcome_bind (step : Traced α) (next : α → Traced β) :
    (step >>= next).outcome = (do (next (← step.outcome)).outcome) := by
  show (bind step next).outcome = _
  cases h : step.outcome <;> simp [bind, after, h, Bind.bind, Except.bind]

end Traced

end StrictDdl
