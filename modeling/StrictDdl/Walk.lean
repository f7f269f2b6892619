/-! Walks along references.

From a key one goes to the next until a key says to stop. Only keys of a finite
domain lead on, so a walk that never stops comes back to a key it has seen: it ends
with an arrival or with a cycle. Either way the path is told, the first key first
and the last key last. -/
namespace StrictDdl

/-- What a key says: stop with a result, or go on. -/
inductive Step (κ α : Type) where
  | stop (result : α)
  | go (next : κ)

/-- The end of a walk, with its path. -/
inductive Arrival (κ α : Type) where
  | arrived (path : List κ) (result : α)
  /-- The last key of the path is on it twice. -/
  | cycle (path : List κ)

/-- A way of walking; every key that leads on is in the domain. -/
structure Walk (κ α : Type) where
  step : κ → Step κ α
  domain : List κ
  covers : ∀ {k next : κ}, step k = .go next → k ∈ domain

namespace Walk

variable {κ α : Type} [DecidableEq κ]

theorem length_filter_cons_lt {domain seen : List κ} {k : κ} (h : k ∈ domain) (fresh : k ∉ seen) :
    (domain.filter (· ∉ k :: seen)).length < (domain.filter (· ∉ seen)).length := by
  induction domain with
  | nil => simp at h
  | cons a rest ih =>
    have le : (rest.filter (· ∉ k :: seen)).length ≤ (rest.filter (· ∉ seen)).length := by
      rw [← List.countP_eq_length_filter, ← List.countP_eq_length_filter]
      apply List.countP_mono_left
      simp +contextual
    rcases List.mem_cons.1 h with rfl | h
    · simp [fresh]
      simpa using Nat.lt_succ_of_le le
    · have lt := ih h
      by_cases ha : a = k
      · subst ha
        simp [fresh]
        simpa using Nat.lt_succ_of_le le
      · by_cases hs : a ∈ seen
        · simpa [ha, hs] using lt
        · simpa [ha, hs] using lt

/-- Goes on from a key; `seen` are the keys before it, the last one first. -/
def go (w : Walk κ α) (seen : List κ) (k : κ) : Arrival κ α :=
  if k ∈ seen then .cycle (seen.reverse ++ [k])
  else match _h : w.step k with
    | .stop result => .arrived (seen.reverse ++ [k]) result
    | .go next => w.go (k :: seen) next
termination_by (w.domain.filter (· ∉ seen)).length
decreasing_by
  exact length_filter_cons_lt (w.covers ‹_›) ‹_›

/-- Walks from a key. -/
def run (w : Walk κ α) (start : κ) : Arrival κ α := w.go [] start

end Walk

end StrictDdl
