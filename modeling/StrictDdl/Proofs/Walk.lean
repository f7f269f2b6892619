import StrictDdl.Walk

/-! Walks that follow one another.

When every step of one walk is a step of another, and every end of the first is an end of
the second or leads there in one more step, the second walk arrives wherever the first
does (`Walk.run_simulates`). Walks whose steps fit together take the same path, whether or not
they arrive (`Walk.run_rel`). -/
namespace StrictDdl.Walk

variable {κ κ' α α' : Type} [DecidableEq κ] [DecidableEq κ']

theorem go_of_mem {w : Walk κ α} {seen : List κ} {k : κ} (h : k ∈ seen) :
    w.go seen k = .cycle (seen.reverse ++ [k]) := by
  rw [go, if_pos h]

theorem go_of_stop {w : Walk κ α} {seen : List κ} {k : κ} {result : α} (h : k ∉ seen)
    (hstep : w.step k = .stop result) : w.go seen k = .arrived (seen.reverse ++ [k]) result := by
  rw [go, if_neg h]
  split
  · rename_i r hr
    rw [hstep] at hr
    cases hr
    rfl
  · rename_i next hnext
    rw [hstep] at hnext
    cases hnext

theorem go_of_go {w : Walk κ α} {seen : List κ} {k next : κ} (h : k ∉ seen)
    (hstep : w.step k = .go next) : w.go seen k = w.go (k :: seen) next := by
  rw [go, if_neg h]
  split
  · rename_i r hr
    rw [hstep] at hr
    cases hr
  · rename_i next' hnext
    rw [hstep] at hnext
    cases hnext
    rfl

/-- A walk whose first key stops arrives there. -/
theorem run_of_stop {w : Walk κ α} {k : κ} {result : α} (hstep : w.step k = .stop result) :
    w.run k = .arrived [k] result := go_of_stop (by simp) hstep

theorem run_of_go_stop {w : Walk κ α} {k next : κ} {result : α} (hstep : w.step k = .go next)
    (hnext : w.step next = .stop result) : w.run k = .arrived [k, next] result := by
  have hne : next ∉ [k] := by
    intro hmem
    rw [List.mem_singleton.1 hmem, hstep] at hnext
    cases hnext
  exact (go_of_go (by simp) hstep).trans (go_of_stop hne hnext)

/-- A walk ends where some key says so. -/
theorem exists_stop_of_go {w : Walk κ α} (seen : List κ) (k : κ) {path : List κ} {r : α}
    (h : w.go seen k = .arrived path r) : ∃ l, w.step l = .stop r := by
  induction seen, k using go.induct w with
  | case1 seen k hmem =>
    rw [go_of_mem hmem] at h
    cases h
  | case2 seen k hfresh result hstep =>
    rw [go_of_stop hfresh hstep] at h
    cases h
    exact ⟨k, hstep⟩
  | case3 seen k hfresh next hstep ih =>
    rw [go_of_go hfresh hstep] at h
    exact ih h

theorem exists_stop_of_run {w : Walk κ α} {k : κ} {path : List κ} {r : α}
    (h : w.run k = .arrived path r) : ∃ l, w.step l = .stop r := exists_stop_of_go [] k h

/-- One walk behind another, key by key; `R` relates where they end. -/
structure Simulates (w : Walk κ α) (w' : Walk κ' α') (f : κ → κ') (R : α → α' → Prop) : Prop where
  injective : ∀ k l, f k = f l → k = l
  /-- Where the first walk stops, the second stops at once or behind one more key, which is
  none of the first. -/
  stop : ∀ k r, w.step k = .stop r → (∃ e, w'.step (f k) = .stop e ∧ R r e) ∨
    ∃ k' e, w'.step (f k) = .go k' ∧ (∀ l, f l ≠ k') ∧ w'.step k' = .stop e ∧ R r e
  /-- Where the first walk goes on, so does the second, unless it stops for good. -/
  go : ∀ k next, w.step k = .go next → w'.step (f k) = .go (f next) ∨
    ∃ e, w'.step (f k) = .stop e ∧ ∀ r, R r e

theorem go_simulates {w : Walk κ α} {w' : Walk κ' α'} {f : κ → κ'} {R : α → α' → Prop}
    (h : Simulates w w' f R) (seen : List κ) (k : κ) {path : List κ} {r : α}
    (hgo : w.go seen k = .arrived path r) :
    ∃ path' e, w'.go (seen.map f) (f k) = .arrived path' e ∧ R r e := by
  induction seen, k using go.induct w with
  | case1 seen k hmem =>
    rw [go_of_mem hmem] at hgo
    cases hgo
  | case2 seen k hfresh result hstep =>
    rw [go_of_stop hfresh hstep] at hgo
    cases hgo
    have hfresh' : f k ∉ seen.map f := by
      intro hmem
      obtain ⟨l, hl, heq⟩ := List.mem_map.1 hmem
      exact hfresh (h.injective l k heq ▸ hl)
    rcases h.stop k r hstep with ⟨e, he, hR⟩ | ⟨k', e, hk', hnew, he, hR⟩
    · exact ⟨_, e, go_of_stop hfresh' he, hR⟩
    · refine ⟨_, e, (go_of_go hfresh' hk').trans (go_of_stop ?_ he), hR⟩
      intro hmem
      rcases List.mem_cons.1 hmem with rfl | hmem
      · exact hnew k rfl
      · obtain ⟨l, _, heq⟩ := List.mem_map.1 hmem
        exact hnew l heq
  | case3 seen k hfresh next hstep ih =>
    rw [go_of_go hfresh hstep] at hgo
    have hfresh' : f k ∉ seen.map f := by
      intro hmem
      obtain ⟨l, hl, heq⟩ := List.mem_map.1 hmem
      exact hfresh (h.injective l k heq ▸ hl)
    rcases h.go k next hstep with hnext | ⟨e, he, hR⟩
    · rw [go_of_go hfresh' hnext, ← List.map_cons]
      exact ih hgo
    · exact ⟨_, e, go_of_stop hfresh' he, hR r⟩

/-- **A walk arrives wherever a walk it follows does.** -/
theorem run_simulates {w : Walk κ α} {w' : Walk κ' α'} {f : κ → κ'} {R : α → α' → Prop}
    (h : Simulates w w' f R) (k : κ) {path : List κ} {r : α} (hrun : w.run k = .arrived path r) :
    ∃ path' e, w'.run (f k) = .arrived path' e ∧ R r e := go_simulates h [] k hrun

/-! ### Walks in step -/

/-- Both steps go on to the same key, or both stop with results that fit. -/
inductive StepRel (R : α → α' → Prop) : Step κ α → Step κ α' → Prop where
  | stop {r : α} {r' : α'} : R r r' → StepRel R (.stop r) (.stop r')
  | go (next : κ) : StepRel R (.go next) (.go next)

/-- Both walks end behind the same path. -/
inductive ArrivalRel (R : α → α' → Prop) : Arrival κ α → Arrival κ α' → Prop where
  | arrived (path : List κ) {r : α} {r' : α'} : R r r' →
    ArrivalRel R (.arrived path r) (.arrived path r')
  | cycle (path : List κ) : ArrivalRel R (.cycle path) (.cycle path)

theorem go_rel {w : Walk κ α} {w' : Walk κ α'} {R : α → α' → Prop}
    (h : ∀ k, StepRel R (w.step k) (w'.step k)) (seen : List κ) (k : κ) :
    ArrivalRel R (w.go seen k) (w'.go seen k) := by
  induction seen, k using go.induct w with
  | case1 seen k hmem =>
    rw [go_of_mem hmem, go_of_mem hmem]
    exact .cycle _
  | case2 seen k hfresh result hstep =>
    have hk := h k
    rw [hstep] at hk
    generalize hstep' : w'.step k = step' at hk
    cases hk with
    | stop hR =>
      rw [go_of_stop hfresh hstep, go_of_stop hfresh hstep']
      exact .arrived _ hR
  | case3 seen k hfresh next hstep ih =>
    have hk := h k
    rw [hstep] at hk
    generalize hstep' : w'.step k = step' at hk
    cases hk with
    | go =>
      rw [go_of_go hfresh hstep, go_of_go hfresh hstep']
      exact ih

/-- **Walks whose steps fit together end behind the same path.** -/
theorem run_rel {w : Walk κ α} {w' : Walk κ α'} {R : α → α' → Prop}
    (h : ∀ k, StepRel R (w.step k) (w'.step k)) (k : κ) : ArrivalRel R (w.run k) (w'.run k) :=
  go_rel h [] k

end StrictDdl.Walk
