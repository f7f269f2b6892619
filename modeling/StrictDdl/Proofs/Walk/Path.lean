import Mathlib.Data.List.Chain
import Mathlib.Data.List.Nodup
import StrictDdl.Proofs.Walk

/-! The paths of a walk.

Every key has at most one next key, so from a key there is one way to go. A walk arrives
exactly if a key that stops can be reached (`Walk.arrives_iff`), and it comes back exactly if a key
that leads back to itself can be (`Walk.returns_iff`). The path that is told is the way itself: up
to the key that stops (`Walk.run_eq_arrived_iff`), or up to the first key that is met for the
second time (`Walk.run_eq_cycle_iff`). -/
namespace StrictDdl.Walk

open Relation

/-- A way from a key, each key leading to the next, up to the last one. -/
structure Reaches {κ : Type} (R : κ → κ → Prop) (k : κ) (path : List κ) (last : κ) : Prop where
  head : path.head? = some k
  leads : path.IsChain R
  last : path.getLast? = some last

/-- A way from a key that ends where it meets a key for the second time. -/
structure Returns {κ : Type} (R : κ → κ → Prop) (k : κ) (path : List κ) : Prop where
  head : path.head? = some k
  leads : path.IsChain R
  fresh : path.dropLast.Nodup
  again : ∃ last ∈ path.dropLast, path.getLast? = some last

section Ways

variable {κ : Type} {R : κ → κ → Prop} {k last : κ} {path : List κ}

theorem Reaches.reflTransGen (h : Reaches R k path last) : ReflTransGen R k last := by
  obtain ⟨rest, rfl⟩ := List.head?_eq_some_iff.1 h.head
  have hlast : (k :: rest).getLast (List.cons_ne_nil _ _) = last := by
    have := h.last
    rwa [List.getLast?_eq_some_getLast (List.cons_ne_nil _ _), Option.some_inj] at this
  rw [← hlast]
  exact List.relationReflTransGen_of_exists_isChain_cons rest h.leads rfl

theorem exists_reaches (h : ReflTransGen R k last) : ∃ path, Reaches R k path last := by
  obtain ⟨rest, hchain, hlast⟩ := List.exists_isChain_cons_of_relationReflTransGen h
  refine ⟨k :: rest, rfl, hchain, ?_⟩
  rw [List.getLast?_eq_some_getLast (List.cons_ne_nil _ _), hlast]

/-- The key that is met again can be reached, and leads back to itself. -/
theorem Returns.transGen (h : Returns R k path) :
    ∃ l, ReflTransGen R k l ∧ TransGen R l l := by
  -- The way is cut where the last key was met first.
  obtain ⟨last, hmem, hlast⟩ := h.again
  obtain ⟨before, rfl⟩ := List.getLast?_eq_some_iff.1 hlast
  rw [List.dropLast_concat] at hmem
  obtain ⟨first, rest, rfl⟩ := List.append_of_mem hmem
  have hleads := h.leads
  rw [List.append_assoc, List.cons_append] at hleads
  have hfirst : Reaches R k (first ++ [last]) last := by
    refine ⟨?_, (List.isChain_split.1 hleads).1, List.getLast?_concat⟩
    have := h.head
    cases first with
    | nil => simpa using this
    | cons a first => simpa using this
  have hback : (last :: (rest ++ [last])).IsChain R := (List.isChain_split.1 hleads).2
  refine ⟨last, hfirst.reflTransGen, ?_⟩
  cases rest with
  | nil => exact .single (List.isChain_pair.1 hback)
  | cons b rest =>
    obtain ⟨hb, hrest⟩ := List.isChain_cons_cons.1 hback
    have hreaches : Reaches R b (b :: rest ++ [last]) last := ⟨rfl, hrest, List.getLast?_concat⟩
    exact TransGen.head' hb hreaches.reflTransGen

end Ways

variable {κ α : Type} {w : Walk κ α} {k l : κ} {path : List κ} {r : α}

/-! ### There is only one way -/

/-- A key and the next one. -/
def Leads (w : Walk κ α) (k next : κ) : Prop := w.step k = .go next

theorem rightUnique_leads (w : Walk κ α) : Relator.RightUnique w.Leads := by
  intro k l l' h h'
  rw [Leads, h, Step.go.injEq] at h'
  exact h'

theorem not_leads_of_stop {next : κ} (hstop : w.step l = .stop r) : ¬ w.Leads l next := by
  rw [Leads, hstop]
  nofun

/-- What can be reached leads to where the way stops. -/
theorem reflTransGen_of_stop (hl : ReflTransGen w.Leads k l) (hstop : w.step l = .stop r) {m : κ}
    (hm : ReflTransGen w.Leads k m) : ReflTransGen w.Leads m l := by
  rcases ReflTransGen.total_of_right_unique w.rightUnique_leads hl hm with h | h
  · rcases h.cases_head with rfl | ⟨next, hnext, _⟩
    · exact .refl
    · exact absurd hnext (not_leads_of_stop hstop)
  · exact h

/-- A way that stops never comes back. -/
theorem not_transGen_of_stop (hl : ReflTransGen w.Leads k l) (hstop : w.step l = .stop r) :
    ¬ TransGen w.Leads k k := by
  induction hl using ReflTransGen.head_induction_on with
  | refl =>
    intro hback
    obtain ⟨next, hnext, _⟩ := TransGen.head'_iff.1 hback
    exact not_leads_of_stop hstop hnext
  | @head a b hab _ ih =>
    intro hback
    obtain ⟨next, hnext, hrest⟩ := TransGen.head'_iff.1 hback
    obtain rfl := w.rightUnique_leads hab hnext
    exact ih (TransGen.tail' hrest hab)

/-- No key is met twice on a way that stops. -/
theorem Reaches.nodup (h : Reaches w.Leads k path l) (hstop : w.step l = .stop r) : path.Nodup := by
  -- A key that is met twice leads back to itself, but also to the key that stops.
  obtain ⟨before, rfl⟩ := List.getLast?_eq_some_iff.1 h.last
  have hpairs : (before ++ [l]).Pairwise (TransGen w.Leads) :=
    List.isChain_iff_pairwise.1 (h.leads.imp fun _ _ => TransGen.single)
  rw [List.pairwise_append] at hpairs
  have hreach : ∀ b ∈ before, ReflTransGen w.Leads b l := fun b hb =>
    (hpairs.2.2 b hb l (List.mem_singleton_self l)).to_reflTransGen
  refine List.nodup_append.2 ⟨?_, List.nodup_singleton l, ?_⟩
  · refine hpairs.1.imp_of_mem fun {b c} hb _ hbc heq => ?_
    subst heq
    exact not_transGen_of_stop (hreach b hb) hstop hbc
  · rintro b hb c hc rfl
    obtain rfl := List.mem_singleton.1 hc
    exact not_transGen_of_stop .refl hstop (hpairs.2.2 b hb b hc)

/-! ### What a run tells -/

/-- How a walk from a key ends, and what it tells of its way. -/
inductive Course (w : Walk κ α) (k : κ) : Arrival κ α → Prop where
  | arrived {path : List κ} {l : κ} {r : α} : Reaches w.Leads k path l → w.step l = .stop r →
    Course w k (.arrived path r)
  | cycle {path : List κ} : Returns w.Leads k path → Course w k (.cycle path)

variable [DecidableEq κ]

/-- The keys that were seen are the way so far. -/
theorem course_go {start : κ} (seen : List κ) (k : κ) (hhead : (seen.reverse ++ [k]).head? = some start)
    (hleads : (seen.reverse ++ [k]).IsChain w.Leads) (hfresh : seen.Nodup) :
    w.Course start (w.go seen k) := by
  induction seen, k using go.induct w with
  | case1 seen k hmem =>
    rw [go_of_mem hmem]
    refine .cycle ⟨hhead, hleads, ?_, k, ?_, List.getLast?_concat⟩
    · rw [List.dropLast_concat]
      exact List.nodup_reverse.2 hfresh
    · rw [List.dropLast_concat]
      exact List.mem_reverse.2 hmem
  | case2 seen k hmem result hstep =>
    rw [go_of_stop hmem hstep]
    exact .arrived ⟨hhead, hleads, List.getLast?_concat⟩ hstep
  | case3 seen k hmem next hstep ih =>
    rw [go_of_go hmem hstep]
    refine ih ?_ ?_ (List.nodup_cons.2 ⟨hmem, hfresh⟩)
    · rw [List.reverse_cons, List.head?_append, hhead]
      rfl
    · rw [List.reverse_cons, List.append_assoc, List.singleton_append]
      exact List.isChain_split.2 ⟨hleads, List.isChain_pair.2 hstep⟩

/-- **Every walk ends, and tells the way it took.** -/
theorem course_run (w : Walk κ α) (k : κ) : w.Course k (w.run k) :=
  course_go [] k rfl (List.isChain_singleton k) List.nodup_nil

/-- The way to a key that stops is told. -/
theorem go_eq_arrived (seen : List κ) {rest : List κ} (hleads : (k :: rest).IsChain w.Leads)
    (hlast : (k :: rest).getLast? = some l) (hfresh : (seen.reverse ++ k :: rest).Nodup)
    (hstop : w.step l = .stop r) : w.go seen k = .arrived (seen.reverse ++ k :: rest) r := by
  have hk : k ∉ seen := fun hmem =>
    (List.nodup_append.1 hfresh).2.2 k (List.mem_reverse.2 hmem) k (List.mem_cons_self ..) rfl
  induction rest generalizing seen k with
  | nil =>
    obtain rfl : k = l := by simpa using hlast
    exact go_of_stop hk hstop
  | cons next rest ih =>
    obtain ⟨hnext, hrest⟩ := List.isChain_cons_cons.1 hleads
    have happend : seen.reverse ++ k :: next :: rest = (k :: seen).reverse ++ next :: rest := by simp
    rw [happend] at hfresh ⊢
    rw [go_of_go hk hnext]
    refine ih _ hrest (by simpa using hlast) hfresh fun hmem => ?_
    exact (List.nodup_append.1 hfresh).2.2 next (List.mem_reverse.2 hmem) next
      (List.mem_cons_self ..) rfl

/-- The way to the first key that is met again is told. -/
theorem go_eq_cycle (seen : List κ) {before : List κ} (hhead : (before ++ [l]).head? = some k)
    (hleads : (before ++ [l]).IsChain w.Leads) (hfresh : (seen.reverse ++ before).Nodup)
    (hagain : l ∈ seen.reverse ++ before) :
    w.go seen k = .cycle (seen.reverse ++ before ++ [l]) := by
  induction before generalizing seen k with
  | nil =>
    obtain rfl : l = k := by simpa using hhead
    rw [List.append_nil] at hagain ⊢
    exact go_of_mem (List.mem_reverse.1 hagain)
  | cons b before ih =>
    obtain rfl : b = k := by simpa using hhead
    have hk : b ∉ seen := fun hmem =>
      (List.nodup_append.1 hfresh).2.2 b (List.mem_reverse.2 hmem) b (List.mem_cons_self ..) rfl
    have happend : seen.reverse ++ b :: before = (b :: seen).reverse ++ before := by simp
    obtain ⟨next, hnext⟩ : ∃ next, (before ++ [l]).head? = some next := by
      cases before with
      | nil => exact ⟨l, rfl⟩
      | cons c before => exact ⟨c, rfl⟩
    obtain ⟨hstep, hrest⟩ := List.isChain_cons.1 hleads
    rw [happend] at hfresh hagain ⊢
    rw [go_of_go hk (hstep next hnext)]
    exact ih _ hnext hrest hfresh hagain

/-- **A walk tells the way to the key that stops.** -/
theorem run_eq_arrived_iff :
    w.run k = .arrived path r ↔ ∃ l, Reaches w.Leads k path l ∧ w.step l = .stop r := by
  constructor
  · intro h
    have hcourse := w.course_run k
    rw [h] at hcourse
    cases hcourse with
    | arrived hreaches hstop => exact ⟨_, hreaches, hstop⟩
  · rintro ⟨l, hreaches, hstop⟩
    have hfresh := hreaches.nodup hstop
    obtain ⟨rest, rfl⟩ := List.head?_eq_some_iff.1 hreaches.head
    exact go_eq_arrived [] hreaches.leads hreaches.last hfresh hstop

/-- **A walk tells the way to the first key that is met again.** -/
theorem run_eq_cycle_iff : w.run k = .cycle path ↔ Returns w.Leads k path := by
  constructor
  · intro h
    have hcourse := w.course_run k
    rw [h] at hcourse
    cases hcourse with
    | cycle hreturns => exact hreturns
  · rintro ⟨hhead, hleads, hfresh, last, hmem, hlast⟩
    obtain ⟨before, rfl⟩ := List.getLast?_eq_some_iff.1 hlast
    rw [List.dropLast_concat] at hfresh hmem
    exact go_eq_cycle [] hhead hleads hfresh hmem

/-- **A walk arrives exactly if a key that stops can be reached.** -/
theorem arrives_iff :
    (∃ path, w.run k = .arrived path r) ↔ ∃ l, ReflTransGen w.Leads k l ∧ w.step l = .stop r := by
  constructor
  · rintro ⟨path, h⟩
    obtain ⟨l, hreaches, hstop⟩ := run_eq_arrived_iff.1 h
    exact ⟨l, hreaches.reflTransGen, hstop⟩
  · rintro ⟨l, hl, hstop⟩
    obtain ⟨path, hreaches⟩ := exists_reaches hl
    exact ⟨path, run_eq_arrived_iff.2 ⟨l, hreaches, hstop⟩⟩

/-- **A walk comes back exactly if a key that leads back to itself can be reached.** -/
theorem returns_iff :
    (∃ path, w.run k = .cycle path) ↔ ∃ l, ReflTransGen w.Leads k l ∧ TransGen w.Leads l l := by
  constructor
  · rintro ⟨path, h⟩
    exact (run_eq_cycle_iff.1 h).transGen
  · rintro ⟨l, hl, hback⟩
    have hcourse := w.course_run k
    generalize w.run k = arrival at hcourse
    cases hcourse with
    | cycle _ => exact ⟨_, rfl⟩
    | arrived hreaches hstop =>
      have hstops := reflTransGen_of_stop hreaches.reflTransGen hstop hl
      exact absurd hback (not_transGen_of_stop hstops hstop)

end StrictDdl.Walk
