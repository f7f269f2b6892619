import Mathlib.Data.List.Forall2
import StrictDdl.Journal
import StrictDdl.Lenient

/-! How the steps of a conversion end.

Each lemma takes one way of putting steps together apart: the whole ends with a value
exactly when its parts end with values that fit together. -/
namespace StrictDdl

/-- In lists that fit together, every item on the left has one on the right. -/
theorem exists_of_forall₂ {α β : Type} {R : α → β → Prop} {as : List α} {bs : List β}
    (h : List.Forall₂ R as bs) {a : α} (ha : a ∈ as) : ∃ b ∈ bs, R a b := by
  induction h with
  | nil => cases ha
  | @cons a' b as bs head _ ih =>
    rcases List.mem_cons.1 ha with rfl | ha
    · exact ⟨b, List.mem_cons_self .., head⟩
    · obtain ⟨b', hb', hR⟩ := ih ha
      exact ⟨b', List.mem_cons_of_mem _ hb', hR⟩

/-- Lists that fit together have the same image under views that agree on what fits. -/
theorem map_eq_of_forall₂ {α β γ : Type} {R : α → β → Prop} {f : α → γ} {g : β → γ} {as : List α}
    {bs : List β} (h : List.Forall₂ R as bs) (hR : ∀ a ∈ as, ∀ b, R a b → g b = f a) :
    bs.map g = as.map f := by
  induction h with
  | nil => rfl
  | @cons a b as bs head _ ih =>
    rw [List.map_cons, List.map_cons, hR a (List.mem_cons_self ..) b head,
      ih fun a' ha' => hR a' (List.mem_cons_of_mem _ ha')]

/-- In lists that fit together, all items on the left are of a kind exactly if all on the right
are of the kind that fits it. -/
theorem forall_mem_iff_of_forall₂ {α β : Type} {R : α → β → Prop} {P : α → Prop} {Q : β → Prop}
    {as : List α} {bs : List β} (h : List.Forall₂ R as bs)
    (hR : ∀ a ∈ as, ∀ b, R a b → (P a ↔ Q b)) : (∀ a ∈ as, P a) ↔ ∀ b ∈ bs, Q b := by
  induction h with
  | nil => simp
  | @cons a b as bs head _ ih =>
    rw [List.forall_mem_cons, List.forall_mem_cons, hR a (List.mem_cons_self ..) b head,
      ih fun a' ha' => hR a' (List.mem_cons_of_mem _ ha')]

/-- Items that fit in one way fit in another. -/
theorem forall₂_imp_of_mem {α β : Type} {R S : α → β → Prop} {as : List α} {bs : List β}
    (h : List.Forall₂ R as bs) (hRS : ∀ a ∈ as, ∀ b ∈ bs, R a b → S a b) :
    List.Forall₂ S as bs := by
  induction h with
  | nil => exact .nil
  | @cons a b as bs hab _ ih =>
    refine .cons (hRS a (List.mem_cons_self ..) b (List.mem_cons_self ..) hab) (ih ?_)
    exact fun a' ha b' hb => hRS a' (List.mem_cons_of_mem _ ha) b' (List.mem_cons_of_mem _ hb)

/-- Lists that fit to the same list fit to each other. -/
theorem forall₂_comp {α β γ : Type} {R : α → β → Prop} {S : β → γ → Prop} {T : α → γ → Prop}
    {as : List α} {bs : List β} {cs : List γ} (hR : List.Forall₂ R as bs)
    (hS : List.Forall₂ S bs cs)
    (hT : ∀ a ∈ as, ∀ b ∈ bs, ∀ c, R a b → S b c → T a c) : List.Forall₂ T as cs := by
  induction hR generalizing cs with
  | nil =>
    cases hS
    exact .nil
  | @cons a b as bs hab _ ih =>
    obtain ⟨c, cs, hbc, hrest, rfl⟩ := List.forall₂_cons_left_iff.1 hS
    refine .cons (hT a (List.mem_cons_self ..) b (List.mem_cons_self ..) c hab hbc) (ih hrest ?_)
    exact fun a' ha b' hb => hT a' (List.mem_cons_of_mem _ ha) b' (List.mem_cons_of_mem _ hb)

/-- A change of the values of some entries is a change of every value that is found. -/
theorem lookup_map_values {α β : Type} (f : α → β) (entries : List (String × α)) (key : String) :
    (entries.map fun (name, a) => (name, f a)).lookup key = (entries.lookup key).map f := by
  induction entries with
  | nil => rfl
  | cons entry entries ih =>
    obtain ⟨name, a⟩ := entry
    rw [List.map_cons, List.lookup_cons, List.lookup_cons]
    split
    · rfl
    · exact ih

/-- A way for steps to end with a value that takes them apart: steps put together end so
exactly when each of them does. -/
structure Ending (m : Type → Type) [Monad m] (Ends : ∀ α : Type, m α → α → Prop) : Prop where
  pure_iff {α : Type} {a b : α} : Ends α (pure a) b ↔ a = b
  bind_iff {α β : Type} {step : m α} {next : α → m β} {b : β} :
    Ends β (step >>= next) b ↔ ∃ a, Ends α step a ∧ Ends β (next a) b

namespace Ending

variable {m : Type → Type} [Monad m] {Ends : ∀ α : Type, m α → α → Prop} {α β : Type}

theorem mapM_iff [LawfulMonad m] (h : Ending m Ends) {f : α → m β} {as : List α} {bs : List β} :
    Ends (List β) (as.mapM f) bs ↔ List.Forall₂ (fun a b => Ends β (f a) b) as bs := by
  induction as generalizing bs with
  | nil =>
    rw [List.mapM_nil, List.forall₂_nil_left_iff, h.pure_iff]
    exact eq_comm
  | cons a as ih =>
    rw [List.mapM_cons, h.bind_iff, List.forall₂_cons_left_iff]
    constructor
    · rintro ⟨b, hb, hrest⟩
      obtain ⟨bs, hbs, hpure⟩ := h.bind_iff.1 hrest
      obtain rfl := h.pure_iff.1 hpure
      exact ⟨b, bs, hb, ih.1 hbs, rfl⟩
    · rintro ⟨b, bs, hb, hbs, rfl⟩
      exact ⟨b, hb, h.bind_iff.2 ⟨bs, ih.2 hbs, h.pure_iff.2 rfl⟩⟩

/-- One step after another, where it does not matter how the first one ends for the second to
end. -/
theorem exists_bind_iff (h : Ending m Ends) {step : m α} {next : α → m β} {p : Prop}
    (hnext : ∀ a, (∃ b, Ends β (next a) b) ↔ p) :
    (∃ b, Ends β (step >>= next) b) ↔ (∃ a, Ends α step a) ∧ p := by
  constructor
  · rintro ⟨b, hb⟩
    obtain ⟨a, ha, hb⟩ := h.bind_iff.1 hb
    exact ⟨⟨a, ha⟩, (hnext a).1 ⟨b, hb⟩⟩
  · rintro ⟨⟨a, ha⟩, hp⟩
    obtain ⟨b, hb⟩ := (hnext a).2 hp
    exact ⟨b, h.bind_iff.2 ⟨a, ha, hb⟩⟩

/-- The last step of a sequence, after which something is returned. -/
theorem exists_map_iff (h : Ending m Ends) {step : m α} {f : α → β} :
    (∃ b, Ends β (step >>= fun a => pure (f a)) b) ↔ ∃ a, Ends α step a := by
  rw [h.exists_bind_iff fun a => iff_of_true ⟨f a, h.pure_iff.2 rfl⟩ trivial, and_true]

theorem exists_mapM_iff [LawfulMonad m] (h : Ending m Ends) {f : α → m β} {as : List α} :
    (∃ bs, Ends (List β) (as.mapM f) bs) ↔ ∀ a ∈ as, ∃ b, Ends β (f a) b := by
  induction as with
  | nil => exact iff_of_true ⟨[], h.mapM_iff.2 .nil⟩ (by simp)
  | cons a as ih =>
    rw [List.mapM_cons, List.forall_mem_cons, ← ih]
    exact h.exists_bind_iff fun _ => h.exists_map_iff

theorem forM_iff (h : Ending m Ends) {f : α → m Unit} {as : List α} :
    Ends Unit (as.forM f) () ↔ ∀ a ∈ as, Ends Unit (f a) () := by
  induction as with
  | nil => exact ⟨fun _ => by simp, fun _ => h.pure_iff.2 rfl⟩
  | cons a as ih =>
    show Ends Unit (f a >>= fun _ => as.forM f) () ↔ _
    rw [h.bind_iff, List.forall_mem_cons, ← ih]
    exact ⟨fun ⟨_, ha, has⟩ => ⟨ha, has⟩, fun ⟨ha, has⟩ => ⟨(), ha, has⟩⟩

/-- What holds at the start and survives every step of a loop holds at its end. -/
theorem foldlM_invariant (h : Ending m Ends) {P : β → Prop} {f : β → α → m β} {as : List α}
    {b b' : β} (hstep : ∀ b a b', a ∈ as → P b → Ends β (f b a) b' → P b') (hb : P b)
    (hend : Ends β (as.foldlM f b) b') : P b' := by
  induction as generalizing b with
  | nil =>
    obtain rfl := h.pure_iff.1 hend
    exact hb
  | cons a as ih =>
    rw [List.foldlM_cons] at hend
    obtain ⟨c, hc, hrest⟩ := h.bind_iff.1 hend
    exact ih (fun b a b' ha => hstep b a b' (List.mem_cons_of_mem _ ha))
      (hstep b a c (List.mem_cons_self ..) hb hc) hrest

theorem option : Ending Option fun _ a? a => a? = some a where
  pure_iff := Option.some_inj
  bind_iff := Option.bind_eq_some_iff

end Ending

namespace Read

variable {α β : Type}

theorem exists_of_isOk {r : Read α} (h : r.isOk = true) : ∃ a, r = .ok a := by
  cases r with
  | ok a => exact ⟨a, rfl⟩
  | error fault => cases h

theorem eq_ok_of_toOption {r : Read α} {a : α} (h : r.toOption = some a) : r = .ok a := by
  cases r with
  | ok a' =>
    cases h
    rfl
  | error fault => cases h

theorem bind_eq_ok_iff {r : Read α} {f : α → Read β} {b : β} :
    (r >>= f) = .ok b ↔ ∃ a, r = .ok a ∧ f a = .ok b := by
  cases r with
  | ok a => simp [bind, Except.bind]
  | error fault => simp [bind, Except.bind]

theorem map_eq_ok_iff {r : Read α} {f : α → β} {b : β} :
    r.map f = .ok b ↔ ∃ a, r = .ok a ∧ f a = b := by
  cases r with
  | ok a => simp [Except.map]
  | error fault => simp [Except.map]

theorem ending : Ending Read fun _ r a => r = .ok a where
  pure_iff := ⟨Except.ok.inj, congrArg Except.ok⟩
  bind_iff := bind_eq_ok_iff

theorem mapM_eq_ok_iff {f : α → Read β} {as : List α} {bs : List β} :
    as.mapM f = .ok bs ↔ List.Forall₂ (fun a b => f a = .ok b) as bs :=
  ending.mapM_iff

theorem forM_eq_ok_iff {f : α → Read Unit} {as : List α} :
    as.forM f = .ok () ↔ ∀ a ∈ as, f a = .ok () :=
  ending.forM_iff

end Read

namespace Lenient

variable {α β : Type}

theorem map_eq_ok_iff {r : Lenient α} {f : α → β} {b : β} :
    r.map f = .ok b ↔ ∃ a, r = .ok a ∧ f a = b := by
  cases r with
  | ok a => simp [map]
  | refused problems => simp [map]

@[simp] theorem under_eq_ok_iff {r : Lenient α} {step : String} {a : α} :
    r.under step = .ok a ↔ r = .ok a := by
  cases r with
  | ok a => simp [under]
  | refused problems => simp [under]

theorem and_eq_ok_iff {f : Lenient (α → β)} {r : Lenient α} {b : β} :
    f.and r = .ok b ↔ ∃ g a, f = .ok g ∧ r = .ok a ∧ g a = b := by
  cases f with
  | ok g => cases r <;> simp [and]
  | refused problems => cases r <;> simp [and]

theorem toRead_eq_ok_iff {r : Lenient α} {a : α} : r.toRead = .ok a ↔ r = .ok a := by
  cases r with
  | ok a => simp [toRead]
  | refused problems => simp [toRead]

theorem text_eq_ok_iff {j : Json} {s : String} : text j = .ok s ↔ j = .str s := by
  cases j <;> simp [text, refuse]

theorem fullText_eq_ok_iff {j : Json} {s : String} : fullText j = .ok s ↔ j = .str s ∧ s ≠ "" := by
  cases j with
  | str s' => by_cases hs' : s' = "" <;> grind [fullText, andThen, text, refuse]
  | _ => simp [fullText, andThen, text, refuse]

theorem eq_str_of_fullText {j : Json} {s : String} (h : fullText j = .ok s) : j = .str s :=
  (fullText_eq_ok_iff.1 h).1

/-- Items that are read are read one by one. -/
theorem forall₂_of_each {read : α → Lenient β} {position : Nat} {as : List α} {bs : List β}
    (h : each read position as = .ok bs) : List.Forall₂ (fun a b => read a = .ok b) as bs := by
  induction as generalizing position bs with
  | nil =>
    cases h
    exact .nil
  | cons a as ih =>
    rw [each] at h
    obtain ⟨g, rest, hg, hrest, rfl⟩ := and_eq_ok_iff.1 h
    obtain ⟨b, hb, rfl⟩ := map_eq_ok_iff.1 hg
    exact .cons (under_eq_ok_iff.1 hb) (ih hrest)

theorem eq_map_str_of_each_text {position : Nat} {js : List Json} {texts : List String}
    (h : each text position js = .ok texts) : js = texts.map .str := by
  rw [← List.forall₂_eq_eq_eq, List.forall₂_map_right_iff]
  exact (forall₂_of_each h).imp fun _ _ => text_eq_ok_iff.1

end Lenient

namespace Traced

variable {α β : Type}

theorem map_id (step : Traced α) : id <$> step = step := by
  obtain ⟨outcome, journal⟩ := step
  cases outcome with
  | ok a =>
    show Traced.mk (.ok a) (journal ++ []) = _
    rw [List.append_nil]
  | error fault => rfl

theorem bind_assoc {γ : Type} (step : Traced α) (f : α → Traced β) (g : β → Traced γ) :
    step >>= f >>= g = step >>= fun a => f a >>= g := by
  obtain ⟨outcome, journal⟩ := step
  cases outcome with
  | error fault => rfl
  | ok a =>
    show bind (after journal (f a)) g = after journal (bind (f a) g)
    unfold bind after
    cases (f a).outcome with
    | error fault => rfl
    | ok b => simp only [List.append_assoc]

/-- Steps may be grouped in any way. -/
instance : LawfulMonad Traced := .mk' Traced map_id (fun _ _ => rfl) bind_assoc

@[simp] theorem outcome_pure (a : α) : (pure a : Traced α).outcome = .ok a := rfl

@[simp] theorem outcome_liftM (r : Read α) : (liftM r : Traced α).outcome = r := rfl

theorem bind_eq_ok_iff {step : Traced α} {next : α → Traced β} {b : β} :
    (step >>= next).outcome = .ok b ↔ ∃ a, step.outcome = .ok a ∧ (next a).outcome = .ok b := by
  rw [outcome_bind, Read.bind_eq_ok_iff]

theorem collecting_eq_ok_iff {step : Traced α} {a : α} {markers : List Marker} :
    step.collecting.outcome = .ok (a, markers) ↔
      step.outcome = .ok a ∧ step.journal.markers = markers := by
  rw [collecting, Read.map_eq_ok_iff]
  constructor
  · rintro ⟨_, h, heq⟩
    cases heq
    exact ⟨h, rfl⟩
  · rintro ⟨h, rfl⟩
    exact ⟨a, h, rfl⟩

theorem ending : Ending Traced fun _ step a => step.outcome = .ok a where
  pure_iff := ⟨Except.ok.inj, congrArg Except.ok⟩
  bind_iff := bind_eq_ok_iff

theorem mapM_eq_ok_iff {f : α → Traced β} {as : List α} {bs : List β} :
    (as.mapM f).outcome = .ok bs ↔ List.Forall₂ (fun a b => (f a).outcome = .ok b) as bs :=
  ending.mapM_iff

theorem exists_mapM_eq_ok {f : α → Traced β} {as : List α}
    (h : ∀ a ∈ as, ∃ b, (f a).outcome = .ok b) : ∃ bs, (as.mapM f).outcome = .ok bs :=
  ending.exists_mapM_iff.2 h

theorem foldlM_invariant {P : β → Prop} {f : β → α → Traced β} {as : List α} {b b' : β}
    (hstep : ∀ b a b', a ∈ as → P b → (f b a).outcome = .ok b' → P b') (hb : P b)
    (h : (as.foldlM f b).outcome = .ok b') : P b' :=
  ending.foldlM_invariant hstep hb h

/-! ### Markers

What a sequence of steps sets is what each of them sets, in order. So a sequence avoids some
markers if its steps do (`Avoids`), and one that ends with a value and without these markers
is taken apart like one that ends with a value (`Without`). -/

theorem journal_bind {step : Traced α} {next : α → Traced β} {a : α} (h : step.outcome = .ok a) :
    (step >>= next).journal = step.journal ++ (next a).journal := by
  show (bind step next).journal = _
  simp only [bind, after, h]

theorem markers_bind {step : Traced α} {next : α → Traced β} {a : α} (h : step.outcome = .ok a) :
    (step >>= next).journal.markers = step.journal.markers ++ (next a).journal.markers := by
  rw [journal_bind h]
  exact List.filterMap_append

/-- The step ends with this value and sets exactly these markers. -/
def Sets (step : Traced α) (a : α) (markers : List Marker) : Prop :=
  step.outcome = .ok a ∧ step.journal.markers = markers

theorem pure_sets_iff {a b : α} {markers : List Marker} :
    (pure a : Traced α).Sets b markers ↔ a = b ∧ markers = [] := by
  constructor
  · rintro ⟨h, rfl⟩
    cases h
    exact ⟨rfl, rfl⟩
  · rintro ⟨rfl, rfl⟩
    exact ⟨rfl, rfl⟩

theorem bind_sets_iff {step : Traced α} {next : α → Traced β} {b : β} {markers : List Marker} :
    (step >>= next).Sets b markers ↔
      ∃ a first rest, step.Sets a first ∧ (next a).Sets b rest ∧ markers = first ++ rest := by
  constructor
  · rintro ⟨h, rfl⟩
    obtain ⟨a, ha, hb⟩ := bind_eq_ok_iff.1 h
    exact ⟨a, _, _, ⟨ha, rfl⟩, ⟨hb, rfl⟩, markers_bind ha⟩
  · rintro ⟨a, _, _, ⟨ha, rfl⟩, ⟨hb, rfl⟩, rfl⟩
    exact ⟨bind_eq_ok_iff.2 ⟨a, ha, hb⟩, markers_bind ha⟩

/-- Reading sets no markers. -/
theorem liftM_bind_sets_iff {r : Read α} {next : α → Traced β} {b : β} {markers : List Marker} :
    ((liftM r : Traced α) >>= next).Sets b markers ↔ ∃ a, r = .ok a ∧ (next a).Sets b markers := by
  constructor
  · intro h
    obtain ⟨a, _, rest, ⟨ha, rfl⟩, hb, rfl⟩ := bind_sets_iff.1 h
    exact ⟨a, ha, hb⟩
  · rintro ⟨a, ha, hb⟩
    exact bind_sets_iff.2 ⟨a, [], markers, ⟨ha, rfl⟩, hb, rfl⟩

theorem collecting_sets_iff {step : Traced α} {a : α} {collected markers : List Marker} :
    step.collecting.Sets (a, collected) markers ↔ step.Sets a markers ∧ collected = markers := by
  rw [Sets, collecting_eq_ok_iff]
  constructor
  · rintro ⟨⟨ha, rfl⟩, rfl⟩
    exact ⟨⟨ha, rfl⟩, rfl⟩
  · rintro ⟨⟨ha, rfl⟩, rfl⟩
    exact ⟨⟨ha, rfl⟩, rfl⟩

/-- Steps that are taken only sometimes before the rest, and the markers of the rest among all. -/
theorem sets_of_optional {R : List Marker → List Marker → Prop} {p : Prop} [Decidable p]
    {first rest : Traced β} {b : β} {markers : List Marker} (hrefl : R markers markers)
    (hfirst : first.Sets b markers → ∃ more, R more markers ∧ rest.Sets b more)
    (h : (if p then first else rest).Sets b markers) : ∃ more, R more markers ∧ rest.Sets b more := by
  split at h
  · exact hfirst h
  · exact ⟨markers, hrefl, h⟩

/-- Whatever comes of the step, it sets none of these markers. -/
def Avoids (q : Marker → Bool) (step : Traced α) : Prop := step.journal.markers.filter q = []

section Avoids

variable {q : Marker → Bool}

theorem Sets.filter_eq_nil {step : Traced α} {a : α} {markers : List Marker}
    (h : step.Sets a markers) (havoids : step.Avoids q) : markers.filter q = [] := by
  rw [← h.2]
  exact havoids

/-- Who avoids some markers avoids fewer. -/
theorem Avoids.mono {q' : Marker → Bool} {step : Traced α} (h : step.Avoids q)
    (hq : ∀ m, q' m = true → q m = true) : step.Avoids q' := by
  refine List.filter_eq_nil_iff.2 fun m hm hq' => ?_
  exact List.filter_eq_nil_iff.1 h m hm (hq m hq')

theorem avoids_pure (a : α) : (pure a : Traced α).Avoids q := rfl

theorem avoids_ofRead (r : Read α) : (ofRead r).Avoids q := rfl

theorem avoids_liftM (r : Read α) : (liftM r : Traced α).Avoids q := rfl

theorem avoids_record {place : Place} {event : Event} (h : event.marker? = none) :
    (record place event).Avoids q := by
  show List.filter q (List.filterMap (fun e : Entry => e.event.marker?) [⟨place, event⟩]) = []
  simp [h]

theorem avoids_mark {place : Place} {m : Marker} (h : q m = false) : (mark place m).Avoids q := by
  show List.filter q [m] = []
  simp [h]

theorem avoids_drop {m : Marker} (h : q m = false) : (drop m).Avoids q := by
  show List.filter q [m] = []
  simp [h]

theorem Avoids.bind {step : Traced α} {next : α → Traced β} (h : step.Avoids q)
    (hnext : ∀ a, (next a).Avoids q) : (step >>= next).Avoids q := by
  cases hok : step.outcome with
  | error fault =>
    have hjournal : (step >>= next).journal = step.journal := by
      show (Traced.bind step next).journal = _
      simp only [Traced.bind, hok]
    rw [Avoids, hjournal]
    exact h
  | ok a =>
    rw [Avoids, markers_bind hok, List.filter_append, h, hnext a]
    rfl

theorem Avoids.ite {p : Prop} [Decidable p] {first second : Traced α} (h : first.Avoids q)
    (h' : second.Avoids q) : (if p then first else second).Avoids q := by
  split
  · exact h
  · exact h'

/-- Steps that are taken only sometimes before the rest. -/
theorem Avoids.optional {p : Prop} [Decidable p] {first rest : Traced α}
    (hfirst : rest.Avoids q → first.Avoids q) (h : rest.Avoids q) :
    (if p then first else rest).Avoids q :=
  .ite (hfirst h) h

theorem avoids_forM {f : α → Traced Unit} {as : List α} (h : ∀ a, (f a).Avoids q) :
    (as.forM f).Avoids q := by
  induction as with
  | nil => exact avoids_pure ()
  | cons a as ih => exact (h a).bind fun _ => ih

theorem avoids_mapM {f : α → Traced β} {as : List α} (h : ∀ a, (f a).Avoids q) :
    (as.mapM f).Avoids q := by
  induction as with
  | nil => exact avoids_pure []
  | cons a as ih =>
    rw [List.mapM_cons]
    exact (h a).bind fun _ => ih.bind fun _ => avoids_pure _

theorem avoids_foldlM {f : β → α → Traced β} {as : List α} (h : ∀ b a, (f b a).Avoids q) (b : β) :
    (as.foldlM f b).Avoids q := by
  induction as generalizing b with
  | nil => exact avoids_pure b
  | cons a as ih =>
    rw [List.foldlM_cons]
    exact (h b a).bind ih

end Avoids

/-- The step ends with this value and sets none of these markers. -/
def Without (q : Marker → Bool) (step : Traced α) (a : α) : Prop :=
  step.outcome = .ok a ∧ step.Avoids q

theorem pure_without_iff {q : Marker → Bool} {a b : α} :
    (pure a : Traced α).Without q b ↔ a = b := by
  constructor
  · rintro ⟨h, _⟩
    cases h
    rfl
  · rintro rfl
    exact ⟨rfl, rfl⟩

theorem drop_without_iff {q : Marker → Bool} {m : Marker} :
    (drop m).Without q () ↔ q m = false := by
  constructor
  · rintro ⟨_, h⟩
    have hnil : List.filter q [m] = [] := h
    simpa using hnil
  · intro h
    refine ⟨rfl, ?_⟩
    show List.filter q [m] = []
    simp [h]

theorem bind_without_iff {q : Marker → Bool} {step : Traced α} {next : α → Traced β} {b : β} :
    (step >>= next).Without q b ↔ ∃ a, step.Without q a ∧ (next a).Without q b := by
  have hmarkers : ∀ a, step.outcome = .ok a →
      ((step >>= next).Avoids q ↔ step.Avoids q ∧ (next a).Avoids q) := by
    intro a ha
    rw [Avoids, markers_bind ha, List.filter_append, List.append_eq_nil_iff]
    rfl
  constructor
  · rintro ⟨hok, hnone⟩
    obtain ⟨a, ha, hb⟩ := bind_eq_ok_iff.1 hok
    obtain ⟨hstep, hnext⟩ := (hmarkers a ha).1 hnone
    exact ⟨a, ⟨ha, hstep⟩, hb, hnext⟩
  · rintro ⟨a, ⟨ha, hstep⟩, hb, hnext⟩
    exact ⟨bind_eq_ok_iff.2 ⟨a, ha, hb⟩, (hmarkers a ha).2 ⟨hstep, hnext⟩⟩

theorem withoutEnding (q : Marker → Bool) :
    Ending Traced fun _ step a => step.Without q a where
  pure_iff := pure_without_iff
  bind_iff := bind_without_iff

/-! ### Losing nothing -/

/-- The step ends with this value and sets no marker. -/
def Lossless (step : Traced α) (a : α) : Prop :=
  step.outcome = .ok a ∧ step.journal.markers = []

theorem lossless_iff {step : Traced α} {a : α} :
    step.Lossless a ↔ step.Without (fun _ => true) a := by
  rw [Lossless, Without, Avoids, List.filter_true]

theorem lossless_pure_iff {a b : α} : (pure a : Traced α).Lossless b ↔ a = b := by
  rw [lossless_iff, pure_without_iff]

theorem not_lossless_drop {m : Marker} : ¬ (drop m).Lossless () := by
  rintro ⟨_, h⟩
  cases h

theorem bind_lossless_iff {step : Traced α} {next : α → Traced β} {b : β} :
    (step >>= next).Lossless b ↔ ∃ a, step.Lossless a ∧ (next a).Lossless b := by
  simp only [lossless_iff]
  exact bind_without_iff

theorem losslessEnding : Ending Traced fun _ step a => step.Lossless a where
  pure_iff := lossless_pure_iff
  bind_iff := bind_lossless_iff

theorem mapM_lossless_iff {f : α → Traced β} {as : List α} {bs : List β} :
    (as.mapM f).Lossless bs ↔ List.Forall₂ (fun a b => (f a).Lossless b) as bs :=
  losslessEnding.mapM_iff

end Traced

end StrictDdl
