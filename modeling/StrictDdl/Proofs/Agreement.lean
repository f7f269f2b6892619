import StrictDdl.Proofs.Fault

/-! Two readings side by side.

Readings agree if both end with values that fit together or both fail on something malformed, never
on a construct without a counterpart. Whether they also fail in the same way and leave the same
journal is a parameter, `same`: two layouts of one tree do, two orders of its statements do not.
Readings that are put together in the same way from readings that agree agree (`Agrees.bind` and
the like). -/
namespace StrictDdl

/-- In lists that fit together, the first items of kinds that fit are found at the same place. -/
theorem find?_rel_of_forall₂ {α β : Type} {R : α → β → Prop} {p : α → Bool} {q : β → Bool}
    {as : List α} {bs : List β} (h : List.Forall₂ R as bs) (hpq : ∀ a b, R a b → q b = p a) :
    Option.Rel R (as.find? p) (bs.find? q) := by
  induction h with
  | nil => exact .none
  | @cons a b as bs hab _ ih =>
    rw [List.find?_cons, List.find?_cons, hpq a b hab]
    split
    · exact .some hab
    · exact ih

namespace Read

variable {α β γ δ : Type} {P : Fault → Prop} {same : Prop} {R : α → β → Prop} {S : γ → δ → Prop}

/-- Both readings end with values that fit, or both fail with such faults only. -/
inductive AgreesOn (P : Fault → Prop) (same : Prop) (R : α → β → Prop) :
    Read α → Read β → Prop where
  | ok {a : α} {b : β} : R a b → AgreesOn P same R (.ok a) (.ok b)
  | error {fault fault' : Fault} : P fault → P fault' → (same → fault = fault') →
    AgreesOn P same R (.error fault) (.error fault')

/-- Both readings end with values that fit, or both fail on something malformed. -/
abbrev Agrees (same : Prop) (R : α → β → Prop) : Read α → Read β → Prop :=
  AgreesOn (fun fault => fault.isUnsupported = false) same R

theorem Fails.agrees {r : Read α} (h : r.Fails P) : AgreesOn P same Eq r r := by
  cases r with
  | ok a => exact .ok rfl
  | error fault => exact .error (h fault rfl) (h fault rfl) fun _ => rfl

theorem Fails.agrees_of_eq {r r' : Read α} (h : r.Fails P) (heq : r' = r) :
    AgreesOn P same Eq r r' := by
  subst heq
  exact h.agrees

theorem AgreesOn.imp {R' : α → β → Prop} {r : Read α} {r' : Read β} (h : AgreesOn P same R r r')
    (hR : ∀ a b, R a b → R' a b) : AgreesOn P same R' r r' := by
  cases h with
  | ok hab => exact .ok (hR _ _ hab)
  | error hfault hfault' heq => exact .error hfault hfault' heq

theorem AgreesOn.mono {Q : Fault → Prop} {r : Read α} {r' : Read β} (h : AgreesOn P same R r r')
    (hPQ : ∀ fault, P fault → Q fault) : AgreesOn Q same R r r' := by
  cases h with
  | ok hab => exact .ok hab
  | error hfault hfault' heq => exact .error (hPQ _ hfault) (hPQ _ hfault') heq

/-- Readings that fail in the same way do so whenever it is asked for. -/
theorem AgreesOn.weaken {r : Read α} {r' : Read β} (h : AgreesOn P True R r r') :
    AgreesOn P same R r r' := by
  cases h with
  | ok hab => exact .ok hab
  | error hfault hfault' heq => exact .error hfault hfault' fun _ => heq trivial

theorem AgreesOn.bind {r : Read α} {r' : Read β} {next : α → Read γ} {next' : β → Read δ}
    (h : AgreesOn P same R r r') (hnext : ∀ a b, R a b → AgreesOn P same S (next a) (next' b)) :
    AgreesOn P same S (r >>= next) (r' >>= next') := by
  cases h with
  | ok hab => exact hnext _ _ hab
  | error hfault hfault' heq => exact .error hfault hfault' heq

/-- One reading after another that ends with the same value on both sides. -/
theorem AgreesOn.bind_eq {r r' : Read α} {next : α → Read γ} {next' : α → Read δ}
    (h : AgreesOn P same Eq r r') (hnext : ∀ a, AgreesOn P same S (next a) (next' a)) :
    AgreesOn P same S (r >>= next) (r' >>= next') :=
  h.bind fun a _ heq => heq ▸ hnext a

theorem AgreesOn.map {r : Read α} {r' : Read β} {f : α → γ} {g : β → δ}
    (h : AgreesOn P same R r r') (hfg : ∀ a b, R a b → S (f a) (g b)) :
    AgreesOn P same S (r.map f) (r'.map g) := by
  cases h with
  | ok hab => exact .ok (hfg _ _ hab)
  | error hfault hfault' heq => exact .error hfault hfault' heq

theorem AgreesOn.ite {p q : Prop} [Decidable p] [Decidable q] {r s : Read α} {r' s' : Read β}
    (hpq : p ↔ q) (h : AgreesOn P same R r r') (h' : AgreesOn P same R s s') :
    AgreesOn P same R (if p then r else s) (if q then r' else s') := by
  by_cases hp : p
  · rw [if_pos hp, if_pos (hpq.1 hp)]
    exact h
  · rw [if_neg hp, if_neg (mt hpq.2 hp)]
    exact h'

theorem agrees_mapM {f : α → Read γ} {g : β → Read δ} {as : List α} {bs : List β}
    (h : List.Forall₂ R as bs) (hfg : ∀ a b, R a b → AgreesOn P same S (f a) (g b)) :
    AgreesOn P same (List.Forall₂ S) (as.mapM f) (bs.mapM g) := by
  induction h with
  | nil => exact .ok .nil
  | cons hab _ ih =>
    rw [List.mapM_cons, List.mapM_cons]
    exact (hfg _ _ hab).bind fun c d hcd => ih.bind fun cs ds hcds => .ok (.cons hcd hcds)

theorem agrees_forM {f g : α → Read Unit} (h : ∀ a, AgreesOn P same Eq (f a) (g a))
    (as : List α) : AgreesOn P same Eq (as.forM f) (as.forM g) := by
  induction as with
  | nil => exact .ok rfl
  | cons a as ih => exact (h a).bind_eq fun _ => ih

/-- Readings that agree in every way are the same. -/
theorem AgreesOn.eq {r r' : Read α} (h : AgreesOn P True Eq r r') : r = r' := by
  cases h with
  | ok hab => rw [hab]
  | error _ _ heq => rw [heq trivial]

/-- What readings that agree end with, if they do, is the same as far as what fits together is. -/
theorem AgreesOn.toOption_eq {r : Read α} {r' : Read β} {f : α → γ} {g : β → γ}
    (h : AgreesOn P same R r r') (hfg : ∀ a b, R a b → f a = g b) :
    r.toOption.map f = r'.toOption.map g := by
  cases h with
  | ok hab => exact congrArg some (hfg _ _ hab)
  | error _ _ _ => rfl

theorem AgreesOn.fails {r : Read α} {r' : Read β} (h : AgreesOn P same R r r') : r.Fails P := by
  cases h with
  | ok _ => exact fails_ok _
  | error hfault _ _ => exact fails_error hfault

end Read

namespace Traced

variable {α β γ δ : Type} {same : Prop} {R : α → β → Prop} {S : γ → δ → Prop}

/-- The steps end in ways that agree. -/
structure Agrees (same : Prop) (R : α → β → Prop) (step : Traced α) (step' : Traced β) : Prop where
  outcome : Read.Agrees same R step.outcome step'.outcome
  journal : same → step.journal = step'.journal

theorem agrees_pure {a : α} {b : β} (h : R a b) : Agrees same R (pure a) (pure b) :=
  ⟨.ok h, fun _ => rfl⟩

theorem agrees_ofRead {r : Read α} {r' : Read β} (h : Read.Agrees same R r r') :
    Agrees same R (ofRead r) (ofRead r') :=
  ⟨h, fun _ => rfl⟩

theorem agrees_liftM {r : Read α} {r' : Read β} (h : Read.Agrees same R r r') :
    Agrees same R (liftM r) (liftM r') :=
  ⟨h, fun _ => rfl⟩

/-- Both steps fail for the same reason, which is no construct without a counterpart. -/
theorem agrees_error {fault : Fault} (h : fault.isUnsupported = false) :
    Agrees same R (ofRead (.error fault)) (ofRead (.error fault)) :=
  agrees_ofRead (.error h h fun _ => rfl)

theorem agrees_record {place place' : Place} {event event' : Event}
    (h : same → place = place' ∧ event = event') :
    Agrees same Eq (record place event) (record place' event') := by
  refine ⟨.ok rfl, fun hsame => ?_⟩
  obtain ⟨rfl, rfl⟩ := h hsame
  rfl

theorem agrees_mark {place place' : Place} {marker marker' : Marker}
    (h : same → place = place' ∧ marker = marker') :
    Agrees same Eq (mark place marker) (mark place' marker') :=
  agrees_record fun hsame => ⟨(h hsame).1, congrArg Event.marked (h hsame).2⟩

theorem Agrees.imp {R' : α → β → Prop} {step : Traced α} {step' : Traced β}
    (h : Agrees same R step step') (hR : ∀ a b, R a b → R' a b) : Agrees same R' step step' :=
  ⟨h.outcome.imp hR, h.journal⟩

theorem Agrees.weaken {step : Traced α} {step' : Traced β} (h : Agrees True R step step') :
    Agrees same R step step' :=
  ⟨h.outcome.weaken, fun _ => h.journal trivial⟩

theorem Agrees.bind {step : Traced α} {step' : Traced β} {next : α → Traced γ}
    {next' : β → Traced δ} (h : Agrees same R step step')
    (hnext : ∀ a b, R a b → Agrees same S (next a) (next' b)) :
    Agrees same S (step >>= next) (step' >>= next') := by
  obtain ⟨outcome, journal⟩ := step
  obtain ⟨outcome', journal'⟩ := step'
  obtain ⟨houtcome, hjournal⟩ := h
  cases houtcome with
  | error hfault hfault' heq => exact ⟨.error hfault hfault' heq, hjournal⟩
  | @ok a b hab =>
    refine ⟨(hnext a b hab).outcome, fun hsame => ?_⟩
    show journal ++ (next a).journal = journal' ++ (next' b).journal
    rw [show journal = journal' from hjournal hsame, (hnext a b hab).journal hsame]

/-- One step after another that ends with the same value on both sides. -/
theorem Agrees.bind_eq {step step' : Traced α} {next : α → Traced γ} {next' : α → Traced δ}
    (h : Agrees same Eq step step') (hnext : ∀ a, Agrees same S (next a) (next' a)) :
    Agrees same S (step >>= next) (step' >>= next') :=
  h.bind fun a _ heq => heq ▸ hnext a

/-- The values that fit together are those that the steps end with. -/
theorem Agrees.and_ok {step : Traced α} {step' : Traced β} (h : Agrees same R step step') :
    Agrees same (fun a b => R a b ∧ step.outcome = .ok a ∧ step'.outcome = .ok b) step step' := by
  obtain ⟨outcome, journal⟩ := step
  obtain ⟨outcome', journal'⟩ := step'
  obtain ⟨houtcome, hjournal⟩ := h
  cases houtcome with
  | ok hab => exact ⟨.ok ⟨hab, rfl, rfl⟩, hjournal⟩
  | error hfault hfault' heq => exact ⟨.error hfault hfault' heq, hjournal⟩

/-- A step that has no part in the result may be taken on one side only. -/
theorem Agrees.bind_left {first : Traced γ} {c : γ} {next : γ → Traced α} {step : Traced β}
    (hfirst : first.outcome = .ok c) (h : Agrees False R (next c) step) :
    Agrees False R (first >>= next) step := by
  refine ⟨?_, False.elim⟩
  rw [outcome_bind, hfirst]
  exact h.outcome

theorem Agrees.bind_right {first : Traced γ} {c : γ} {next : γ → Traced β} {step : Traced α}
    (hfirst : first.outcome = .ok c) (h : Agrees False R step (next c)) :
    Agrees False R step (first >>= next) := by
  refine ⟨?_, False.elim⟩
  rw [outcome_bind, hfirst]
  exact h.outcome

theorem Agrees.ite {p q : Prop} [Decidable p] [Decidable q] {first second : Traced α}
    {first' second' : Traced β} (hpq : p ↔ q) (h : Agrees same R first first')
    (h' : Agrees same R second second') :
    Agrees same R (if p then first else second) (if q then first' else second') := by
  by_cases hp : p
  · rw [if_pos hp, if_pos (hpq.1 hp)]
    exact h
  · rw [if_neg hp, if_neg (mt hpq.2 hp)]
    exact h'

/-- Steps that are taken only sometimes before the rest. -/
theorem Agrees.optional {p q : Prop} [Decidable p] [Decidable q] {first rest : Traced α}
    {first' rest' : Traced β} (hpq : p ↔ q)
    (hfirst : Agrees same R rest rest' → Agrees same R first first')
    (h : Agrees same R rest rest') :
    Agrees same R (if p then first else rest) (if q then first' else rest') :=
  .ite hpq (hfirst h) h

theorem agrees_mapM {f : α → Traced γ} {g : β → Traced δ} {as : List α} {bs : List β}
    (h : List.Forall₂ R as bs) (hfg : ∀ a b, R a b → Agrees same S (f a) (g b)) :
    Agrees same (List.Forall₂ S) (as.mapM f) (bs.mapM g) := by
  induction h with
  | nil => exact agrees_pure .nil
  | cons hab _ ih =>
    rw [List.mapM_cons, List.mapM_cons]
    exact (hfg _ _ hab).bind fun c d hcd => ih.bind fun cs ds hcds => agrees_pure (.cons hcd hcds)

theorem agrees_forM {f : α → Traced Unit} {g : β → Traced Unit} {as : List α} {bs : List β}
    (h : List.Forall₂ R as bs) (hfg : ∀ a b, R a b → Agrees same Eq (f a) (g b)) :
    Agrees same Eq (as.forM f) (bs.forM g) := by
  induction h with
  | nil => exact agrees_pure rfl
  | cons hab _ ih => exact (hfg _ _ hab).bind fun _ _ _ => ih

/-- What fits at the start and after every step of a loop fits at its end. -/
theorem agrees_foldlM {f : γ → α → Traced γ} {g : δ → β → Traced δ} {as : List α} {bs : List β}
    (h : List.Forall₂ R as bs) {c : γ} {d : δ} (hcd : S c d)
    (hfg : ∀ c d a b, S c d → R a b → Agrees same S (f c a) (g d b)) :
    Agrees same S (as.foldlM f c) (bs.foldlM g d) := by
  induction h generalizing c d with
  | nil => exact agrees_pure hcd
  | cons hab _ ih =>
    rw [List.foldlM_cons, List.foldlM_cons]
    exact (hfg c d _ _ hcd hab).bind fun c d hcd => ih hcd

/-- Steps that agree in every way set the same markers. -/
theorem Agrees.collecting {step : Traced α} {step' : Traced β} (h : Agrees same R step step') :
    Agrees same (fun a b => R a.1 b.1 ∧ (same → a.2 = b.2)) step.collecting step'.collecting := by
  refine ⟨h.outcome.map fun a b hab => ⟨hab, fun hsame => ?_⟩, h.journal⟩
  rw [h.journal hsame]

end Traced

end StrictDdl
