import StrictDdl.Proofs.Check.Membership
import StrictDdl.Proofs.Expr.Constants
import StrictDdl.Proofs.Expr.Layout
import StrictDdl.Proofs.Numeric.Decimal

/-! Which checks can be classified.

In a tree of the parser every column reference has a path and every constant a value
(`ParseTree.WellFormed`). A check of such a tree that is written for the source dialect is also
looked through for a rule without a fault: its columns are found, and every part that is looked at
is there (`Expr.Ready`). The one exception is a strict bound at an infinity, which has no adjacent
whole number; a numeral beyond the largest binary number is such a bound
(`Check.classify_total`). -/
namespace StrictDdl

open Read

namespace Read

variable {α β : Type} {P : α → Prop} {Q : β → Prop}

/-- The reading ends with a value, and the value is of this kind. -/
def Yields (P : α → Prop) (r : Read α) : Prop := ∃ a, r = .ok a ∧ P a

theorem yields_ok {a : α} (h : P a) : Yields P (.ok a : Read α) := ⟨a, rfl, h⟩

theorem Yields.bind {r : Read α} {next : α → Read β} (h : r.Yields P)
    (hnext : ∀ a, P a → (next a).Yields Q) : Yields Q (r >>= next) := by
  obtain ⟨a, rfl, ha⟩ := h
  exact hnext a ha

theorem yields_ok_bind {a : α} {next : α → Read β} (h : (next a).Yields Q) :
    Yields Q (.ok a >>= next) := h

theorem Yields.map {r : Read α} {f : α → β} (h : r.Yields P) (hf : ∀ a, P a → Q (f a)) :
    Yields Q (r.map f) := by
  obtain ⟨a, rfl, ha⟩ := h
  exact yields_ok (hf a ha)

theorem Yields.ite {p : Prop} [Decidable p] {r s : Read α} (h : r.Yields P) (h' : s.Yields P) :
    Yields P (if p then r else s) := by
  split
  · exact h
  · exact h'

theorem yields_mapM {f : α → Read β} {as : List α} (h : ∀ a ∈ as, (f a).Yields Q) :
    Yields (fun bs => ∀ b ∈ bs, Q b) (as.mapM f) := by
  induction as with
  | nil => exact yields_ok (by simp)
  | cons a as ih =>
    obtain ⟨ha, has⟩ := List.forall_mem_cons.1 h
    rw [List.mapM_cons]
    exact ha.bind fun b hb => (ih has).bind fun bs hbs =>
      yields_ok (List.forall_mem_cons.2 ⟨hb, hbs⟩)

end Read

/-! ### Constants -/

/-- A value of a constant. -/
def Json.IsConstant : Json → Prop
  | .float x => x ≠ .nan
  | .arr _ => False
  | .obj _ => False
  | _ => True

theorem Json.IsConstant.exists_scalar {j : Json} (h : j.IsConstant) :
    ∃ v, Scalar.ofJson? j = some v := by
  cases j with
  | arr _ | obj _ => exact h.elim
  | _ => exact ⟨_, rfl⟩

/-- The number is one. -/
def Number.IsProper : Number → Prop
  | .int _ => True
  | .float x => x ≠ .nan

theorem Binary64.neg_ne_nan {x : Binary64} (h : x ≠ .nan) : x.neg ≠ .nan := by
  cases x with
  | nan => exact absurd rfl h
  | _ => nofun

theorem Constant.Literal.exists_value {c : Literal}
    (h : ∀ digits, c = .number digits → Numeral.IsDecimal digits.toList) :
    ∃ v, c.value = .ok v ∧ v.IsConstant := by
  cases c with
  | number digits =>
    obtain ⟨v, hv, hnumber⟩ := Json.toNumber_of_isDecimal (h digits rfl)
    refine ⟨v, hv, ?_⟩
    cases v with
    | int _ => trivial
    | float _ => exact hnumber
    | _ => exact hnumber.elim
  | _ => exact ⟨_, rfl, trivial⟩

namespace Expr

/-- Every constant of the expression has a value. -/
def Definite (e : Expr) : Prop :=
  e.ConstantsSatisfy fun value _ => ∃ v, value = .ok v ∧ v.IsConstant

def AllDefinite (es : List Expr) : Prop :=
  AllConstantsSatisfy (fun value _ => ∃ v, value = .ok v ∧ v.IsConstant) es

/-- A part of an expression that is written for the source dialect, or was left out. -/
structure Ready (e : Expr) : Prop where
  written : e.isAbsent = true ∨ ∃ r, render .postgres e = .ok r
  definite : e.Definite

variable {e : Expr} {es : List Expr}

theorem Ready.sound (h : e.Ready) (kinds : List String) : e.sound kinds = .ok () := by
  cases e with
  | stray value =>
    match value with
    | .obj [(tag, b)] =>
      obtain habsent | ⟨r, hr⟩ := h.written
      · cases habsent
      · cases hr
    | .obj [] | .obj (_ :: _ :: _) => rfl
    | .null | .bool _ | .int _ | .float _ | .str _ | .arr _ => rfl
  | _ => rfl

theorem Ready.exists_render (h : e.Ready) (he : e.isAbsent = false) :
    ∃ r, render .postgres e = .ok r := by
  obtain habsent | hr := h.written
  · rw [he] at habsent
    cases habsent
  · exact hr

theorem ready_of_renderAll {rs : List Rendered} (h : renderAll .postgres es = .ok rs)
    (hdefinite : AllDefinite es) : ∀ e ∈ es, e.Ready := by
  induction es generalizing rs with
  | nil => simp
  | cons e es ih =>
    rw [renderAll] at h
    obtain ⟨r, hr, h⟩ := bind_eq_ok_iff.1 h
    obtain ⟨rest, hrest, _⟩ := bind_eq_ok_iff.1 h
    rw [List.forall_mem_cons]
    exact ⟨⟨.inr ⟨r, hr⟩, hdefinite.1⟩, ih hrest hdefinite.2⟩

/-- The elements that are written are those that are looked at. -/
theorem listed?_of_renderElements {rs : List Rendered} (h : renderElements .postgres e = .ok rs)
    (hdefinite : e.Definite) : ∃ es, e.listed? = .ok (some es) ∧ ∀ e ∈ es, e.Ready := by
  have hother : ∀ e : Expr,
      (do .error (.unrenderable (← e.kind) .postgres) : Read (List Rendered)) ≠ .ok rs := by
    intro e h
    obtain ⟨kind, _, h⟩ := bind_eq_ok_iff.1 h
    cases h
  cases e with
  | items es | row es | array es => exact ⟨es, rfl, ready_of_renderAll h hdefinite⟩
  | _ => exact absurd h (hother _)

/-! ### Parts -/

section Parts

variable {form : OperatorForm} {symbol : Read (List Json)} {left right : Expr} {type : TypeName}

theorem operatorName_eq (symbol : Read (List Json)) : operatorName symbol = symbol.map symbolOf := by
  cases symbol <;> rfl

theorem Ready.column {path : Read (List Json)} (h : (Expr.column path).Ready) :
    ∃ names, path = .ok names := by
  obtain ⟨r, hr⟩ := h.exists_render rfl
  rw [render] at hr
  obtain ⟨names, hnames, _⟩ := bind_eq_ok_iff.1 hr
  exact ⟨names, hnames⟩

theorem Ready.cast (h : (Expr.cast type e).Ready) : e.Ready := by
  obtain ⟨r, hr⟩ := h.exists_render rfl
  rw [render] at hr
  obtain ⟨operand, hoperand, _⟩ := bind_eq_ok_iff.1 hr
  exact ⟨.inr ⟨operand, hoperand⟩, h.definite⟩

theorem Ready.array (h : (Expr.array es).Ready) : ∀ e ∈ es, e.Ready := by
  obtain ⟨r, hr⟩ := h.exists_render rfl
  rw [render] at hr
  obtain ⟨rs, hrs, _⟩ := bind_eq_ok_iff.1 hr
  exact ready_of_renderAll hrs h.definite

/-- The operands of a connective, where all of them are looked at. -/
theorem Ready.connective {op : Connective} (hop : op ≠ .negation)
    (h : (Expr.connective op es).Ready) : ∀ e ∈ es, e.Ready := by
  obtain ⟨r, hr⟩ := h.exists_render rfl
  cases op with
  | negation => exact absurd rfl hop
  | conjunction | disjunction | unstated | other =>
    obtain ⟨rs, hrs, _⟩ := bind_eq_ok_iff.1 hr
    exact ready_of_renderAll hrs h.definite

/-- The name of a plain operator may be looked up, and its operands are there. -/
theorem Ready.plain (h : (Expr.operator .plain symbol left right).Ready) :
    (∃ op, operatorName symbol = .ok op ∧ op.isScalar = true) ∧ left.Ready ∧ right.Ready := by
  obtain ⟨r, hr⟩ := h.exists_render rfl
  obtain ⟨hleft, hright⟩ := h.definite
  rw [render] at hr
  obtain ⟨parts, hparts, hr⟩ := bind_eq_ok_iff.1 hr
  rw [operatorName_eq, hparts]
  dsimp only at hr
  split at hr
  · rename_i habsent
    have hl : left.Ready := ⟨.inl habsent, hleft⟩
    split at hr
    · rename_i hop
      obtain ⟨operand, hoperand, _⟩ := bind_eq_ok_iff.1 hr
      exact ⟨⟨_, rfl, by rw [hop]; rfl⟩, hl, ⟨.inr ⟨operand, hoperand⟩, hright⟩⟩
    · rename_i hop
      obtain ⟨operand, hoperand, _⟩ := bind_eq_ok_iff.1 hr
      exact ⟨⟨_, rfl, by rw [hop]; rfl⟩, hl, ⟨.inr ⟨operand, hoperand⟩, hright⟩⟩
    · cases hr
  · obtain ⟨binding, hbinding, hr⟩ := bind_eq_ok_iff.1 hr
    obtain ⟨spelled, _, hr⟩ := bind_eq_ok_iff.1 hr
    obtain ⟨l, hl, hr⟩ := bind_eq_ok_iff.1 hr
    obtain ⟨r', hr', _⟩ := bind_eq_ok_iff.1 hr
    refine ⟨⟨_, rfl, ?_⟩, ⟨.inr ⟨l, hl⟩, hleft⟩, ⟨.inr ⟨r', hr'⟩, hright⟩⟩
    obtain ⟨key, hkey, _⟩ := bind_eq_ok_iff.1 hbinding
    unfold Json.key at hkey
    split at hkey
    · assumption
    · cases hkey

theorem Ready.membership (h : (Expr.operator .membership symbol left right).Ready) :
    (∃ op, operatorName symbol = .ok op) ∧ left.Ready ∧
      ∃ es, right.listed? = .ok (some es) ∧ ∀ e ∈ es, e.Ready := by
  obtain ⟨r, hr⟩ := h.exists_render rfl
  rw [render] at hr
  obtain ⟨parts, hparts, hr⟩ := bind_eq_ok_iff.1 hr
  obtain ⟨l, hl, hr⟩ := bind_eq_ok_iff.1 hr
  obtain ⟨rs, hrs, _⟩ := bind_eq_ok_iff.1 hr
  refine ⟨⟨symbolOf parts, ?_⟩, ⟨.inr ⟨l, hl⟩, h.definite.1⟩,
    listed?_of_renderElements hrs h.definite.2⟩
  rw [operatorName_eq, hparts]
  rfl

theorem Ready.between {negated symmetric : Bool}
    (h : (Expr.operator (.between negated symmetric) symbol left right).Ready) :
    left.Ready ∧ ∃ es, right.listed? = .ok (some es) ∧ ∀ e ∈ es, e.Ready := by
  obtain ⟨r, hr⟩ := h.exists_render rfl
  rw [render, if_neg (by simp)] at hr
  obtain ⟨bounds, _, hr⟩ := bind_eq_ok_iff.1 hr
  obtain ⟨n, _, hr⟩ := bind_eq_ok_iff.1 hr
  split at hr
  · cases hr
  · obtain ⟨l, hl, hr⟩ := bind_eq_ok_iff.1 hr
    obtain ⟨_, _, hr⟩ := bind_eq_ok_iff.1 hr
    obtain ⟨rs, hrs, _⟩ := bind_eq_ok_iff.1 hr
    exact ⟨⟨.inr ⟨l, hl⟩, h.definite.1⟩, listed?_of_renderElements hrs h.definite.2⟩

theorem Ready.quantified {all : Bool}
    (h : (Expr.operator (.quantified all) symbol left right).Ready) :
    (∃ op, operatorName symbol = .ok op) ∧ left.Ready ∧ right.Ready := by
  obtain ⟨r, hr⟩ := h.exists_render rfl
  rw [render] at hr
  obtain ⟨parts, hparts, hr⟩ := bind_eq_ok_iff.1 hr
  obtain ⟨l, hl, hr⟩ := bind_eq_ok_iff.1 hr
  obtain ⟨r', hr', _⟩ := bind_eq_ok_iff.1 hr
  refine ⟨⟨symbolOf parts, ?_⟩, ⟨.inr ⟨l, hl⟩, h.definite.1⟩, ⟨.inr ⟨r', hr'⟩, h.definite.2⟩⟩
  rw [operatorName_eq, hparts]
  rfl

end Parts

/-! ### Columns and constants of an expression -/

/-- A value that was found, if one was, is of this kind. -/
def Found {α : Type} (P : α → Prop) (a? : Option α) : Prop := ∀ a ∈ a?, P a

theorem found_none {α : Type} {P : α → Prop} : Found P none := nofun

theorem found_some {α : Type} {P : α → Prop} {a : α} (h : P a) : Found P (some a) := by
  rintro _ ⟨⟩
  exact h

theorem sound_bind_yields (h : e.Ready) (kinds : List String) {α : Type} {P : α → Prop}
    {next : Read α} (hnext : next.Yields P) : Yields P (do e.sound kinds; next) := by
  rw [h.sound kinds]
  exact hnext

theorem isColumn_yields (column : Json) (h : e.Ready) :
    (isColumn column e).Yields fun _ => True := by
  cases e with
  | column path =>
    obtain ⟨names, rfl⟩ := h.column
    refine yields_ok_bind ?_
    split <;> exact yields_ok trivial
  | _ => exact sound_bind_yields h _ (yields_ok trivial)

theorem constant?_yields (e : Expr) (h : e.Ready) :
    (constant? e).Yields (Found Json.IsConstant) := by
  cases e with
  | cast _ operand => exact constant?_yields operand h.cast
  | constant value _ =>
    obtain ⟨v, rfl, hv⟩ := h.definite
    exact yields_ok (found_some hv)
  | operator form symbol left right =>
    cases form with
    | plain =>
      obtain ⟨⟨op, hop, _⟩, _, hright⟩ := h.plain
      rw [constant?, hop]
      refine .ite (yields_ok_bind (.ite ?_ (yields_ok found_none))) (yields_ok found_none)
      refine Yields.bind (constant?_yields right hright) fun value? hvalue => ?_
      split
      · exact yields_ok (found_some trivial)
      · exact yields_ok (found_some (Binary64.neg_ne_nan (hvalue _ rfl)))
      · exact yields_ok found_none
    | _ => exact sound_bind_yields h _ (yields_ok found_none)
  | unlisted =>
    obtain ⟨r, hr⟩ := h.exists_render rfl
    cases hr
  | _ => exact sound_bind_yields h _ (yields_ok found_none)

theorem isProper_of_numberOf? {v : Json} {n : Number} (h : v.IsConstant)
    (hn : numberOf? v = some n) : n.IsProper := by
  cases v with
  | int _ =>
    cases hn
    trivial
  | float _ =>
    cases hn
    exact h
  | _ => cases hn

theorem constants?_yields (h : ∀ e ∈ es, e.Ready) :
    (constants? es).Yields (Found fun vs => ∀ v ∈ vs, v.IsConstant) := by
  refine Yields.bind (yields_mapM fun e he => constant?_yields e (h e he)) fun values hvalues => ?_
  refine yields_ok ?_
  split
  · exact found_none
  · intro vs hvs v hv
    obtain ⟨v?, hmem, hv⟩ := exists_of_forall₂ (Ending.option.mapM_iff.1 hvs).flip hv
    exact hvalues v? hmem v hv

end Expr

/-! ### Bounds -/

namespace Bounds

/-- No end of the bounds is without a place. -/
structure IsProper (b : Bounds) : Prop where
  lower : ∀ low ∈ b.lower, low.value.IsProper
  upper : ∀ high ∈ b.upper, high.value.IsProper

theorem isProper_empty : IsProper {} where
  lower _ h := nomatch h
  upper _ h := nomatch h

theorem isProper_meet {a b : Bounds} (ha : a.IsProper) (hb : b.IsProper) :
    (a.meet b).IsProper := by
  constructor
  · intro low hlow
    rw [lower_meet] at hlow
    exact (mem_of_mem_tightest hlow).elim (ha.lower low) (hb.lower low)
  · intro high hhigh
    rw [upper_meet] at hhigh
    exact (mem_of_mem_tightest hhigh).elim (ha.upper high) (hb.upper high)

theorem isProper_ofComparison (op : String) {n : Number} (h : n.IsProper) :
    (ofComparison op n).IsProper := by
  unfold ofComparison
  split
  · exact ⟨by rintro _ ⟨⟩; exact h, nofun⟩
  · split
    · exact ⟨by rintro _ ⟨⟩; exact h, nofun⟩
    · exact ⟨nofun, by rintro _ ⟨⟩; exact h⟩

end Bounds

namespace Check

open StrictDdl.Expr

variable {symbol : Read (List Json)} {left right : Expr}

/-- What is done with the constant on the other side of a column ends when it ends on
every constant. -/
theorem opposite_yields {α : Type} {Q : α → Prop} {subject value : Expr} {other : Read α}
    {next : Option Json → Read α} (column : Json) (hsubject : subject.Ready) (hvalue : value.Ready)
    (hother : other.Yields Q)
    (hnext : ∀ value?, Found Json.IsConstant value? → (next value?).Yields Q) :
    (do if ← subject.isColumn column then next (← value.constant?) else other : Read α).Yields Q := by
  refine Yields.bind (isColumn_yields column hsubject) fun _ _ => .ite ?_ hother
  exact Yields.bind (constant?_yields value hvalue) hnext

theorem isProper_comparison {value? : Option Json} {n : Number} (op : String)
    (hvalue : Found Json.IsConstant value?) (hn : value?.bind numberOf? = some n) :
    (Bounds.ofComparison op n).IsProper := by
  obtain ⟨v, rfl, hnumber⟩ := Option.bind_eq_some_iff.1 hn
  exact Bounds.isProper_ofComparison op (isProper_of_numberOf? (hvalue v rfl) hnumber)

theorem comparisonBounds_yields (column : Json)
    (h : (Expr.operator .plain symbol left right).Ready) :
    (comparisonBounds column symbol left right).Yields (Found Bounds.IsProper) := by
  obtain ⟨⟨op, hop, hscalar⟩, hleft, hright⟩ := h.plain
  have hkey : op.key = .ok op := if_pos hscalar
  unfold comparisonBounds
  rw [hop]
  refine yields_ok_bind ?_
  rw [hkey]
  refine yields_ok_bind ?_
  split
  · split
    · exact yields_ok found_none
    · extract_lets rest
      have hrest : ∀ swapped, (rest swapped).Yields (Found Bounds.IsProper) := by
        intro swapped
        cases swapped with
        | false =>
          refine opposite_yields column hleft hright (yields_ok found_none) fun value? hvalue => ?_
          split
          · exact yields_ok (found_some (isProper_comparison _ hvalue ‹_›))
          · exact yields_ok found_none
        | true =>
          refine opposite_yields column hright hleft (yields_ok found_none) fun value? hvalue => ?_
          split
          · exact yields_ok (found_some (isProper_comparison _ hvalue ‹_›))
          · exact yields_ok found_none
      refine Yields.bind (isColumn_yields column hright) fun _ _ => .ite ?_ ?_
      · exact Yields.bind (Yields.map (Q := fun _ => True) (isColumn_yields column hleft) fun _ _ => trivial)
          fun swapped _ => hrest swapped
      · exact yields_ok_bind (hrest false)
  · exact yields_ok found_none

theorem betweenBounds_yields (column : Json)
    (h : (Expr.operator (.between false false) symbol left right).Ready) :
    (betweenBounds column left right).Yields (Found Bounds.IsProper) := by
  obtain ⟨hleft, es, hes, hready⟩ := h.between
  unfold betweenBounds
  rw [hes]
  refine Yields.bind (isColumn_yields column hleft) fun _ _ => .ite ?_ (yields_ok found_none)
  refine yields_ok_bind (Yields.bind (constants?_yields hready) fun values? hvalues => ?_)
  split
  · have hends := hvalues _ rfl
    split
    · rename_i hlow hhigh
      refine yields_ok (found_some ⟨?_, ?_⟩)
      · rintro _ ⟨⟩
        exact isProper_of_numberOf? (hends _ (by simp)) hlow
      · rintro _ ⟨⟩
        exact isProper_of_numberOf? (hends _ (by simp)) hhigh
    · exact yields_ok found_none
  · exact yields_ok found_none

mutual

/-- Looking for bounds in an expression that is written ends. -/
theorem bounds?_yields (column : Json) (e : Expr) (h : e.Ready) :
    (bounds? column e).Yields (Found Bounds.IsProper) := by
  have hother : Yields (Found Bounds.IsProper) (do e.sound ["A_Expr", "BoolExpr"]; return none) :=
    sound_bind_yields h _ (yields_ok found_none)
  cases e with
  | operator form symbol left right =>
    cases form with
    | plain => exact comparisonBounds_yields column h
    | between negated symmetric =>
      cases negated <;> cases symmetric
      · exact betweenBounds_yields column h
      all_goals exact hother
    | _ => exact hother
  | connective op operands =>
    cases op with
    | conjunction =>
      exact meetAll?_yields column Bounds.isProper_empty operands (h.connective (by simp))
    | _ => exact hother
  | unlisted =>
    obtain ⟨r, hr⟩ := h.exists_render rfl
    cases hr
  | _ => exact hother

theorem meetAll?_yields (column : Json) {found : Bounds} (hfound : found.IsProper)
    (es : List Expr) (h : ∀ e ∈ es, e.Ready) :
    (meetAll? column found es).Yields (Found Bounds.IsProper) := by
  cases es with
  | nil => exact yields_ok (found_some hfound)
  | cons e es =>
    obtain ⟨he, hes⟩ := List.forall_mem_cons.1 h
    rw [meetAll?]
    refine Yields.bind (bounds?_yields column e he) fun b? hb => ?_
    cases b? with
    | none => exact yields_ok found_none
    | some b => exact meetAll?_yields column (Bounds.isProper_meet hfound (hb b rfl)) es hes

end

/-! ### Values and patterns -/

theorem equality?_yields (column : Json) (h : (Expr.operator .plain symbol left right).Ready) :
    (equality? column symbol left right).Yields (Found Json.IsConstant) := by
  obtain ⟨⟨op, hop, _⟩, hleft, hright⟩ := h.plain
  have hside : ∀ subject value : Expr, subject.Ready → value.Ready →
      Yields (Found Json.IsConstant)
        (do if ← subject.isColumn column then value.constant? else return none) := by
    intro subject value hsubject hvalue
    refine Yields.bind (isColumn_yields column hsubject) fun _ _ => .ite ?_ (yields_ok found_none)
    exact constant?_yields value hvalue
  unfold equality?
  rw [hop]
  refine yields_ok_bind (.ite ?_ (yields_ok found_none))
  refine Yields.bind (isColumn_yields column hright) fun swapped _ => ?_
  cases swapped with
  | false => exact hside left right hleft hright
  | true => exact hside right left hright hleft

theorem isEqualityOf_yields (column : Json) (hsymbol : ∃ op, operatorName symbol = .ok op)
    (hleft : left.Ready) : (isEqualityOf column symbol left).Yields fun _ => True := by
  obtain ⟨op, hop⟩ := hsymbol
  unfold isEqualityOf
  rw [hop]
  exact yields_ok_bind (.ite (isColumn_yields column hleft) (yields_ok trivial))

theorem arrayElements?_yields {e : Expr} (h : e.Ready) :
    (arrayElements? e).Yields (Found fun es => ∀ e ∈ es, e.Ready) := by
  refine sound_bind_yields h _ ?_
  extract_lets seen
  have hseen : seen.Ready := by
    cases e with
    | cast type operand => exact h.cast
    | _ => exact h
  clear_value seen
  refine sound_bind_yields hseen _ ?_
  split
  · exact yields_ok (found_some hseen.array)
  · exact yields_ok found_none

theorem forall_mem_addNew {found vs : List Json} (hfound : ∀ v ∈ found, v.IsConstant)
    (h : ∀ v ∈ vs, v.IsConstant) : ∀ v ∈ addNew found vs, v.IsConstant := fun v hv =>
  ((addNew_spec found vs).2.1 v hv).elim (hfound v) (h v)

mutual

/-- Looking for values in an expression that is written ends. -/
theorem values?_yields (column : Json) (e : Expr) (h : e.Ready) :
    (values? column e).Yields (Found fun vs => ∀ v ∈ vs, v.IsConstant) := by
  have hother : Yields (Found fun vs : List Json => ∀ v ∈ vs, v.IsConstant)
      (do e.sound ["A_Expr", "BoolExpr"]; return none) :=
    sound_bind_yields h _ (yields_ok found_none)
  cases e with
  | operator form symbol left right =>
    cases form with
    | plain =>
      refine Yields.bind (equality?_yields column h) fun v? hv => yields_ok ?_
      intro vs hvs
      obtain ⟨v, rfl, rfl⟩ := Option.map_eq_some_iff.1 hvs
      exact List.forall_mem_singleton.2 (hv v rfl)
    | membership =>
      obtain ⟨hsymbol, hleft, es, hes, hready⟩ := h.membership
      rw [values?, hes]
      refine Yields.bind (isEqualityOf_yields column hsymbol hleft) fun _ _ =>
        .ite ?_ (yields_ok found_none)
      exact yields_ok_bind (constants?_yields hready)
    | quantified all =>
      cases all with
      | true => exact hother
      | false =>
        obtain ⟨hsymbol, hleft, hright⟩ := h.quantified
        refine Yields.bind (isEqualityOf_yields column hsymbol hleft) fun _ _ =>
          .ite ?_ (yields_ok found_none)
        refine Yields.bind (arrayElements?_yields hright) fun es? hes => ?_
        split
        · exact constants?_yields (hes _ rfl)
        · exact yields_ok found_none
    | _ => exact hother
  | connective op operands =>
    cases op with
    | disjunction =>
      exact joinAll?_yields column (by simp) operands (h.connective (by simp))
    | _ => exact hother
  | unlisted =>
    obtain ⟨r, hr⟩ := h.exists_render rfl
    cases hr
  | _ => exact hother

theorem joinAll?_yields (column : Json) {found : List Json}
    (hfound : ∀ v ∈ found, v.IsConstant) (es : List Expr) (h : ∀ e ∈ es, e.Ready) :
    (joinAll? column found es).Yields (Found fun vs => ∀ v ∈ vs, v.IsConstant) := by
  cases es with
  | nil =>
    refine yields_ok ?_
    split
    · exact found_none
    · exact found_some hfound
  | cons e es =>
    obtain ⟨he, hes⟩ := List.forall_mem_cons.1 h
    rw [joinAll?]
    refine Yields.bind (values?_yields column e he) fun vs? hvs => ?_
    cases vs? with
    | none => exact yields_ok found_none
    | some vs => exact joinAll?_yields column (forall_mem_addNew hfound (hvs vs rfl)) es hes

end

theorem pattern?_yields (column : Json) {e : Expr} (h : e.Ready) :
    (pattern? column e).Yields fun _ => True := by
  have hother : Yields (fun _ : Option String => True) (do e.sound ["A_Expr"]; return none) :=
    sound_bind_yields h _ (yields_ok trivial)
  cases e with
  | operator form symbol left right =>
    cases form with
    | plain =>
      obtain ⟨⟨op, hop, _⟩, hleft, hright⟩ := h.plain
      rw [pattern?, hop]
      refine yields_ok_bind (.ite ?_ (yields_ok trivial))
      refine Yields.bind (isColumn_yields column hleft) fun _ _ => .ite ?_ (yields_ok trivial)
      refine Yields.bind (constant?_yields right hright) fun value? _ => ?_
      split <;> exact yields_ok trivial
    | _ => exact hother
  | _ => exact hother

/-- Any values of constants may be listed. -/
theorem enumRule_yields {vs : List Json} (h : ∀ v ∈ vs, v.IsConstant) :
    (enumRule vs).Yields fun _ => True := by
  have heach : ∀ position, ∃ scalars, Lenient.each Lenient.scalar position vs = .ok scalars := by
    induction vs with
    | nil => exact fun _ => ⟨[], rfl⟩
    | cons v vs ih =>
      obtain ⟨hv, hvs⟩ := List.forall_mem_cons.1 h
      intro position
      obtain ⟨scalar, hscalar⟩ := hv.exists_scalar
      obtain ⟨scalars, hscalars⟩ := ih hvs (position + 1)
      refine ⟨scalar :: scalars, ?_⟩
      rw [Lenient.each, Lenient.scalar, hscalar, hscalars]
      rfl
  obtain ⟨scalars, hscalars⟩ := heach 0
  refine ⟨{ enumValues := some scalars }, ?_, trivial⟩
  rw [enumRule, hscalars]
  rfl

end Check

/-! ### Bounds as rules -/

/-- The refusal of an infinity where a whole number is wanted. -/
def Fault.wholeInfinity : Fault := .overflow "cannot convert float infinity to integer"

namespace Read

variable {α β : Type} {p q : Bool}

/-- The reading ends with a value, except in this case, where it meets an infinity. -/
def EndsUnless (p : Bool) (r : Read α) : Prop :=
  if p then r = .error .wholeInfinity else ∃ a, r = .ok a

theorem endsUnless_ok (a : α) : EndsUnless false (.ok a : Read α) := ⟨a, rfl⟩

theorem Yields.endsUnless {P : α → Prop} {r : Read α} (h : r.Yields P) : r.EndsUnless false := by
  obtain ⟨a, ha, _⟩ := h
  exact ⟨a, ha⟩

theorem EndsUnless.bind {r : Read α} {next : α → Read β} (h : r.EndsUnless p)
    (hnext : ∀ a, (next a).EndsUnless q) : EndsUnless (p || q) (r >>= next) := by
  cases p with
  | true =>
    obtain rfl : r = .error .wholeInfinity := h
    exact rfl
  | false =>
    obtain ⟨a, rfl⟩ := h
    exact hnext a

theorem EndsUnless.map {r : Read α} (h : r.EndsUnless p) (f : α → β) :
    EndsUnless p (r.map f) := by
  cases p with
  | true =>
    obtain rfl : r = .error .wholeInfinity := h
    exact rfl
  | false =>
    obtain ⟨a, rfl⟩ := h
    exact endsUnless_ok (f a)

end Read

namespace Number

variable {n : Number}

def isInfinite : Number → Bool
  | .float (.infinite _) => true
  | _ => false

/-- Only an infinity has no whole part. -/
theorem floor_endsUnless (h : n.IsProper) : n.floor.EndsUnless n.isInfinite := by
  cases n with
  | int k => exact endsUnless_ok k
  | float x =>
    cases x with
    | nan => exact absurd rfl h
    | infinite _ => exact rfl
    | finite _ _ _ => exact endsUnless_ok _

theorem ceil_endsUnless (h : n.IsProper) : n.ceil.EndsUnless n.isInfinite := by
  cases n with
  | int k => exact endsUnless_ok k
  | float x =>
    cases x with
    | nan => exact absurd rfl h
    | infinite _ => exact rfl
    | finite _ _ _ => exact endsUnless_ok _

end Number

/-- A strict bound at an infinity. -/
def Bound.isUnreachable (b : Bound) : Bool := b.strict && b.value.isInfinite

/-- Whether an end of the bounds is a strict bound at an infinity. -/
def Bounds.isUnreachable (b : Bounds) : Bool :=
  b.lower.any Bound.isUnreachable || b.upper.any Bound.isUnreachable

/-- On a column of whole numbers, bounds have rules unless one is strict and infinite. -/
theorem Bounds.rules_endsUnless {b : Bounds} (h : b.IsProper) (whole : Bool) :
    (b.rules whole).EndsUnless (whole && b.isUnreachable) := by
  obtain ⟨lower, upper⟩ := b
  have hor : (whole && isUnreachable ⟨lower, upper⟩) =
      ((whole && lower.any Bound.isUnreachable) || (whole && upper.any Bound.isUnreachable)) :=
    Bool.and_or_distrib_left ..
  rw [hor]
  unfold rules
  extract_lets rest
  have hrest : ∀ low, (rest low).EndsUnless (whole && upper.any Bound.isUnreachable) := by
    intro low
    unfold rest
    extract_lets last
    have hlast : ∀ high, (last high).EndsUnless false := fun high => endsUnless_ok _
    rw [← Bool.or_false (whole && _)]
    rcases upper with _ | ⟨high, _ | _⟩
    · simpa using hlast {}
    · simpa [Bound.isUnreachable] using hlast { maximum := some high }
    · cases whole with
      | false => exact (endsUnless_ok _).bind hlast
      | true =>
        have hceil := Number.ceil_endsUnless (h.upper _ rfl)
        exact (hceil.map _).bind hlast
  rcases lower with _ | ⟨low, _ | _⟩
  · simpa using hrest {}
  · simpa [Bound.isUnreachable] using hrest { minimum := some low }
  · cases whole with
    | false => exact (endsUnless_ok _).bind hrest
    | true =>
      have hfloor := Number.floor_endsUnless (h.lower _ rfl)
      exact (hfloor.map _).bind hrest

/-! ### Classification -/

namespace Check

open StrictDdl.Expr

/-- Whether the check has bounds on the one column it mentions, and one of them is strict and
infinite. -/
def isUnreachable (mentioned : List Json) (e : Expr) (column : Json) : Bool :=
  match mentioned, bounds? column e with
  | [only], .ok (some b) => only.same column && b.isUnreachable
  | _, _ => false

/-- A check that is written is classified, unless an infinite bound is to become a whole one. -/
theorem classify_endsUnless (mentioned : List Json) {e : Expr} (h : e.Ready) (column : Json)
    (whole : Bool) : (classify mentioned e column whole).EndsUnless
      (whole && isUnreachable mentioned e column) := by
  match mentioned with
  | [] | _ :: _ :: _ =>
    rw [isUnreachable, Bool.and_false]
    · exact endsUnless_ok none
    · simp
  | [only] =>
    obtain ⟨b?, hb, hproper⟩ := bounds?_yields column e h
    unfold classify
    dsimp only
    cases hsame : only.same column with
    | false =>
      have hreachable : isUnreachable [only] e column = false := by
        cases b? <;> simp only [isUnreachable, hb, hsame, Bool.false_and]
      rw [hreachable, Bool.and_false]
      exact endsUnless_ok none
    | true =>
      rw [if_pos rfl, hb]
      cases b? with
      | some b =>
        have hbounds : isUnreachable [only] e column = b.isUnreachable := by
          simp only [isUnreachable, hb, hsame, Bool.true_and]
        rw [hbounds]
        exact Bounds.rules_endsUnless (hproper b rfl) whole
      | none =>
        have hreachable : isUnreachable [only] e column = false := by
          simp only [isUnreachable, hb]
        rw [hreachable, Bool.and_false]
        obtain ⟨vs?, hvs, hconstants⟩ := values?_yields column e h
        rw [hvs]
        cases vs? with
        | some vs => exact ((enumRule_yields (hconstants vs rfl)).endsUnless).map some
        | none => exact (pattern?_yields column h).endsUnless.bind fun _ => endsUnless_ok _

end Check

/-! ### Trees -/

namespace ParseTree

/-- The body of a column reference with a path. -/
def IsReference (b : Json) : Prop :=
  ∃ ms names, Node.bodyOf "ColumnRef" b = .ok ms ∧ Node.strings (ms.get "fields") = .ok names

/-- The body of a constant, in any of its layouts. The text of a number is a decimal numeral. -/
def IsLiteral (b : Json) : Prop :=
  ∃ (ms : Members) (c : Constant.Literal), b = .obj ms ∧ c.WrittenIn (Constant.layout ms) ∧
    ∀ digits, c = .number digits → Numeral.IsDecimal digits.toList

/-- Every column reference of the tree has a path, and every constant a value. -/
structure WellFormed (j : Json) : Prop where
  reference : ∀ b, Json.Within (.obj [("ColumnRef", b)]) j → IsReference b
  literal : ∀ b, Json.Within (.obj [("A_Const", b)]) j → IsLiteral b

theorem WellFormed.item {j : Json} {items : List Json} (h : WellFormed (.arr items))
    (hj : j ∈ items) : WellFormed j where
  reference b hb := h.reference b (.item hj hb)
  literal b hb := h.literal b (.item hj hb)

theorem WellFormed.member {m : String × Json} {ms : Members} (h : WellFormed (.obj ms))
    (hm : m ∈ ms) : WellFormed m.2 where
  reference b hb := h.reference b (.member hm hb)
  literal b hb := h.literal b (.member hm hb)

mutual

/-- The columns of a tree are found. -/
theorem columnsFrom_yields (found : List Json) (j : Json) (h : WellFormed j) :
    (columnsFrom found j).Yields fun _ => True := by
  cases j with
  | arr items =>
    rw [columnsFrom]
    exact columnsFromAll_yields found items fun j => h.item
  | obj ms =>
    by_cases hcolumn : ∃ b, ms = [("ColumnRef", b)]
    · obtain ⟨b, rfl⟩ := hcolumn
      obtain ⟨body, names, hbody, hnames⟩ := h.reference b .refl
      rw [columnsFrom, hbody]
      refine yields_ok_bind ?_
      rw [hnames]
      exact yields_ok trivial
    · rw [columnsFrom_obj fun b hb => hcolumn ⟨b, hb⟩]
      exact columnsFromMembers_yields found ms fun m => h.member
  | _ => exact yields_ok trivial

theorem columnsFromAll_yields (found : List Json) (js : List Json)
    (h : ∀ j ∈ js, WellFormed j) : (columnsFromAll found js).Yields fun _ => True := by
  cases js with
  | nil => exact yields_ok trivial
  | cons j js =>
    obtain ⟨hj, hjs⟩ := List.forall_mem_cons.1 h
    rw [columnsFromAll]
    exact (columnsFrom_yields found j hj).bind fun found _ => columnsFromAll_yields found js hjs

theorem columnsFromMembers_yields (found : List Json) (ms : List (String × Json))
    (h : ∀ m ∈ ms, WellFormed m.2) : (columnsFromMembers found ms).Yields fun _ => True := by
  match ms with
  | [] => exact yields_ok trivial
  | (_, j) :: ms =>
    obtain ⟨hj, hms⟩ := List.forall_mem_cons.1 h
    rw [columnsFromMembers]
    exact (columnsFrom_yields found j hj).bind fun found _ =>
      columnsFromMembers_yields found ms hms

end

/-- The constants of a tree of the parser have values. -/
theorem WellFormed.definite {j : Json} (h : WellFormed j) : (Expr.ofJson j).Definite := by
  refine Expr.constantsSatisfy_ofJson j fun b ms hwithin hbody => ?_
  obtain ⟨_, c, rfl, hwritten, hdecimal⟩ := h.literal b hwithin
  cases hbody
  obtain ⟨v, hv, hconstant⟩ := Constant.Literal.exists_value hdecimal
  refine ⟨v, ?_, hconstant⟩
  rw [← Constant.ofBody_layout, hwritten.ofBody_eq, hv]

end ParseTree

/-- **A check that is written is classified**, on every column and whatever the column holds, with
one exception: on a column of whole numbers a strict bound at an infinity is refused, since no
whole number is next to it. -/
theorem Check.classify_total {j : Json} {s : String} (h : ParseTree.WellFormed j)
    (hs : (Expr.ofJson j).text .postgres = .ok s) :
    ∃ mentioned, ParseTree.columns j = .ok mentioned ∧ ∀ column whole,
      if whole && isUnreachable mentioned (.ofJson j) column then
        classify mentioned (.ofJson j) column whole =
          .error (.overflow "cannot convert float infinity to integer")
      else ∃ rules?, classify mentioned (.ofJson j) column whole = .ok rules? := by
  obtain ⟨mentioned, hmentioned, _⟩ := ParseTree.columnsFrom_yields [] j h
  obtain ⟨r, hr, _⟩ := bind_eq_ok_iff.1 hs
  have hready : (Expr.ofJson j).Ready := ⟨.inr ⟨r, hr⟩, h.definite⟩
  exact ⟨mentioned, hmentioned, fun column whole =>
    classify_endsUnless mentioned hready column whole⟩

/-- The node `n > 1e400`, whose constant is beyond the largest binary number. -/
def Sample.beyond : Json :=
  .obj [("A_Expr", .obj [("kind", .str "AEXPR_OP"),
    ("lexpr", .obj [("ColumnRef", .obj [("fields",
      .arr [.obj [("String", .obj [("sval", .str "n")])]])])]),
    ("name", .arr [.obj [("String", .obj [("sval", .str ">")])]]),
    ("rexpr", .obj [("A_Const", .obj [("fval", .obj [("fval", .str "1e400")])])])])]

theorem Sample.beyond_wellFormed : ParseTree.WellFormed Sample.beyond := by
  have hdigits : Numeral.IsDecimal "1e400".toList :=
    ⟨[], ['1'], ['e', '4', '0', '0'], rfl, .absent, .whole ⟨by simp, by simp; decide⟩,
      .marked (.inl rfl) .absent ⟨by simp, by simp; decide⟩⟩
  constructor
  · intro b hb
    obtain rfl : b = .obj [("fields", .arr [.obj [("String", .obj [("sval", .str "n")])]])] := by
      simpa [Sample.beyond, Json.within_obj, Json.within_arr, Json.within_str] using hb
    exact ⟨_, [.str "n"], rfl, rfl⟩
  · intro b hb
    obtain rfl : b = .obj [("fval", .obj [("fval", .str "1e400")])] := by
      simpa [Sample.beyond, Json.within_obj, Json.within_arr, Json.within_str] using hb
    refine ⟨_, .number "1e400", rfl, .typed nofun (.written (List.mem_singleton_self _)), ?_⟩
    rintro _ ⟨⟩
    exact hdigits

/-- The check is written, but on a column of whole numbers it is not classified. -/
theorem Check.classify_total_beyond :
    (Expr.ofJson Sample.beyond).text .postgres = .ok "n > inf" ∧
      classify [.str "n"] (.ofJson Sample.beyond) (.str "n") true =
        .error (.overflow "cannot convert float infinity to integer") := by
  have htext : (Expr.ofJson Sample.beyond).text .postgres = .ok "n > inf" := rfl
  obtain ⟨mentioned, hmentioned, hclassified⟩ := classify_total Sample.beyond_wellFormed htext
  obtain rfl : mentioned = [.str "n"] := Except.ok.inj (hmentioned.symm.trans rfl)
  exact ⟨htext, hclassified (.str "n") true⟩

end StrictDdl
