import Mathlib.Data.Fintype.EquivFin
import StrictDdl.Proofs.Check.Range

/-! Checks that are lists of values.

A check that is taken for a list of values denies exactly what is equal to none of its constants.
The list has these constants, but for those that it takes for repetitions: the number 1 after the
truth value is left out (`Check.Lists`). So the list is right unless that happens, or a constant is
null, which makes the check admit everything (`Check.classify_membership_iff`). -/
namespace StrictDdl

open Sql

/-! ### Sameness of constants -/

theorem Json.eq_null_of_same {j : Json} (h : j.same .null = true) : j = .null := by
  cases j <;> simp_all [same, same.sameNumber, number?]

namespace Sql.Value

@[simp] theorem ofJson?_toJson (s : Scalar) : ofJson? s.toJson = some (ofScalar s) := by
  cases s <;> rfl

theorem equal_comm (v w : Value) : v.equal w = w.equal v := by
  cases v <;> cases w <;> simp [equal, Truth.ofBool, eq_comm]

/-- Texts and the null value: what is never taken for another constant. -/
def IsUnique : Value → Prop
  | .null => True
  | .text _ => True
  | _ => False

variable {i j : Json}

/-- Only scalars are the same as a scalar. -/
theorem isSome_ofJson?_of_same (h : i.same j = true) (hi : (ofJson? i).isSome) :
    (ofJson? j).isSome := by
  cases i <;> cases j <;> simp_all [Json.same, Json.same.sameNumber, Json.number?, ofJson?,
    Scalar.ofJson?]

theorem eq_of_same {k : Value} (h : i.same j = true) (hj : ofJson? j = some k) (hk : k.IsUnique) :
    i = j := by
  cases j with
  | null => exact Json.eq_null_of_same h
  | str s => exact Json.eq_str_of_same h
  | bool b => cases hj; cases hk
  | int n => cases hj; cases hk
  | float x =>
    cases hj
    simp only [ofScalar, ofNumber] at hk
    split at hk <;> cases hk
  | arr js => cases hj
  | obj ms => cases hj

end Sql.Value

namespace Check

open StrictDdl.Expr

/-! ### What a list has to do with its check -/

/-- The list goes on from what was found with the values of the constants, but for repetitions. -/
structure Collects (found vs : List Json) (constants : List Value) : Prop where
  kept : found ⊆ vs
  sound : ∀ j ∈ vs, j ∈ found ∨ ∃ k ∈ constants, Value.ofJson? j = some k
  complete : ∀ k ∈ constants, k.IsUnique → ∃ j ∈ vs, Value.ofJson? j = some k

/-- The expression denies what is equal to none of its constants, and these are in the list. -/
structure Lists (column : Json) (vs : List Json) (e : Expr) : Prop where
  truth : ∀ v : Value, ∃ t, e.truth? column v = some t ∧
    (t = .no ↔ ∀ k ∈ e.literals, v.equal k = .no)
  collects : Collects [] vs e.literals

theorem Collects.of_map {vs : List Json} {constants : List Value}
    (h : vs.map Value.ofJson? = constants.map some) : Collects [] vs constants := by
  refine ⟨List.nil_subset _, fun j hj => .inr ?_, fun k hk _ => ?_⟩
  · have hmem : Value.ofJson? j ∈ constants.map some := h ▸ List.mem_map_of_mem hj
    simpa [eq_comm] using hmem
  · have hmem : some k ∈ vs.map Value.ofJson? := h ▸ List.mem_map_of_mem hk
    simpa using hmem

theorem Collects.trans {found mid vs : List Json} {constants more : List Value}
    (h : Collects found mid constants) (h' : Collects mid vs more) :
    Collects found vs (constants ++ more) := by
  refine ⟨List.Subset.trans h.kept h'.kept, fun j hj => ?_, fun k hk hunique => ?_⟩
  · rcases h'.sound j hj with hmid | ⟨k, hk, hjk⟩
    · rcases h.sound j hmid with hfound | ⟨k, hk, hjk⟩
      · exact .inl hfound
      · exact .inr ⟨k, List.mem_append_left _ hk, hjk⟩
    · exact .inr ⟨k, List.mem_append_right _ hk, hjk⟩
  · rcases List.mem_append.1 hk with hk | hk
    · obtain ⟨j, hj, hjk⟩ := h.complete k hk hunique
      exact ⟨j, h'.kept hj, hjk⟩
    · exact h'.complete k hk hunique

/-- Values found before stay, and each new one is there, or one that is the same. -/
theorem addNew_spec (found vs : List Json) :
    found ⊆ addNew found vs ∧ (∀ j ∈ addNew found vs, j ∈ found ∨ j ∈ vs) ∧
      ∀ j ∈ vs, ∃ i ∈ addNew found vs, i = j ∨ i.same j = true := by
  induction vs generalizing found with
  | nil => simp [addNew]
  | cons w ws ih =>
    rw [addNew]
    split
    · rename_i hin
      obtain ⟨hkept, hsound, hnew⟩ := ih found
      refine ⟨hkept, fun j hj => (hsound j hj).imp_right (List.mem_cons_of_mem _), ?_⟩
      rintro j (_ | ⟨_, hj⟩)
      · obtain ⟨i, hi, hsame⟩ := List.any_eq_true.1 hin
        exact ⟨i, hkept hi, .inr hsame⟩
      · exact hnew j hj
    · obtain ⟨hkept, hsound, hnew⟩ := ih (found ++ [w])
      refine ⟨List.Subset.trans (List.subset_append_left ..) hkept, fun j hj => ?_, ?_⟩
      · simpa [or_assoc] using hsound j hj
      · rintro j (_ | ⟨_, hj⟩)
        · exact ⟨w, hkept (by simp), .inl rfl⟩
        · exact hnew j hj

theorem Collects.addNew {found vs : List Json} {constants : List Value}
    (h : Collects [] vs constants) : Collects found (Check.addNew found vs) constants := by
  obtain ⟨hkept, hsound, hnew⟩ := addNew_spec found vs
  refine ⟨hkept, fun j hj => ?_, fun k hk hunique => ?_⟩
  · exact (hsound j hj).imp_right fun hvs => (h.sound j hvs).resolve_left (by simp)
  · obtain ⟨j, hj, hjk⟩ := h.complete k hk hunique
    obtain ⟨i, hi, rfl | hsame⟩ := hnew j hj
    · exact ⟨i, hi, hjk⟩
    · exact ⟨i, hi, Value.eq_of_same hsame hjk hunique ▸ hjk⟩

variable {column : Json} {symbol : Read (List Json)} {left right : Expr} {vs : List Json}

/-- Constants that are read one by one are listed one by one. -/
theorem map_literals {es : List Expr} (h : constants? es = .ok (some vs))
    (hscalar : ∀ j ∈ vs, (Value.ofJson? j).isSome) :
    List.Forall₂ (fun e k => e.literal? = some k) es (literalsOf es) ∧
      vs.map Value.ofJson? = (literalsOf es).map some := by
  have hread := constants?_eq_ok h
  clear h
  induction hread with
  | nil => exact ⟨.nil, rfl⟩
  | @cons e j es js he _ ih =>
    obtain ⟨hrest, hvalues⟩ := ih fun i hi => hscalar i (List.mem_cons_of_mem _ hi)
    obtain ⟨k, hk⟩ := Option.isSome_iff_exists.1 (hscalar j (List.mem_cons_self ..))
    have hliteral : e.literal? = some k := (literal?_of_constant? e he).trans hk
    rw [literalsOf, literals_of_literal? e hliteral]
    exact ⟨.cons hliteral hrest, by simp [hk, hvalues]⟩

theorem isEqualityOf_eq_true (h : isEqualityOf column symbol left = .ok true) :
    symbol? symbol = some "=" ∧ left.isReferenceTo column = true := by
  obtain ⟨name, hname, h⟩ := Read.bind_eq_ok_iff.1 h
  split at h
  · rename_i hequal
    obtain rfl := Json.eq_str_of_same hequal
    exact ⟨symbol?_of_operatorName hname, isReferenceTo_of_isColumn h⟩
  · cases h

/-- A test for equality with one of several constants. -/
theorem lists_elements {form : OperatorForm} {es : List Expr}
    (hform : form = .membership ∨ form = .quantified false)
    (hequal : isEqualityOf column symbol left = .ok true) (hright : right.elements? = some es)
    (h : constants? es = .ok (some vs)) (hscalar : ∀ j ∈ vs, (Value.ofJson? j).isSome) :
    Lists column vs (.operator form symbol left right) := by
  obtain ⟨hsymbol, hleft⟩ := isEqualityOf_eq_true hequal
  obtain ⟨hread, hvalues⟩ := map_literals h hscalar
  have hliterals : (Expr.operator form symbol left right).literals = literalsOf es := by
    rw [literals_operator (.inr (by simp [hsymbol])), literals_of_isReferenceTo hleft,
      literals_of_elements? right hright, List.nil_append]
  refine ⟨fun v => ⟨.any ((literalsOf es).map v.equal), ?_, ?_⟩, hliterals ▸ .of_map hvalues⟩
  · rcases hform with rfl | rfl <;>
      simp [truth?, test?, test?.equalsOne?, hsymbol, hright, operand?_of_isReferenceTo hleft,
        operands_of_literals hread]
  · rw [Truth.any_eq_no_iff, hliterals, List.forall_mem_map]

/-- The column and a constant are on the two sides of an equality. -/
theorem equality?_eq_ok {j : Json} (h : equality? column symbol left right = .ok (some j)) :
    symbol? symbol = some "=" ∧
      ((left.isReferenceTo column = true ∧ right.literal? = Value.ofJson? j) ∨
        (right.isReferenceTo column = true ∧ left.literal? = Value.ofJson? j)) := by
  obtain ⟨name, hname, h⟩ := Read.bind_eq_ok_iff.1 h
  split at h
  · rename_i hequal
    obtain rfl := Json.eq_str_of_same hequal
    refine ⟨symbol?_of_operatorName hname, ?_⟩
    obtain ⟨swapped, _, h⟩ := Read.bind_eq_ok_iff.1 h
    cases swapped with
    | false =>
      obtain ⟨isColumn, hcolumn, h⟩ := Read.bind_eq_ok_iff.1 h
      split at h
      · rename_i hisColumn
        exact .inl ⟨(isReferenceTo_of_isColumn hcolumn).trans hisColumn,
          literal?_of_constant? right h⟩
      · cases h
    | true =>
      obtain ⟨isColumn, hcolumn, h⟩ := Read.bind_eq_ok_iff.1 h
      split at h
      · rename_i hisColumn
        exact .inr ⟨(isReferenceTo_of_isColumn hcolumn).trans hisColumn,
          literal?_of_constant? left h⟩
      · cases h
  · cases h

/-- An equality with the column on either side. -/
theorem lists_equality {j : Json} (h : equality? column symbol left right = .ok (some j))
    (hscalar : (Value.ofJson? j).isSome) :
    Lists column [j] (.operator .plain symbol left right) := by
  obtain ⟨k, hk⟩ := Option.isSome_iff_exists.1 hscalar
  obtain ⟨hsymbol, hsides⟩ := equality?_eq_ok h
  rw [hk] at hsides
  have hliterals : (Expr.operator .plain symbol left right).literals = [k] := by
    rw [literals_operator (.inr (by simp [hsymbol]))]
    rcases hsides with ⟨hcolumn, hvalue⟩ | ⟨hcolumn, hvalue⟩ <;>
      simp [literals_of_isReferenceTo hcolumn, literals_of_literal? _ hvalue]
  refine ⟨fun v => ⟨v.equal k, ?_, by simp [hliterals]⟩, hliterals ▸ .of_map (by simp [hk])⟩
  rcases hsides with ⟨hcolumn, hvalue⟩ | ⟨hcolumn, hvalue⟩
  · rw [truth?_comparison hsymbol (operand?_of_isReferenceTo hcolumn) (operand?_of_literal? hvalue)]
    rfl
  · rw [truth?_comparison hsymbol (operand?_of_literal? hvalue) (operand?_of_isReferenceTo hcolumn),
      v.equal_comm]
    rfl

theorem elements?_of_arrayElements? {e : Expr} {es : List Expr}
    (h : arrayElements? e = .ok (some es)) : e.elements? = some es := by
  obtain ⟨_, _, h⟩ := Read.bind_eq_ok_iff.1 h
  obtain ⟨_, _, h⟩ := Read.bind_eq_ok_iff.1 h
  split at h
  · rename_i hnode
    cases h
    split at hnode
    · subst hnode
      rfl
    · subst hnode
      rfl
  · cases h

mutual

/-- **A list of values has the constants of its check.** -/
theorem values?_lists (column : Json) (e : Expr) {vs : List Json}
    (h : values? column e = .ok (some vs)) (hscalar : ∀ j ∈ vs, (Value.ofJson? j).isSome) :
    Lists column vs e := by
  have hother (e : Expr) :
      (do e.sound ["A_Expr", "BoolExpr"]; return none : Read (Option (List Json))) ≠
        .ok (some vs) := by
    intro h
    obtain ⟨_, _, h⟩ := Read.bind_eq_ok_iff.1 h
    cases h
  cases e with
  | operator form symbol left right =>
    cases form with
    | plain =>
      rw [values?] at h
      obtain ⟨j?, hj, h⟩ := Read.bind_eq_ok_iff.1 h
      obtain ⟨j, rfl, rfl⟩ := Option.map_eq_some_iff.1 (Except.ok.inj h)
      exact lists_equality hj (hscalar j (by simp))
    | membership =>
      rw [values?] at h
      obtain ⟨isEquality, hequal, h⟩ := Read.bind_eq_ok_iff.1 h
      split at h
      · rename_i hisEquality
        obtain ⟨es?, hes, h⟩ := Read.bind_eq_ok_iff.1 h
        split at h
        · exact lists_elements (.inl rfl) (hisEquality ▸ hequal) (elements?_of_listed? hes) h hscalar
        · cases h
      · cases h
    | quantified all =>
      cases all with
      | true => exact absurd h (hother _)
      | false =>
        rw [values?] at h
        obtain ⟨isEquality, hequal, h⟩ := Read.bind_eq_ok_iff.1 h
        split at h
        · rename_i hisEquality
          obtain ⟨es?, hes, h⟩ := Read.bind_eq_ok_iff.1 h
          split at h
          · exact lists_elements (.inr rfl) (hisEquality ▸ hequal) (elements?_of_arrayElements? hes)
              h hscalar
          · cases h
        · cases h
    | _ => exact absurd h (hother _)
  | connective op operands =>
    cases op with
    | disjunction =>
      obtain ⟨hcollects, htruth⟩ := joinAll?_lists column [] operands h hscalar
      refine ⟨fun v => ?_, by rwa [literals]⟩
      obtain ⟨ts, hts, hiff⟩ := htruth v
      refine ⟨.any ts, by rw [truth?, hts, Option.map_some], ?_⟩
      rw [Truth.any_eq_no_iff, hiff, literals]
    | _ => exact absurd h (hother _)
  | unlisted => cases h
  | _ => exact absurd h (hother _)

/-- Each operand adds its constants to what was found. -/
theorem joinAll?_lists (column : Json) (found : List Json) (es : List Expr) {vs : List Json}
    (h : joinAll? column found es = .ok (some vs)) (hscalar : ∀ j ∈ vs, (Value.ofJson? j).isSome) :
    Collects found vs (literalsOf es) ∧ ∀ v : Value, ∃ ts, truths? column v es = some ts ∧
      ((∀ t ∈ ts, t = .no) ↔ ∀ k ∈ literalsOf es, v.equal k = .no) := by
  cases es with
  | nil =>
    have hvs := Except.ok.inj h
    split at hvs
    · cases hvs
    · cases hvs
      exact ⟨⟨List.Subset.refl _, fun _ => .inl, by simp [literalsOf]⟩,
        fun v => ⟨[], rfl, by simp [literalsOf]⟩⟩
  | cons e es =>
    rw [joinAll?] at h
    obtain ⟨ws?, hws, h⟩ := Read.bind_eq_ok_iff.1 h
    split at h
    · cases h
    · rename_i ws
      obtain ⟨hrest, hresttruth⟩ := joinAll?_lists column (addNew found ws) es h hscalar
      -- what was read last is all scalar, so what it repeats is
      have hwscalar : ∀ j ∈ ws, (Value.ofJson? j).isSome := by
        intro j hj
        obtain ⟨i, hi, rfl | hsame⟩ := (addNew_spec found ws).2.2 j hj
        · exact hscalar i (hrest.kept hi)
        · exact Value.isSome_ofJson?_of_same hsame (hscalar i (hrest.kept hi))
      have hlists := values?_lists column e hws hwscalar
      refine ⟨by rw [literalsOf]; exact hlists.collects.addNew.trans hrest, fun v => ?_⟩
      obtain ⟨t, ht, htiff⟩ := hlists.truth v
      obtain ⟨ts, hts, hiff⟩ := hresttruth v
      refine ⟨t :: ts, by rw [truths?, ht, hts]; rfl, ?_⟩
      rw [List.forall_mem_cons, literalsOf, List.forall_mem_append, htiff, hiff]

end

/-! ### Exactness -/

variable {mentioned : List Json} {e : Expr} {whole : Bool} {rules : ValueRules} {listed : List Scalar}

/-- The values that a check is taken for are those of its constants. -/
theorem lists_of_classify (h : classify mentioned e column whole = .ok (some rules))
    (hvalues : rules.enumValues = some listed) :
    Lists column (listed.map Scalar.toJson) e := by
  have henum : rules.Sets (.enum (listed.map Scalar.toJson)) := by simp [ValueRules.Sets, hvalues]
  rcases classify_cases h with ⟨b, _, hrules⟩ | ⟨vs, hvs, hr⟩ | ⟨p, rfl⟩
  · have hkind := Bounds.isBound_of_sets_rules hrules henum
    simp [ValueRule.kind, RuleKind.IsBound] at hkind
  · obtain rfl := Option.some.inj (henum.symm.trans (sets_of_enumRule hr))
    exact values?_lists column e hvs (by simp)
  · cases hvalues

theorem exists_text_notMem (values : List Value) : ∃ s : String, .text s ∉ values := by
  let texts := values.filterMap fun
    | .text s => some s
    | _ => none
  obtain ⟨s, hs⟩ := Infinite.exists_notMem_finset texts.toFinset
  exact ⟨s, fun hmem => hs (List.mem_toFinset.2 (List.mem_filterMap.2 ⟨_, hmem, rfl⟩))⟩

/-- **A list of values admits what its check admits exactly if no constant is null, and none is
left out.** The check admits what is not denied: each value that is listed, and if a constant is
null any other value as well. -/
theorem classify_membership_iff (h : classify mentioned e column whole = .ok (some rules))
    (hvalues : rules.enumValues = some listed) :
    (∀ v : Value, v.IsPlain → ∃ t, e.truth? column v = some t ∧
      (v ∈ listed.map Value.ofScalar → t ≠ .no)) ∧
    ((∀ v : Value, v.IsPlain → ∃ t, e.truth? column v = some t ∧
        (v ∈ listed.map Value.ofScalar ↔ t ≠ .no)) ↔
      ∀ k ∈ e.literals, k ≠ .null ∧ (k.IsPlain → k ∈ listed.map Value.ofScalar)) := by
  obtain ⟨htruth, hcollects⟩ := lists_of_classify h hvalues
  have hlisted (k : Value) : k ∈ listed.map Value.ofScalar ↔
      ∃ j ∈ listed.map Scalar.toJson, Value.ofJson? j = some k := by simp
  have hsound {k : Value} (hk : k ∈ listed.map Value.ofScalar) : k ∈ e.literals := by
    obtain ⟨j, hj, hjk⟩ := (hlisted k).1 hk
    obtain ⟨k', hk', hjk'⟩ := (hcollects.sound j hj).resolve_left (by simp)
    rwa [Option.some.inj (hjk.symm.trans hjk')]
  -- a value is denied exactly if it is none of the constants, and none of these is null
  have hadmits {v : Value} (hv : v.IsPlain) : ∃ t, e.truth? column v = some t ∧
      (t ≠ .no ↔ .null ∈ e.literals ∨ v ∈ e.literals) := by
    obtain ⟨t, ht, hiff⟩ := htruth v
    refine ⟨t, ht, ?_⟩
    rw [Ne, hiff]
    simp only [Value.equal_eq_no_iff hv]
    grind
  refine ⟨fun v hv => ?_, fun hexact k hk => ⟨?_, fun hplain => ?_⟩, fun hconstants v hv => ?_⟩
  · obtain ⟨t, ht, hiff⟩ := hadmits hv
    exact ⟨t, ht, fun hmem => hiff.2 (.inr (hsound hmem))⟩
  · rintro rfl
    obtain ⟨s, hs⟩ := exists_text_notMem (listed.map Value.ofScalar)
    obtain ⟨t, ht, hexact⟩ := hexact (.text s) trivial
    obtain ⟨t', ht', hiff⟩ := hadmits (v := .text s) trivial
    obtain rfl := Option.some.inj (ht.symm.trans ht')
    exact hs (hexact.2 (hiff.2 (.inl hk)))
  · obtain ⟨t, ht, hexact⟩ := hexact k hplain
    obtain ⟨t', ht', hiff⟩ := hadmits hplain
    obtain rfl := Option.some.inj (ht.symm.trans ht')
    exact hexact.2 (hiff.2 (.inr hk))
  · obtain ⟨t, ht, hiff⟩ := hadmits hv
    refine ⟨t, ht, fun hmem => hiff.2 (.inr (hsound hmem)), fun hne => ?_⟩
    rcases hiff.1 hne with hnull | hmem
    · exact absurd rfl (hconstants _ hnull).1
    · exact (hconstants v hmem).2 hv

/-- The check `c IN ('a', NULL)`. -/
def Sample.nullable : Expr :=
  .operator .membership (.ok [.str "="]) reference
    (.items [.constant (.ok (.str "a")) (.ok (.str "a")), .constant (.ok .null) (.ok .null)])

/-- The check is unknown, hence kept, for the text `b`, which is not in its list. -/
theorem classify_membership_nullable :
    classify [.str "c"] Sample.nullable (.str "c") false =
        .ok (some { enumValues := some [.text "a", .null] }) ∧
      Sample.nullable.truth? (.str "c") (.text "b") = some .unknown ∧
      ¬ ∀ v : Value, v.IsPlain → ∃ t, Sample.nullable.truth? (.str "c") v = some t ∧
        (v ∈ [Scalar.text "a", .null].map Value.ofScalar ↔ t ≠ .no) := by
  have hclass : classify [.str "c"] Sample.nullable (.str "c") false =
      .ok (some { enumValues := some [.text "a", .null] }) := rfl
  refine ⟨hclass, rfl, fun hexact => ?_⟩
  obtain ⟨hnull, _⟩ := (classify_membership_iff hclass rfl).2.1 hexact .null (by decide)
  exact hnull rfl

end Check

end StrictDdl
