import StrictDdl.Proofs.Sqlite.Grammar

/-! Tokens with and without their parentheses.

What the grammar reads has balanced parentheses (`Reads.balanced`), and without them its
tokens are cut at an operator in one way only (`cut_unique`). -/
namespace StrictDdl.Sqlite

/-! ### Balanced parentheses -/

/-- The number of parentheses open behind the tokens, unless one closes that is not open. -/
def depth (d : Nat) : List Token → Option Nat
  | [] => some d
  | .opening :: w => depth (d + 1) w
  | .closing :: w =>
    match d with
    | 0 => none
    | d + 1 => depth d w
  | _ :: w => depth d w

theorem depth_append (d : Nat) (u v : List Token) :
    depth d (u ++ v) = (depth d u).bind fun d => depth d v := by
  induction u generalizing d with
  | nil => rfl
  | cons t u ih =>
    cases t with
    | opening => exact ih (d + 1)
    | closing =>
      cases d with
      | zero => rfl
      | succ d => exact ih d
    | _ => exact ih d

theorem depth_succ {d d' : Nat} {w : List Token} (h : depth d w = some d') :
    depth (d + 1) w = some (d' + 1) := by
  induction w generalizing d with
  | nil =>
    cases h
    rfl
  | cons t w ih =>
    cases t with
    | opening => exact ih h
    | closing =>
      cases d with
      | zero => cases h
      | succ d => exact ih h
    | _ => exact ih h

/-- All parentheses that open close again. -/
def Balanced (w : List Token) : Prop := depth 0 w = some 0

namespace Balanced

variable {u v w : List Token}

theorem nil : Balanced [] := rfl

theorem append (hu : Balanced u) (hv : Balanced v) : Balanced (u ++ v) := by
  rw [Balanced, depth_append, hu]
  exact hv

theorem cons {t : Token} (ht : t.isParen = false) (hw : Balanced w) : Balanced (t :: w) := by
  cases t with
  | opening => cases ht
  | closing => cases ht
  | _ => exact hw

theorem enclosed (hw : Balanced w) : Balanced (.opening :: (w ++ [.closing])) := by
  show depth 1 (w ++ [.closing]) = some 0
  rw [depth_append, depth_succ hw]
  rfl

theorem of_plain (h : ∀ t ∈ w, t.isParen = false) : Balanced w := by
  induction w with
  | nil => exact nil
  | cons t w ih =>
    exact cons (h t (List.mem_cons_self ..)) (ih fun u hu => h u (List.mem_cons_of_mem t hu))

theorem separated {sep : Token} (hsep : sep.isParen = false) {ws : List (List Token)}
    (h : ∀ w ∈ ws, Balanced w) : Balanced (separated sep ws) := by
  induction ws with
  | nil => exact nil
  | cons w ws ih =>
    cases ws with
    | nil => exact h w (by simp)
    | cons v ws =>
      exact (h w (by simp)).append (cons hsep (ih fun u hu => h u (List.mem_cons_of_mem w hu)))

/-- What starts with a balanced part and goes on without a parenthesis is not one pair of
parentheses around something balanced. -/
theorem append_ne_enclosed (hu : Balanced u) (hw : Balanced w) (hne : v ≠ [])
    (hv : v.head? ≠ some .opening) : u ++ v ≠ .opening :: (w ++ [.closing]) := by
  intro heq
  cases u with
  | nil =>
    rw [List.nil_append] at heq
    exact hv (heq ▸ rfl)
  | cons t u =>
    obtain ⟨rfl, hrest⟩ := List.cons.inj heq
    obtain ⟨v', last, rfl⟩ := List.eq_nil_or_concat v |>.resolve_left hne
    rw [List.concat_eq_append] at hrest
    have hrest' : (u ++ v') ++ [last] = w ++ [.closing] := (List.append_assoc ..).trans hrest
    have hw' : u ++ v' = w := (List.append_inj' hrest' rfl).1
    rw [Balanced, ← hw', depth_append] at hw
    obtain ⟨d, hd, _⟩ := Option.bind_eq_some_iff.1 hw
    have hopen : depth 1 u = some 0 := hu
    rw [depth_succ hd] at hopen
    exact absurd hopen (by simp)

end Balanced

theorem Suffix.isParen_of_mem_tokens (s : Suffix) : ∀ t ∈ s.tokens, t.isParen = false := by
  cases s with
  | binary op => cases op <;> decide
  | joined j => cases j <;> decide
  | nullTest negated => cases negated <;> decide
  | membership negated => cases negated <;> decide
  | range negated => cases negated <;> decide

theorem Suffix.head_ne_opening (s : Suffix) (w : List Token) :
    (s.tokens ++ w).head? ≠ some .opening := by
  obtain ⟨t, rest, hs⟩ := List.exists_cons_of_ne_nil s.tokens_ne_nil
  have ht := s.isParen_of_mem_tokens t (by simp [hs])
  rw [hs]
  rintro heq
  cases heq
  cases ht

theorem Junction.isParen_token (j : Junction) : j.token.isParen = false := by cases j <;> rfl

theorem Reads.balanced {k e : Nat} {w : List Token} {t : Tree} (h : Reads k e w t) : Balanced w := by
  induction h with
  | @column k s names =>
    refine .of_plain fun t ht => ?_
    rcases List.mem_cons.1 ht with rfl | ht
    · rfl
    · obtain ⟨name, _, ht⟩ := List.mem_flatMap.1 ht
      rcases List.mem_cons.1 ht with rfl | ht
      · rfl
      · rw [List.mem_singleton.1 ht]
        rfl
  | text => rfl
  | whole => rfl
  | fractional => rfl
  | parens _ ih => exact ih.enclosed
  | negation _ _ ih => exact .cons rfl ih
  | binary op _ _ _ _ ihl ihr =>
    exact ihl.append ((Balanced.of_plain (Suffix.binary op).isParen_of_mem_tokens).append ihr)
  | joined j _ _ _ _ ihl ihr => exact ihl.append (.cons j.isParen_token ihr)
  | nullTest negated _ _ _ ih =>
    exact ih.append (.of_plain (Suffix.nullTest negated).isParen_of_mem_tokens)
  | membership negated items _ _ _ _ ih ihitems =>
    have hitems : Balanced (separated .comma (items.map Item.tokens)) := by
      refine .separated rfl fun w hw => ?_
      obtain ⟨i, hi, rfl⟩ := List.mem_map.1 hw
      exact ihitems i hi
    exact ih.append ((Balanced.of_plain (Suffix.membership negated).isParen_of_mem_tokens).append
      hitems.enclosed)
  | range negated _ _ _ _ _ ih ih₁ ih₂ =>
    exact ih.append ((Balanced.of_plain (Suffix.range negated).isParen_of_mem_tokens).append
      (ih₁.append (.cons rfl ih₂)))

/-! ### Tokens without parentheses -/

/-- The tokens that are no parentheses. -/
def content (w : List Token) : List Token := w.filter fun t => !t.isParen

@[simp] theorem content_nil : content [] = [] := rfl

@[simp] theorem content_append (u v : List Token) : content (u ++ v) = content u ++ content v :=
  List.filter_append ..

theorem content_cons {t : Token} (ht : t.isParen = false) (w : List Token) :
    content (t :: w) = t :: content w := by
  rw [content, List.filter_cons_of_pos (by simp [ht])]
  rfl

theorem content_enclosed (w : List Token) : content (.opening :: (w ++ [.closing])) = content w := by
  show content (w ++ [.closing]) = content w
  rw [content_append]
  exact List.append_nil _

theorem content_separated {sep : Token} (hsep : sep.isParen = false) (ws : List (List Token)) :
    content (separated sep ws) = separated sep (ws.map content) := by
  induction ws with
  | nil => rfl
  | cons w ws ih =>
    cases ws with
    | nil => rfl
    | cons v ws =>
      rw [separated, content_append, content_cons hsep, ih]
      · rfl
      · simp

theorem separated_append {sep : Token} {us vs : List (List Token)} (hu : us ≠ []) (hv : vs ≠ []) :
    separated sep (us ++ vs) = separated sep us ++ sep :: separated sep vs := by
  induction us with
  | nil => exact absurd rfl hu
  | cons u us ih =>
    obtain ⟨v, vs, rfl⟩ := List.exists_cons_of_ne_nil hv
    cases us with
    | nil => rfl
    | cons u' us =>
      have := ih (by simp)
      simp only [List.cons_append, separated, List.append_assoc] at this ⊢
      rw [this]

/-- Tokens are cut at an operator in one way, as long as it is clear what stands before it. -/
theorem cut_unique {t : Token} (ht : t.isParen = false) {u u' v v' : List Token}
    (h : u ++ t :: v = u' ++ t :: v') (hu : content u = content u') : u = u' ∧ v = v' := by
  induction u generalizing u' with
  | nil =>
    cases u' with
    | nil => exact ⟨rfl, (List.cons.inj h).2⟩
    | cons s u' =>
      obtain ⟨rfl, _⟩ := List.cons.inj h
      rw [content_cons ht] at hu
      exact absurd hu (by simp)
  | cons s u ih =>
    cases u' with
    | nil =>
      obtain ⟨rfl, _⟩ := List.cons.inj h
      rw [content_cons ht] at hu
      exact absurd hu (by simp)
    | cons s' u' =>
      obtain ⟨rfl, hrest⟩ := List.cons.inj h
      have hcontent : content u = content u' := by
        cases hs : s.isParen with
        | true => simpa [content, hs] using hu
        | false =>
          rw [content_cons hs, content_cons hs] at hu
          exact (List.cons.inj hu).2
      obtain ⟨rfl, hv⟩ := ih hrest hcontent
      exact ⟨rfl, hv⟩

theorem Suffix.cut_unique (s : Suffix) {u u' v v' : List Token}
    (h : u ++ (s.tokens ++ v) = u' ++ (s.tokens ++ v')) (hu : content u = content u') :
    u = u' ∧ v = v' := by
  obtain ⟨t, rest, hs⟩ := List.exists_cons_of_ne_nil s.tokens_ne_nil
  have ht := s.isParen_of_mem_tokens t (by simp [hs])
  rw [hs, List.cons_append, List.cons_append] at h
  obtain ⟨rfl, hrest⟩ := Sqlite.cut_unique ht h hu
  exact ⟨rfl, List.append_cancel_left hrest⟩

/-- Lists are cut at their separators in one way. -/
theorem separated_inj {sep : Token} (hsep : sep.isParen = false) {us vs : List (List Token)}
    (h : separated sep us = separated sep vs) (hcontent : us.map content = vs.map content) :
    us = vs := by
  induction us generalizing vs with
  | nil =>
    cases vs with
    | nil => rfl
    | cons v vs => exact absurd hcontent (by simp)
  | cons u us ih =>
    cases vs with
    | nil => exact absurd hcontent (by simp)
    | cons v vs =>
      obtain ⟨hfirst, hrest⟩ := List.cons.inj hcontent
      cases us with
      | nil =>
        cases vs with
        | nil => exact congrArg (· :: []) h
        | cons v' vs => exact absurd hrest (by simp)
      | cons u' us =>
        cases vs with
        | nil => exact absurd hrest (by simp)
        | cons v' vs =>
          obtain ⟨rfl, htail⟩ := cut_unique hsep h hfirst
          rw [ih htail hrest]

end StrictDdl.Sqlite
