import StrictDdl.Expr.Basic

/-! The constants of an expression.

Every constant of the expression of a tree comes from a constant node somewhere in the tree
(`Expr.constantsSatisfy_ofJson`). -/
namespace StrictDdl

/-- The value stands somewhere in another one. -/
inductive Json.Within (part : Json) : Json → Prop where
  | refl : Within part part
  | item {j : Json} {items : List Json} : j ∈ items → Within part j → Within part (.arr items)
  | member {key : String} {j : Json} {ms : Members} : (key, j) ∈ ms → Within part j →
    Within part (.obj ms)

theorem Json.within_str {part : Json} {s : String} : part.Within (.str s) ↔ part = .str s := by
  constructor
  · intro h
    cases h
    rfl
  · intro h
    exact h ▸ .refl

theorem Json.within_arr {part : Json} {items : List Json} :
    part.Within (.arr items) ↔ part = .arr items ∨ ∃ item ∈ items, part.Within item := by
  constructor
  · intro h
    cases h with
    | refl => exact .inl rfl
    | item hitem h => exact .inr ⟨_, hitem, h⟩
  · intro h
    cases h with
    | inl h => exact h ▸ .refl
    | inr h =>
      obtain ⟨item, hitem, h⟩ := h
      exact .item hitem h

theorem Json.within_obj {part : Json} {ms : Members} :
    part.Within (.obj ms) ↔ part = .obj ms ∨ ∃ m ∈ ms, part.Within m.2 := by
  constructor
  · intro h
    cases h with
    | refl => exact .inl rfl
    | member hm h => exact .inr ⟨_, hm, h⟩
  · intro h
    cases h with
    | inl h => exact h ▸ .refl
    | inr h =>
      obtain ⟨m, hm, h⟩ := h
      exact .member hm h

namespace Expr

variable (P : Read Json → Read Json → Prop)

mutual

/-- Every constant of the expression, its value and the value that is shown, is of this kind. -/
def ConstantsSatisfy : Expr → Prop
  | .stray _ => True
  | .memberName _ => True
  | .unlisted => True
  | .unknown _ => True
  | .valueFunction _ => True
  | .column _ => True
  | .constant value shown => P value shown
  | .operator _ _ left right => ConstantsSatisfy left ∧ ConstantsSatisfy right
  | .nullTest _ operand => ConstantsSatisfy operand
  | .truthTest _ operand => ConstantsSatisfy operand
  | .call _ _ arguments => AllConstantsSatisfy arguments
  | .cast _ operand => ConstantsSatisfy operand
  | .items es => AllConstantsSatisfy es
  | .connective _ operands => AllConstantsSatisfy operands
  | .array es => AllConstantsSatisfy es
  | .row es => AllConstantsSatisfy es
  | .coalesce arguments => AllConstantsSatisfy arguments
  | .extremum _ arguments => AllConstantsSatisfy arguments
  | .choice subject arms otherwise =>
    ConstantsSatisfy subject ∧ AllConstantsSatisfy arms ∧ ConstantsSatisfy otherwise
  | .arm condition result => ConstantsSatisfy condition ∧ ConstantsSatisfy result

def AllConstantsSatisfy : List Expr → Prop
  | [] => True
  | e :: es => ConstantsSatisfy e ∧ AllConstantsSatisfy es

end

variable {P}

theorem allConstantsSatisfy_iff {es : List Expr} :
    AllConstantsSatisfy P es ↔ ∀ e ∈ es, e.ConstantsSatisfy P := by
  induction es with
  | nil => simp [AllConstantsSatisfy]
  | cons e es ih => rw [AllConstantsSatisfy, ih, List.forall_mem_cons]

/-! ### Reading -/

theorem constantsSatisfy_listed {value : Json} {e : Expr} (h : e.ConstantsSatisfy P) :
    AllConstantsSatisfy P (listed value e) := by
  unfold listed
  split
  · exact h
  · rw [allConstantsSatisfy_iff]
    intro e he
    obtain ⟨c, _, rfl⟩ := List.mem_map.1 he
    trivial
  · rw [allConstantsSatisfy_iff]
    intro e he
    obtain ⟨m, _, rfl⟩ := List.mem_map.1 he
    trivial
  · split
    · exact ⟨trivial, trivial⟩
    · trivial

theorem constantsSatisfy_part {read : List (String × Expr)}
    (h : ∀ m ∈ read, m.2.ConstantsSatisfy P) (key : String) :
    (part read key).ConstantsSatisfy P := by
  unfold part
  cases hfind : read.lookup key with
  | none => trivial
  | some e =>
    obtain ⟨before, after, rfl, _⟩ := List.lookup_eq_some_iff.1 hfind
    exact h (key, e) (by simp)

theorem constantsSatisfy_ofNode (kind : String) (ms : Members) {read : List (String × Expr)}
    (h : ∀ m ∈ read, m.2.ConstantsSatisfy P)
    (hconstant : kind = "A_Const" → P (Constant.ofBody ms) (Constant.value (.obj ms))) :
    (ofNode kind ms read).ConstantsSatisfy P := by
  have hpart := constantsSatisfy_part h
  have hlist : ∀ key, AllConstantsSatisfy P (listed (ms.get key) (part read key)) := fun key =>
    constantsSatisfy_listed (hpart key)
  unfold ofNode
  extract_lets list
  split
  · trivial
  · exact hconstant rfl
  · trivial
  · exact ⟨hpart _, hpart _⟩
  · exact hlist _
  · exact hpart _
  · exact hpart _
  · exact hlist _
  · exact hpart _
  · exact hlist _
  · exact hlist _
  · exact hlist _
  · exact hlist _
  · exact ⟨hpart _, hlist _, hpart _⟩
  · exact ⟨hpart _, hpart _⟩
  · trivial

/-- The bodies of all constants in the tree have values of this kind. -/
def ConstantsIn (P : Read Json → Read Json → Prop) (j : Json) : Prop :=
  ∀ b ms, Json.Within (.obj [("A_Const", b)]) j → Node.bodyOf "A_Const" b = .ok ms →
    P (Constant.ofBody ms) (Constant.value (.obj ms))

mutual

/-- **The constants of an expression are those of its tree.** -/
theorem constantsSatisfy_ofJson : (j : Json) → ConstantsIn P j → (ofJson j).ConstantsSatisfy P
  | .arr js, h => by
    rw [ofJson]
    exact constantsSatisfy_ofElements js fun j hj b ms hb => h b ms (.item hj hb)
  | .obj [(kind, .obj ms)], h => by
    rw [ofJson]
    refine constantsSatisfy_ofNode kind ms (constantsSatisfy_ofMembers ms ?_) ?_
    · intro m hm b ms' hb
      exact h b ms' (.member (List.mem_singleton_self _) (.member hm hb))
    · intro hkind
      subst hkind
      exact h (.obj ms) ms .refl rfl
  | .obj [(kind, .null)], h => by
    rw [ofJson]
    refine constantsSatisfy_ofNode kind [] (by simp) ?_
    intro hkind
    subst hkind
    exact h .null [] .refl rfl
  | .obj [], _ => trivial
  | .obj (m :: m' :: ms), _ => by
    have hstray : ofJson (.obj (m :: m' :: ms)) = .stray (.obj (m :: m' :: ms)) := by
      obtain ⟨kind, value⟩ := m
      cases value <;> rfl
    rw [hstray]
    trivial
  | .obj [(_, .bool _)], _ | .obj [(_, .int _)], _ | .obj [(_, .float _)], _ => trivial
  | .obj [(_, .str _)], _ | .obj [(_, .arr _)], _ => trivial
  | .null, _ | .bool _, _ | .int _, _ | .float _, _ | .str _, _ => trivial

theorem constantsSatisfy_ofElements : (js : List Json) → (∀ j ∈ js, ConstantsIn P j) →
    AllConstantsSatisfy P (ofElements js)
  | [], _ => trivial
  | j :: js, h =>
    ⟨constantsSatisfy_ofJson j (h j (List.mem_cons_self ..)),
      constantsSatisfy_ofElements js fun j hj => h j (List.mem_cons_of_mem _ hj)⟩

theorem constantsSatisfy_ofMembers : (ms : List (String × Json)) →
    (∀ m ∈ ms, ConstantsIn P m.2) → ∀ m ∈ ofMembers ms, m.2.ConstantsSatisfy P
  | [], _ => by simp [ofMembers]
  | (key, j) :: ms, h => by
    rw [ofMembers, List.forall_mem_cons]
    exact ⟨constantsSatisfy_ofJson j (h (key, j) (List.mem_cons_self ..)),
      constantsSatisfy_ofMembers ms fun m hm => h m (List.mem_cons_of_mem _ hm)⟩

end

end Expr

end StrictDdl
