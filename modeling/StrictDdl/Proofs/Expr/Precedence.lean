import StrictDdl.Proofs.Expr.Tokens
import StrictDdl.Proofs.Sqlite.Parens

/-! When the target database reads a rendered expression as it was meant.

The text of an expression has the parentheses that the source dialect needs. Its operators
do not bind in the same order in the target: there `||` binds more tightly than sums and
products, and equalities, tests, matches, memberships and ranges share one level below the
comparisons. `Tree.isGrouped` says that every operand without parentheses binds tightly
enough for the target as well. Where that holds, and where every name and number is read as
it was written, the text is read as the same tree, and nowhere else
(`Expr.text_read_back_iff`). -/
namespace StrictDdl.Sqlite

namespace Tree

/-! ### How tightly a tree holds together -/

/-- The level of an operand; parentheses close it off. -/
def standing (loose : Bool) (level : Nat) : Nat := if loose then closedLevel else level

/-- The level of the last operator whose right operand is open. -/
def rightEdge : Tree → Nat
  | .binary op _ _ => op.level
  | .range .. => testLevel
  | .negation _ => negationLevel
  | .joined j _ => j.level
  | _ => closedLevel

/-- The tightest level at which the tree can be read; operators on the left of the first
operand count, as far as no parentheses are around them. -/
def leftLevel : Tree → Nat
  | .binary op left _ => min op.level (standing (left.isLoose op.binding false) left.leftLevel)
  | .nullTest .. => testLevel
  | .membership .. => testLevel
  | .range .. => testLevel
  | .negation _ => negationLevel
  | .joined j _ => j.level
  | _ => closedLevel

mutual

/-- Whether every operand without parentheses belongs to its operator in the target: on the
left no looser operator is open, on the right every operator binds more tightly. -/
def isGrouped : Tree → Bool
  | .binary op left right =>
    left.isGrouped && right.isGrouped &&
      op.level ≤ standing (left.isLoose op.binding false) left.rightEdge &&
      op.level < standing (right.isLoose op.binding true) right.leftLevel
  | .nullTest _ operand => operand.isGrouped
  | .membership _ operand items => operand.isGrouped && areGrouped items
  | .range _ operand low high => operand.isGrouped && low.isGrouped && high.isGrouped
  | .negation operand => operand.isGrouped
  | .joined _ operands => areGrouped operands
  | _ => true

def areGrouped : List Tree → Bool
  | [] => true
  | t :: rest => t.isGrouped && areGrouped rest

end

theorem areGrouped_iff (ts : List Tree) : areGrouped ts ↔ ∀ t ∈ ts, t.isGrouped := by
  induction ts with
  | nil => simp [areGrouped]
  | cons t ts ih => simp [areGrouped, ih]

/-- A level that every tree with the binding reaches on both sides. -/
def floor : Binding → Nat
  | .disjunction => 1
  | .conjunction => 2
  | .negation => 3
  | .test | .comparison | .matching => 4
  | .userOperator | .sum => 6
  | .product | .power | .sign | .cast => 7
  | .atom => 9

theorem floor_mono {a b : Binding} (h : a.rank ≤ b.rank) : floor a ≤ floor b := by
  revert h
  cases a <;> cases b <;> decide

theorem rank_le_of_not_isLoose {t : Tree} {place : Binding} {onRight : Bool}
    (h : t.isLoose place onRight = false) : place.rank ≤ t.rendered.binding.rank := by
  simp only [isLoose, Rendered.isLoose, Bool.or_eq_false_iff, decide_eq_false_iff_not] at h
  omega

theorem floor_le_level (op : Infix) : floor op.binding ≤ op.level := by
  cases op <;> decide

theorem floor_le_rightEdge (t : Tree) : floor t.rendered.binding ≤ t.rightEdge := by
  cases t with
  | binary op left right => exact floor_le_level op
  | joined j operands => cases j <;> exact Nat.le_refl _
  | _ => exact Nat.le_of_ble_eq_true rfl

theorem floor_le_leftLevel (t : Tree) : floor t.rendered.binding ≤ t.leftLevel := by
  match t with
  | .binary op left right =>
    rw [leftLevel]
    refine Nat.le_min.2 ⟨floor_le_level op, ?_⟩
    rw [standing]
    split
    · exact Nat.le_trans (floor_le_level op) (Nat.le_of_lt op.level_bounds.2)
    · rename_i h
      have hrank : op.binding.rank ≤ left.rendered.binding.rank :=
        rank_le_of_not_isLoose (by simpa using h)
      exact Nat.le_trans (floor_mono hrank) (floor_le_leftLevel left)
  | .joined j operands => cases j <;> exact Nat.le_refl _
  | .column _ | .whole _ | .fractional _ | .text _ | .nullTest .. | .membership .. | .range ..
  | .negation _ => exact Nat.le_of_ble_eq_true rfl

theorem loosest_le_leftLevel (t : Tree) : loosest ≤ t.leftLevel := by
  have hfloor : loosest ≤ floor t.rendered.binding := by cases t.rendered.binding <;> decide
  exact Nat.le_trans hfloor t.floor_le_leftLevel

/-- An operand reaches the level of its place on both sides. -/
theorem floor_le_standing (t : Tree) (place : Binding) (onRight : Bool) :
    floor place ≤ standing (t.isLoose place onRight) t.rightEdge ∧
      floor place ≤ standing (t.isLoose place onRight) t.leftLevel := by
  cases h : t.isLoose place onRight with
  | true =>
    have : floor place ≤ closedLevel := by cases place <;> decide
    exact ⟨this, this⟩
  | false =>
    have := floor_mono (rank_le_of_not_isLoose h)
    exact ⟨Nat.le_trans this t.floor_le_rightEdge, Nat.le_trans this t.floor_le_leftLevel⟩

/-! ### Grouped trees are read -/

/-- A tree is read from its tokens, as tightly as its operators allow. -/
def Readable (t : Tree) : Prop := ∀ k ≤ t.leftLevel, Reads k t.rightEdge t.tokens t

theorem Readable.operand {t : Tree} (h : Readable t) (place : Binding) (onRight : Bool) {k : Nat}
    (hk : k ≤ standing (t.isLoose place onRight) t.leftLevel) :
    Reads k (standing (t.isLoose place onRight) t.rightEdge) (t.operand place onRight) t := by
  rw [Tree.operand]
  cases hloose : t.isLoose place onRight with
  | true =>
    exact .parens (h loosest t.loosest_le_leftLevel)
  | false =>
    rw [hloose] at hk
    exact h k hk

theorem tokens_column (s : String) (names : List String) :
    (Tree.column (s :: names)).tokens = .name s :: pathTokens names := by
  rw [tokens]
  induction names generalizing s with
  | nil => rfl
  | cons s' names ih =>
    have := ih s'
    simp only [List.map_cons, separated] at this ⊢
    rw [this]
    rfl

theorem readable_column {path : List String} (h : path ≠ []) : Readable (.column path) := by
  obtain ⟨s, names, rfl⟩ := List.exists_cons_of_ne_nil h
  intro k _
  rw [tokens_column]
  exact .column

theorem level_lt_floor {j : Junction} {b : Binding} (h : j.binding.rank ≤ b.rank)
    (hne : b ≠ j.binding) : j.level < floor b := by
  revert h hne
  cases j <;> cases b <;> decide

theorem binding_ne_of_not_joined {j : Junction} {t : Tree} (h : ∀ ts, t ≠ .joined j ts) :
    t.rendered.binding ≠ j.binding := by
  cases t with
  | binary op left right => cases op <;> cases j <;> exact nofun
  | joined i ts =>
    intro heq
    have heq : i.binding = j.binding := heq
    have : i = j := by
      cases i <;> cases j
      · rfl
      · cases heq
      · cases heq
      · rfl
    exact h ts (this ▸ rfl)
  | _ => cases j <;> exact nofun

/-- An operand of a junction that is no junction of the same kind binds more tightly. -/
theorem level_lt_standing {j : Junction} {t : Tree} (h : ∀ ts, t ≠ .joined j ts) :
    j.level < standing (t.isLoose j.binding false) t.leftLevel := by
  cases hloose : t.isLoose j.binding false with
  | true => exact Nat.lt_trans j.level_bounds.2 (by decide : negationLevel < closedLevel)
  | false =>
    have hfloor := level_lt_floor (rank_le_of_not_isLoose hloose) (binding_ne_of_not_joined h)
    exact Nat.lt_of_lt_of_le hfloor t.floor_le_leftLevel

theorem spread_of_not_joined {j : Junction} {t : Tree} (h : ∀ ts, t ≠ .joined j ts) :
    t.spread j = [t] := by
  cases t with
  | joined i ts =>
    rw [spread, if_neg]
    rintro rfl
    exact h ts rfl
  | _ => rfl

/-- Operands one after the other. -/
theorem reads_joined {j : Junction} {ts : List Tree} {k e : Nat} {w : List Token} {first : Tree}
    (hk : k ≤ j.level) (he : j.level ≤ e) (hfirst : Reads k e w first) (hne : ts ≠ [])
    (h : ∀ t ∈ ts, Readable t ∧ ∀ us, t ≠ .joined j us) :
    Reads k j.level (w ++ j.token :: separated j.token (ts.map fun t => t.operand j.binding false))
      (.joined j (first.spread j ++ ts)) := by
  induction ts generalizing first w e with
  | nil => exact absurd rfl hne
  | cons t ts ih =>
    obtain ⟨ht, hnot⟩ := h t (List.mem_cons_self ..)
    have hone := Reads.joined j hk he hfirst (ht.operand j.binding false (level_lt_standing hnot))
    rw [join, spread_of_not_joined hnot] at hone
    cases ts with
    | nil => simpa [separated] using hone
    | cons t' ts =>
      have := ih (Nat.le_refl _) hone (by simp) fun u hu => h u (List.mem_cons_of_mem t hu)
      simpa [separated, spread] using this

/-- **A tree that is grouped for the target is read from its own tokens.** -/
theorem Regular.readable {t : Tree} (h : Regular t) (hgrouped : t.isGrouped) : Readable t := by
  induction h with
  | column h => exact readable_column h
  | whole => exact fun k _ => .whole
  | fractional _ => exact fun k _ => .fractional
  | text => exact fun k _ => .text
  | @binary op left right _ _ hleft hright =>
    simp only [isGrouped, Bool.and_eq_true, decide_eq_true_eq] at hgrouped
    obtain ⟨⟨⟨hgl, hgr⟩, hedge⟩, hlevel⟩ := hgrouped
    intro k hk
    obtain ⟨hop, hk⟩ := Nat.le_min.1 hk
    exact .binary op hop hedge ((hleft hgl).operand op.binding false hk)
      ((hright hgr).operand op.binding true hlevel)
  | @nullTest negated t _ h =>
    intro k hk
    obtain ⟨hedge, hlevel⟩ := floor_le_standing t .comparison false
    exact .nullTest negated hk hedge
      ((h hgrouped).operand .comparison false (Nat.le_trans hk hlevel))
  | @membership negated t items _ _ h hitems =>
    simp only [isGrouped, Bool.and_eq_true, areGrouped_iff] at hgrouped
    intro k hk
    obtain ⟨hedge, hlevel⟩ := floor_le_standing t .matching false
    have hoperand := (h hgrouped.1).operand .matching false (Nat.le_trans hk hlevel)
    have hall : ∀ i ∈ items.map fun t => (⟨t.tokens, t.rightEdge, t⟩ : Item),
        Reads loosest i.edge i.tokens i.tree := by
      intro i hi
      obtain ⟨t, ht, rfl⟩ := List.mem_map.1 hi
      exact hitems t ht (hgrouped.2 t ht) loosest t.loosest_le_leftLevel
    have := Reads.membership negated _ hk hedge hoperand hall
    rw [List.map_map, List.map_map, show Item.tree ∘ _ = id from rfl, List.map_id] at this
    rw [tokens_membership]
    exact this
  | @range negated t low high _ _ _ h hlow hhigh =>
    simp only [isGrouped, Bool.and_eq_true] at hgrouped
    obtain ⟨⟨hgt, hgl⟩, hgh⟩ := hgrouped
    intro k hk
    obtain ⟨hedge, hlevel⟩ := floor_le_standing t .matching false
    have hbound : ∀ u : Tree, testLevel + 1 ≤ standing (u.isLoose .userOperator false) u.leftLevel :=
      fun u => Nat.le_trans (by decide) (floor_le_standing u .userOperator false).2
    exact .range negated hk hedge ((h hgt).operand .matching false (Nat.le_trans hk hlevel))
      ((hlow hgl).operand .userOperator false (hbound low))
      ((hhigh hgh).operand .userOperator false (hbound high))
  | @negation t _ h =>
    intro k hk
    exact .negation hk ((h hgrouped).operand .negation false (floor_le_standing t .negation false).2)
  | @joined j operands hlen _ hnot h =>
    simp only [isGrouped, areGrouped_iff] at hgrouped
    intro k hk
    match operands with
    | first :: second :: rest =>
      have hreads := (h first (by simp) (hgrouped first (by simp))).operand j.binding false
        (Nat.le_trans hk (Nat.le_of_lt (level_lt_standing (hnot first (by simp)))))
      have hedge : j.level ≤ standing (first.isLoose j.binding false) first.rightEdge := by
        refine Nat.le_trans ?_ (floor_le_standing first j.binding false).1
        cases j <;> exact Nat.le_refl _
      have hrest : ∀ t ∈ second :: rest, Readable t ∧ ∀ us, t ≠ .joined j us := fun t ht =>
        ⟨h t (List.mem_cons_of_mem _ ht) (hgrouped t (List.mem_cons_of_mem _ ht)),
          hnot t (List.mem_cons_of_mem _ ht)⟩
      have := reads_joined hk hedge hreads (by simp) hrest
      rw [spread_of_not_joined (hnot first (by simp))] at this
      rw [tokens_joined]
      exact this

/-! ### What is read was grouped -/

theorem content_operand (t : Tree) (place : Binding) (onRight : Bool) :
    content (t.operand place onRight) = content t.tokens := by
  rw [Tree.operand]
  cases t.isLoose place onRight with
  | false => rfl
  | true => exact content_enclosed t.tokens

/-- The tokens that a tree brings into a junction. -/
def spreadTokens (j : Junction) (t : Tree) : List Token :=
  separated j.token ((t.spread j).map fun u => u.operand j.binding false)

/-- A tree brings its own tokens into a junction, with parentheses around them or not. -/
theorem spreadTokens_cases (j : Junction) (t : Tree) :
    t.spreadTokens j = t.tokens ∨ t.spreadTokens j = t.operand j.binding false := by
  cases t with
  | joined i ts =>
    rw [spreadTokens, spread]
    split
    · rename_i hi
      subst hi
      exact .inl (tokens_joined i ts).symm
    · exact .inr rfl
  | _ => exact .inr rfl

theorem content_spreadTokens (j : Junction) (t : Tree) :
    content (t.spreadTokens j) = content t.tokens := by
  rcases t.spreadTokens_cases j with h | h
  · rw [h]
  · rw [h, content_operand]

theorem tokens_join {j : Junction} {l r : Tree} (hl : l.spread j ≠ []) (hr : r.spread j ≠ []) :
    (l.join j r).tokens = l.spreadTokens j ++ j.token :: r.spreadTokens j := by
  rw [join, tokens_joined, List.map_append, separated_append (by simpa using hl) (by simpa using hr)]
  rfl

theorem isGrouped_of_mem_spread {j : Junction} {t u : Tree} (h : t.isGrouped)
    (hu : u ∈ t.spread j) : u.isGrouped := by
  cases t with
  | joined i ts =>
    rw [spread] at hu
    split at hu
    · rw [isGrouped, areGrouped_iff] at h
      exact h u hu
    · rw [List.mem_singleton.1 hu]
      exact h
  | _ =>
    rw [List.mem_singleton.1 hu]
    exact h

theorem bracketed_balanced {w : List Token} (h : Balanced w) (loose : Bool) :
    Balanced (bracketed loose w) := by
  cases loose with
  | false => exact h
  | true => exact h.enclosed

mutual

theorem balanced_tokens : ∀ t : Tree, Balanced t.tokens
  | .column path => by
    rw [tokens]
    refine .separated rfl fun w hw => ?_
    obtain ⟨s, _, rfl⟩ := List.mem_map.1 hw
    rfl
  | .whole _ => rfl
  | .fractional _ => rfl
  | .text _ => rfl
  | .binary op left right => by
    rw [tokens]
    exact (bracketed_balanced left.balanced_tokens _).append
      ((Balanced.of_plain (Suffix.binary op).isParen_of_mem_tokens).append
        (bracketed_balanced right.balanced_tokens _))
  | .nullTest negated operand => by
    rw [tokens]
    exact (bracketed_balanced operand.balanced_tokens _).append
      (.of_plain (Suffix.nullTest negated).isParen_of_mem_tokens)
  | .membership negated operand items => by
    rw [tokens]
    exact (bracketed_balanced operand.balanced_tokens _).append
      ((Balanced.of_plain (Suffix.membership negated).isParen_of_mem_tokens).append
        (Balanced.separated rfl (balanced_tokensAll items)).enclosed)
  | .range negated operand low high => by
    rw [tokens]
    exact (bracketed_balanced operand.balanced_tokens _).append
      ((Balanced.of_plain (Suffix.range negated).isParen_of_mem_tokens).append
        ((bracketed_balanced low.balanced_tokens _).append
          (.cons rfl (bracketed_balanced high.balanced_tokens _))))
  | .negation operand => by
    rw [tokens]
    exact .cons rfl (bracketed_balanced operand.balanced_tokens _)
  | .joined j operands => by
    rw [tokens]
    exact .separated j.isParen_token (balanced_operandTokens j operands)

theorem balanced_tokensAll : ∀ (ts : List Tree), ∀ w ∈ tokensAll ts, Balanced w
  | [] => by simp [tokensAll]
  | t :: ts => by
    rw [tokensAll]
    exact List.forall_mem_cons.2 ⟨t.balanced_tokens, balanced_tokensAll ts⟩

theorem balanced_operandTokens (j : Junction) :
    ∀ (ts : List Tree), ∀ w ∈ operandTokens j ts, Balanced w
  | [] => by simp [operandTokens]
  | t :: ts => by
    rw [operandTokens]
    exact List.forall_mem_cons.2
      ⟨bracketed_balanced t.balanced_tokens _, balanced_operandTokens j ts⟩

end

theorem balanced_operand (t : Tree) (place : Binding) (onRight : Bool) :
    Balanced (t.operand place onRight) := bracketed_balanced t.balanced_tokens _

theorem separated_head (sep : Token) (w : List Token) (ws : List (List Token)) (hne : ws ≠ []) :
    separated sep (w :: ws) = w ++ sep :: separated sep ws := by
  obtain ⟨v, ws, rfl⟩ := List.exists_cons_of_ne_nil hne
  rfl

/-- The tokens of a tree are never one pair of parentheses around something. -/
theorem tokens_ne_enclosed {t : Tree} {w : List Token} (hw : Balanced w)
    (hlen : ∀ j ts, t = .joined j ts → 2 ≤ ts.length) :
    t.tokens ≠ .opening :: (w ++ [.closing]) := by
  cases t with
  | column path =>
    cases path with
    | nil => exact nofun
    | cons s names =>
      rw [tokens_column]
      exact nofun
  | whole n => exact nofun
  | fractional numeral => exact nofun
  | text s => exact nofun
  | binary op left right =>
    exact (balanced_operand left _ _).append_ne_enclosed hw (by simp [op.tokens_ne_nil])
      ((Suffix.binary op).head_ne_opening _)
  | nullTest negated operand =>
    have := (Suffix.nullTest negated).head_ne_opening []
    rw [List.append_nil] at this
    exact (balanced_operand operand _ _).append_ne_enclosed hw
      (Suffix.nullTest negated).tokens_ne_nil this
  | membership negated operand items =>
    exact (balanced_operand operand _ _).append_ne_enclosed hw (by simp)
      ((Suffix.membership negated).head_ne_opening _)
  | range negated operand low high =>
    exact (balanced_operand operand _ _).append_ne_enclosed hw (by simp)
      ((Suffix.range negated).head_ne_opening _)
  | negation operand => exact nofun
  | joined j ts =>
    have := hlen j ts rfl
    match ts with
    | first :: second :: rest =>
      rw [tokens_joined, List.map_cons, separated_head _ _ _ (by simp)]
      refine (balanced_operand first _ _).append_ne_enclosed hw (by simp) ?_
      cases j <;> exact nofun

end Tree

open Sqlite.Tree

namespace Reads

variable {k e : Nat} {w : List Token} {t : Tree}

theorem spread_ne_nil (h : Reads k e w t) (i : Junction) : t.spread i ≠ [] := by
  induction h with
  | joined j _ _ _ _ ihl _ =>
    rw [join, spread]
    split
    · rename_i hj
      subst hj
      simp [ihl]
    · simp
  | parens _ ih => exact ih
  | _ => exact List.cons_ne_nil _ []

theorem two_le_length {j : Junction} {ts : List Tree} (h : Reads k e w (.joined j ts)) :
    2 ≤ ts.length := by
  generalize ht : Tree.joined j ts = t at h
  induction h with
  | joined i _ _ hl hr _ _ =>
    cases ht
    have hl' := List.length_pos_iff.2 (hl.spread_ne_nil j)
    have hr' := List.length_pos_iff.2 (hr.spread_ne_nil j)
    rw [List.length_append]
    omega
  | parens _ ih => exact ih ht
  | _ => cases ht

/-- Parentheses apart, the tokens of a tree are those it is written with. -/
theorem content_eq (h : Reads k e w t) : content w = content t.tokens := by
  induction h with
  | column => rw [tokens_column]
  | text => rfl
  | whole => rfl
  | fractional => rfl
  | parens _ ih => rw [content_enclosed, ih]
  | @negation k e w t _ _ ih =>
    show content (_ :: w) = content (_ :: t.operand .negation false)
    rw [content_cons rfl, content_cons rfl, content_operand, ih]
  | @binary k e e' w w' l r op _ _ _ _ ihl ihr =>
    show _ = content (l.operand op.binding false ++ (op.tokens ++ r.operand op.binding true))
    simp only [content_append, content_operand, ihl, ihr]
  | @joined k e e' w w' l r j _ _ hl hr ihl ihr =>
    rw [tokens_join (hl.spread_ne_nil j) (hr.spread_ne_nil j), content_append, content_append,
      content_cons j.isParen_token, content_cons j.isParen_token, content_spreadTokens,
      content_spreadTokens, ihl, ihr]
  | @nullTest k e w t negated _ _ _ ih =>
    show _ = content (t.operand .comparison false ++ (Suffix.nullTest negated).tokens)
    simp only [content_append, content_operand, ih]
  | @membership k e w t negated items _ _ _ _ ih ihitems =>
    have hitems : (items.map Item.tokens).map content =
        ((items.map Item.tree).map tokens).map content := by
      simp only [List.map_map]
      exact List.map_congr_left ihitems
    rw [tokens_membership, content_append, content_append, content_append, content_append,
      content_enclosed, content_enclosed, content_operand, content_separated rfl,
      content_separated rfl, hitems, ih]
  | @range k e e₁ e₂ w w₁ w₂ t t₁ t₂ negated _ _ _ _ _ ih ih₁ ih₂ =>
    show _ = content (t.operand .matching false ++ ((Suffix.range negated).tokens ++
      (t₁.operand .userOperator false ++ .keyword .and :: t₂.operand .userOperator false)))
    simp only [content_append, content_cons (t := .keyword .and) rfl, content_operand, ih, ih₁, ih₂]

theorem content_eq_operand (h : Reads k e w t) (place : Binding) (onRight : Bool) :
    content w = content (t.operand place onRight) := by
  rw [content_operand, h.content_eq]

/-- What the tokens of a tree tell when the tree itself is read from them. -/
structure Faithful (k e : Nat) (w : List Token) (t : Tree) : Prop where
  bare : w = t.tokens → t.isGrouped ∧ e = t.rightEdge ∧ k ≤ t.leftLevel
  enclosed : w = .opening :: (t.tokens ++ [.closing]) → t.isGrouped ∧ e = closedLevel

namespace Faithful

theorem operand (h : Faithful k e w t) (hk : k ≤ closedLevel) {place : Binding} {onRight : Bool}
    (hw : w = t.operand place onRight) : t.isGrouped ∧
      e = standing (t.isLoose place onRight) t.rightEdge ∧
      k ≤ standing (t.isLoose place onRight) t.leftLevel := by
  rw [Tree.operand] at hw
  cases hloose : t.isLoose place onRight with
  | true =>
    rw [hloose] at hw
    obtain ⟨hgrouped, hedge⟩ := h.enclosed hw
    exact ⟨hgrouped, hedge, hk⟩
  | false =>
    rw [hloose] at hw
    exact h.bare hw

theorem isGrouped_of_spread (h : Faithful k e w t) (hk : k ≤ closedLevel) {j : Junction}
    (hw : w = t.spreadTokens j) : t.isGrouped := by
  rcases t.spreadTokens_cases j with hcase | hcase
  · exact (h.bare (hw.trans hcase)).1
  · exact (h.operand hk (hw.trans hcase)).1

/-- What starts with an operand and goes on with an operator has no parentheses around
it. -/
theorem of_bare {s : Suffix} {u v : List Token} (hu : Balanced u)
    (h : u ++ (s.tokens ++ v) = t.tokens → t.isGrouped ∧ e = t.rightEdge ∧ k ≤ t.leftLevel) :
    Faithful k e (u ++ (s.tokens ++ v)) t := by
  refine ⟨h, fun heq => ?_⟩
  exact absurd heq (hu.append_ne_enclosed t.balanced_tokens (by simp [s.tokens_ne_nil])
    (s.head_ne_opening v))

end Faithful

/-- **A tree that is read from its own tokens is grouped for the target.** -/
theorem faithful (h : Reads k e w t) (hk : k ≤ closedLevel) : Faithful k e w t := by
  induction h with
  | column => exact ⟨fun _ => ⟨rfl, rfl, hk⟩, nofun⟩
  | text => exact ⟨fun _ => ⟨rfl, rfl, hk⟩, nofun⟩
  | whole => exact ⟨fun _ => ⟨rfl, rfl, hk⟩, nofun⟩
  | fractional => exact ⟨fun _ => ⟨rfl, rfl, hk⟩, nofun⟩
  | @parens k e w t h ih =>
    constructor
    · intro heq
      refine absurd heq.symm (tokens_ne_enclosed h.balanced ?_)
      rintro j ts rfl
      exact h.two_le_length
    · intro heq
      have hw : w = t.tokens := (List.append_inj' (List.cons.inj heq).2 rfl).1
      exact ⟨((ih (by decide)).bare hw).1, rfl⟩
  | @negation k e w t hlevel _ ih =>
    refine ⟨fun heq => ?_, nofun⟩
    have hw : w = t.operand .negation false := (List.cons.inj heq).2
    exact ⟨((ih (by decide)).operand (by decide) hw).1, rfl, hlevel⟩
  | @binary k e e' w w' l r op hop hedge hl hr ihl ihr =>
    refine .of_bare (s := .binary op) hl.balanced fun heq => ?_
    obtain ⟨hw, hw'⟩ := (Suffix.binary op).cut_unique heq (hl.content_eq_operand ..)
    have hop' : op.level + 1 ≤ closedLevel := op.level_bounds.2
    obtain ⟨hgl, hel, hkl⟩ := (ihl hk).operand hk hw
    obtain ⟨hgr, _, hkr⟩ := (ihr hop').operand hop' hw'
    refine ⟨?_, rfl, Nat.le_min.2 ⟨hop, hkl⟩⟩
    rw [hel] at hedge
    simp only [isGrouped, Bool.and_eq_true, decide_eq_true_eq]
    exact ⟨⟨⟨hgl, hgr⟩, hedge⟩, hkr⟩
  | @joined k e e' w w' l r j hj hedge hl hr ihl ihr =>
    refine .of_bare (s := .joined j) hl.balanced fun heq => ?_
    rw [tokens_join (hl.spread_ne_nil j) (hr.spread_ne_nil j)] at heq
    have hcontent : content w = content (l.spreadTokens j) := by
      rw [content_spreadTokens, hl.content_eq]
    obtain ⟨hw, hw'⟩ := cut_unique j.isParen_token heq hcontent
    have hj' : j.level + 1 ≤ closedLevel := Nat.le_trans j.level_bounds.2 (by decide)
    have hgl := (ihl hk).isGrouped_of_spread hk hw
    have hgr := (ihr hj').isGrouped_of_spread hj' hw'
    refine ⟨?_, rfl, hj⟩
    rw [join, isGrouped, areGrouped_iff]
    intro u hu
    rcases List.mem_append.1 hu with hu | hu
    · exact isGrouped_of_mem_spread hgl hu
    · exact isGrouped_of_mem_spread hgr hu
  | @nullTest k e w t negated hlevel _ h ih =>
    have hbare : w ++ ((Suffix.nullTest negated).tokens ++ []) = (Tree.nullTest negated t).tokens →
        (Tree.nullTest negated t).isGrouped ∧ closedLevel = (Tree.nullTest negated t).rightEdge ∧
          k ≤ (Tree.nullTest negated t).leftLevel := by
      intro heq
      have htokens : (Tree.nullTest negated t).tokens =
          t.operand .comparison false ++ ((Suffix.nullTest negated).tokens ++ []) := by
        rw [List.append_nil]
        rfl
      rw [htokens] at heq
      obtain ⟨hw, _⟩ := (Suffix.nullTest negated).cut_unique heq (h.content_eq_operand ..)
      exact ⟨((ih hk).operand hk hw).1, rfl, hlevel⟩
    have := Faithful.of_bare h.balanced hbare
    rwa [List.append_nil] at this
  | @membership k e w t negated items hlevel _ h hitems ih ihitems =>
    refine .of_bare h.balanced fun heq => ?_
    rw [tokens_membership] at heq
    obtain ⟨hw, hrest⟩ := (Suffix.membership negated).cut_unique heq (h.content_eq_operand ..)
    have hlist := (List.append_inj' (List.cons.inj hrest).2 rfl).1
    have heach : (items.map Item.tokens).map content =
        ((items.map Item.tree).map tokens).map content := by
      simp only [List.map_map]
      exact List.map_congr_left fun i hi => (hitems i hi).content_eq
    have hwords := separated_inj rfl hlist heach
    rw [List.map_map] at hwords
    refine ⟨?_, rfl, hlevel⟩
    simp only [isGrouped, Bool.and_eq_true, areGrouped_iff]
    refine ⟨((ih hk).operand hk hw).1, fun u hu => ?_⟩
    obtain ⟨i, hi, rfl⟩ := List.mem_map.1 hu
    have hword : i.tokens = i.tree.tokens := List.map_inj_left.1 hwords i hi
    exact ((ihitems i hi (by decide)).bare hword).1
  | @range k e e₁ e₂ w w₁ w₂ t t₁ t₂ negated hlevel _ h h₁ h₂ ih ih₁ ih₂ =>
    refine .of_bare h.balanced fun heq => ?_
    obtain ⟨hw, hrest⟩ := (Suffix.range negated).cut_unique heq (h.content_eq_operand ..)
    obtain ⟨hw₁, hw₂⟩ := cut_unique rfl hrest (h₁.content_eq_operand ..)
    refine ⟨?_, rfl, hlevel⟩
    simp only [isGrouped, Bool.and_eq_true]
    exact ⟨⟨((ih hk).operand hk hw).1, ((ih₁ (by decide)).operand (by decide) hw₁).1⟩,
      ((ih₂ (by decide)).operand (by decide) hw₂).1⟩

end Reads

/-! ### The text of an expression -/

namespace Token

theorem isParen_ofWord (cs : List Char) : (ofWord cs).isParen = false := by
  unfold ofWord
  split <;> rfl

theorem isParen_ofNumeral (cs : List Char) : (ofNumeral cs).isParen = false := by
  unfold ofNumeral
  split
  · rfl
  · exact isParen_ofWord cs

/-- The scanner reads no parenthesis where none was written. -/
theorem content_scanned (t : Token) :
    content t.scanned = if t.isParen then [] else t.scanned := by
  unfold scanned
  split
  · split
    · rfl
    · exact content_cons (isParen_ofWord _) []
  · split
    · rw [content_cons rfl, content_cons (isParen_ofNumeral _)]
      rfl
    · exact content_cons (isParen_ofNumeral _) []
  · cases t <;> rfl

theorem content_scannedAll (w : List Token) : content (scannedAll w) = scannedAll (content w) := by
  induction w with
  | nil => rfl
  | cons t w ih =>
    rw [scannedAll_cons, content_append, content_scanned, ih]
    cases ht : t.isParen with
    | true => simp [content, ht]
    | false =>
      rw [content_cons ht]
      rfl

theorem length_le_scannedAll (w : List Token) : w.length ≤ (scannedAll w).length := by
  induction w with
  | nil => exact Nat.le_refl 0
  | cons t w ih =>
    have := List.length_pos_iff.2 t.scanned_ne_nil
    rw [scannedAll_cons, List.length_append, List.length_cons]
    omega

/-- Tokens are read as they were written when each of them is. -/
theorem scannedAll_eq_self_iff (w : List Token) : scannedAll w = w ↔ ∀ t ∈ w, t.IsPlain := by
  induction w with
  | nil => simp
  | cons t w ih =>
    rw [scannedAll_cons, List.forall_mem_cons, ← ih]
    constructor
    · intro h
      have hlen : t.scanned.length = 1 := by
        have hpos := List.length_pos_iff.2 t.scanned_ne_nil
        have hle := length_le_scannedAll w
        have heq := congrArg List.length h
        rw [List.length_append, List.length_cons] at heq
        omega
      obtain ⟨u, hu⟩ := List.length_eq_one_iff.1 hlen
      rw [hu] at h
      obtain ⟨rfl, hw⟩ := List.cons.inj h
      exact ⟨hu, hw⟩
    · rintro ⟨ht, hw⟩
      rw [ht, hw]
      rfl

theorem isPlain_of_isParen {t : Token} (h : t.isParen) : t.IsPlain := by
  cases t with
  | opening => rfl
  | closing => rfl
  | _ => cases h

end Token

open Token in
/-- Tokens that a tree is read from again are all plain. -/
theorem Reads.isPlain {k e : Nat} {t : Tree} (h : Reads k e (scannedAll t.tokens) t) :
    ∀ token ∈ t.tokens, token.IsPlain := by
  have hcontent := h.content_eq
  rw [content_scannedAll, scannedAll_eq_self_iff] at hcontent
  intro token htoken
  cases hparen : token.isParen with
  | true => exact isPlain_of_isParen hparen
  | false => exact hcontent token (List.mem_filter.2 ⟨htoken, by simp [hparen]⟩)

/-- The text of a tree is read as the tree exactly when its tokens are read as they were
written and its operands belong to their operators. -/
theorem Tree.Regular.read_text_eq_some_iff {t : Tree} (h : t.Regular) :
    read t.rendered.text = some t ↔ (∀ token ∈ t.tokens, token.IsPlain) ∧ t.isGrouped := by
  rw [Sqlite.read_eq_some_iff h.tokens?_text]
  constructor
  · rintro ⟨e, hreads⟩
    have hplain := hreads.isPlain
    rw [(Token.scannedAll_eq_self_iff _).2 hplain] at hreads
    exact ⟨hplain, ((hreads.faithful (by decide)).bare rfl).1⟩
  · rintro ⟨hplain, hgrouped⟩
    rw [(Token.scannedAll_eq_self_iff _).2 hplain]
    exact ⟨t.rightEdge, h.readable hgrouped loosest t.loosest_le_leftLevel⟩

end StrictDdl.Sqlite

namespace StrictDdl.Expr

/-- **Every expression that has a tree in the target is rendered, and its text is read as
that tree exactly when all names and numbers are read as they were written and every
operand without parentheses belongs to its operator in the target.** -/
theorem text_read_back_iff {e : Expr} {t : Sqlite.Tree} (h : tree? e = some t) :
    ∃ s, e.text .sqlite = .ok s ∧
      (Sqlite.read s = some t ↔ (∀ token ∈ t.tokens, token.IsPlain) ∧ t.isGrouped) := by
  obtain ⟨hrender, hregular⟩ := written e t h
  refine ⟨t.rendered.text, ?_, hregular.read_text_eq_some_iff⟩
  rw [text, hrender]
  rfl

/-- The sum on the right of `||` has no parentheses, so the target takes it apart. -/
theorem concat_of_sum_misread :
    ∃ s, (Expr.operator .plain (.ok [.str "||"]) (.column (.ok [.str "a"]))
        (.operator .plain (.ok [.str "+"]) (.column (.ok [.str "b"]))
          (.column (.ok [.str "c"])))).text .sqlite = .ok s ∧
      Sqlite.read s ≠ some (.binary .concat (.column ["a"])
        (.binary .add (.column ["b"]) (.column ["c"]))) := by
  obtain ⟨s, hs, hiff⟩ := text_read_back_iff (e := .operator .plain (.ok [.str "||"])
    (.column (.ok [.str "a"])) (.operator .plain (.ok [.str "+"]) (.column (.ok [.str "b"]))
      (.column (.ok [.str "c"])))) rfl
  exact ⟨s, hs, fun hread => absurd (hiff.1 hread).2 (by decide)⟩

end StrictDdl.Expr
