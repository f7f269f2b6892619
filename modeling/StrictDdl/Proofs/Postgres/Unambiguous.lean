import StrictDdl.Proofs.Postgres.Reading

/-! One text, one tree.

The last piece of a tree that binds as loosely as the tree does is its root, the operator that is
applied last (`Tree.Rooted`): what stands behind it binds more tightly, because equally tight
operands on the right stand in parentheses. So trees with the same pieces have the same root and
the same pieces on both sides of it, and the same operands in turn
(`Tree.Regular.eq_of_pieces_eq`). A connective is cut at all its words at once, and `NOT` stands in
front. With the words of a text and their pieces this gives every text one tree. -/
namespace StrictDdl.Postgres

open Sqlite (Junction)

/-! ### How strongly pieces bind -/

namespace Piece

/-- How strongly a piece holds together what stands around it. The word between the ends of a range
binds like the range. -/
def rank : Piece → Nat
  | .operand _ => Binding.atom.rank
  | .operator op => op.binding.rank
  | .nullTest _ => Binding.test.rank
  | .membership _ _ => Binding.matching.rank
  | .range _ => Binding.matching.rank
  | .bound => Binding.matching.rank
  | .negation => Binding.negation.rank
  | .junction j => j.binding.rank

/-- Rows are cut at the last piece of a rank in one way. -/
theorem cut_last {l l' r r' : List Piece} {p p' : Piece} (h : l ++ p :: r = l' ++ p' :: r')
    (hrank : p.rank = p'.rank) (hr : ∀ q ∈ r, p.rank < q.rank) (hr' : ∀ q ∈ r', p.rank < q.rank) :
    l = l' ∧ p = p' ∧ r = r' := by
  rcases List.append_eq_append_iff.1 h with ⟨rest, rfl, hrest⟩ | ⟨rest, rfl, hrest⟩
  · cases rest with
    | nil =>
      obtain ⟨rfl, rfl⟩ := List.cons.inj hrest
      exact ⟨(List.append_nil l).symm, rfl, rfl⟩
    | cons q rest =>
      obtain ⟨_, rfl⟩ := List.cons.inj hrest
      exact absurd (hr p' (by simp)) (by omega)
  · cases rest with
    | nil =>
      obtain ⟨rfl, rfl⟩ := List.cons.inj hrest
      exact ⟨List.append_nil l', rfl, rfl⟩
    | cons q rest =>
      obtain ⟨_, rfl⟩ := List.cons.inj hrest
      exact absurd (hr' p (by simp)) (by omega)

end Piece

theorem rank_inj {a b : Binding} (h : a.rank = b.rank) : a = b := by
  revert h
  cases a <;> cases b <;> decide

theorem rank_lt_atom (op : Infix) : Binding.comparison.rank ≤ op.binding.rank ∧
    op.binding.rank < Binding.atom.rank := by
  cases op <;> decide

namespace Tree

variable {t t' : Tree}

/-- The pieces of a tree bind as the tree does, or more tightly. -/
def Holds (t : Tree) : Prop := ∀ p ∈ t.pieces, t.rank ≤ p.rank

theorem Holds.operand (h : Holds t) {place : Binding} {onRight : Bool} :
    ∀ p ∈ t.operand place onRight, place.rank ≤ p.rank := by
  intro p hp
  unfold Tree.operand bracketed at hp
  cases hloose : t.rendered.isLoose place onRight with
  | true =>
    rw [hloose, if_pos rfl] at hp
    obtain rfl := List.mem_singleton.1 hp
    show place.rank ≤ Binding.atom.rank
    cases place <;> decide
  | false =>
    rw [hloose] at hp
    exact Nat.le_trans (rank_le_of_not_isLoose hloose) (h p hp)

/-- On the right of a comparison or a tighter operator an operand binds more tightly. -/
theorem Holds.operand_right (h : Holds t) {place : Binding}
    (hplace : Binding.comparison.rank ≤ place.rank) (hatom : place.rank < Binding.atom.rank) :
    ∀ p ∈ t.operand place true, place.rank < p.rank := by
  intro p hp
  unfold Tree.operand bracketed at hp
  cases hloose : t.rendered.isLoose place true with
  | true =>
    rw [hloose, if_pos rfl] at hp
    obtain rfl := List.mem_singleton.1 hp
    exact hatom
  | false =>
    rw [hloose] at hp
    refine lt_of_lt_of_le (lt_of_le_of_ne (rank_le_of_not_isLoose hloose) fun heq => ?_) (h p hp)
    have hbinding : t.rendered.binding = place := rank_inj heq.symm
    simp [Rendered.isLoose, hbinding, hplace] at hloose

/-- The last operator that is applied in a tree, with the pieces before and behind it. -/
inductive Rooted : Tree → List Piece → Piece → List Piece → Prop where
  | binary {op l r} : Rooted (.binary op l r) (l.operand op.binding false) (.operator op)
      (r.operand op.binding true)
  | nullTest {negated t} : Rooted (.nullTest negated t) (t.operand .comparison false)
      (.nullTest negated) []
  | membership {negated t items} : Rooted (.membership negated t items) (t.operand .matching false)
      (.membership negated ("(" ++ joinTexts (items.map rendered) ++ ")")) []
  | range {negated t low high} : Rooted (.range negated t low high)
      (t.operand .matching false ++ .range negated :: low.operand .userOperator false) .bound
      (high.operand .userOperator false)

namespace Rooted

variable {l r l' r' : List Piece} {p p' : Piece}

theorem pieces_eq (h : Rooted t l p r) : t.pieces = l ++ p :: r := by
  cases h with
  | binary => exact pieces_binary ..
  | nullTest => exact pieces_nullTest ..
  | membership => exact pieces_membership ..
  | range => rw [pieces_range, List.append_assoc]; rfl

theorem rank_eq (h : Rooted t l p r) : p.rank = t.rank := by
  cases h <;> rfl

end Rooted

theorem Holds.of_leaf (h : t.pieces = [.operand t.rendered.text])
    (hrank : t.rank = Binding.atom.rank) : Holds t := by
  intro p hp
  rw [h] at hp
  obtain rfl := List.mem_singleton.1 hp
  exact hrank.le

/-- **The pieces of a tree bind as the tree does, or more tightly.** -/
theorem Regular.holds (h : Regular t) : Holds t := by
  induction h with
  | binary _ _ hleft hright =>
    intro p hp
    rw [pieces_binary] at hp
    rcases List.mem_append.1 hp with hp | hp
    · exact hleft.operand p hp
    · rcases List.mem_cons.1 hp with rfl | hp
      · exact le_rfl
      · exact hright.operand p hp
  | nullTest _ h =>
    intro p hp
    rw [pieces_nullTest] at hp
    rcases List.mem_append.1 hp with hp | hp
    · exact Nat.le_trans (by decide : Binding.test.rank ≤ Binding.comparison.rank) (h.operand p hp)
    · obtain rfl := List.mem_singleton.1 hp
      exact le_rfl
  | membership _ _ h _ =>
    intro p hp
    rw [pieces_membership] at hp
    rcases List.mem_append.1 hp with hp | hp
    · exact h.operand p hp
    · obtain rfl := List.mem_singleton.1 hp
      exact le_rfl
  | range _ _ _ h hlow hhigh =>
    intro p hp
    have hbounds : Binding.matching.rank ≤ Binding.userOperator.rank := by decide
    rw [pieces_range] at hp
    rcases List.mem_append.1 hp with hp | hp
    · exact h.operand p hp
    · rcases List.mem_cons.1 hp with rfl | hp
      · exact le_rfl
      · rcases List.mem_append.1 hp with hp | hp
        · exact Nat.le_trans hbounds (hlow.operand p hp)
        · rcases List.mem_cons.1 hp with rfl | hp
          · exact le_rfl
          · exact Nat.le_trans hbounds (hhigh.operand p hp)
  | negation _ h =>
    intro p hp
    rw [pieces_negation] at hp
    rcases List.mem_cons.1 hp with rfl | hp
    · exact le_rfl
    · exact h.operand p hp
  | joined _ _ _ h =>
    intro p hp
    rw [pieces_joined] at hp
    rcases Sqlite.mem_intercalate hp with hp | ⟨ps, hps, hp⟩
    · obtain rfl := List.mem_singleton.1 hp
      exact le_rfl
    · obtain ⟨t, ht, rfl⟩ := List.mem_map.1 hps
      exact (h t ht).operand p hp
  | _ => exact .of_leaf rfl rfl

/-- Some piece of a tree binds no more tightly than the tree. -/
theorem Regular.exists_rank_eq (h : Regular t) : ∃ p ∈ t.pieces, p.rank = t.rank := by
  cases h with
  | @binary op l r _ _ => exact ⟨.operator op, by simp [pieces_binary], rfl⟩
  | @nullTest negated t _ => exact ⟨.nullTest negated, by simp [pieces_nullTest], rfl⟩
  | membership _ _ => exact ⟨_, by rw [pieces_membership]; exact List.mem_concat_self, rfl⟩
  | @range negated t low high _ _ _ => exact ⟨.bound, by simp [pieces_range], rfl⟩
  | negation _ => exact ⟨.negation, by simp [pieces_negation], rfl⟩
  | @joined j ts hlen _ _ =>
    obtain ⟨t, ts, rfl⟩ := List.exists_cons_of_length_pos (show 0 < ts.length by omega)
    obtain ⟨u, ts, rfl⟩ := List.exists_cons_of_length_pos (Nat.lt_of_succ_le (Nat.le_of_succ_le_succ hlen))
    refine ⟨.junction j, ?_, rfl⟩
    rw [pieces_joined, List.map_cons, List.map_cons, List.intercalate_cons_cons]
    simp
  | _ => exact ⟨_, List.mem_singleton_self _, rfl⟩

theorem Regular.rank_eq (h : Regular t) (h' : Regular t') (heq : t.pieces = t'.pieces) :
    t.rank = t'.rank := by
  obtain ⟨p, hp, hrank⟩ := h.exists_rank_eq
  obtain ⟨p', hp', hrank'⟩ := h'.exists_rank_eq
  have hle := h'.holds p (heq ▸ hp)
  have hle' := h.holds p' (heq ▸ hp')
  omega

/-! ### Trees by their rank -/

theorem rank_order : Binding.negation.rank < Binding.test.rank ∧
    Binding.test.rank < Binding.matching.rank ∧ Binding.matching.rank < Binding.atom.rank := by
  decide

theorem Rooted.rank_bounds {l r : List Piece} {p : Piece} (h : Rooted t l p r) :
    Binding.test.rank ≤ t.rank ∧ t.rank < Binding.atom.rank := by
  obtain ⟨-, htest, hatom⟩ := rank_order
  cases h with
  | @binary op _ _ => exact ⟨Nat.le_trans (by decide) (rank_lt_atom op).1, (rank_lt_atom op).2⟩
  | nullTest => exact ⟨le_rfl, htest.trans hatom⟩
  | membership => exact ⟨htest.le, hatom⟩
  | range => exact ⟨htest.le, hatom⟩

theorem rank_cases (t : Tree) : (t.isLeaf ∧ t.rank = Binding.atom.rank) ∨
    (∃ l p r, Rooted t l p r) ∨ (∃ u, t = .negation u ∧ t.rank = Binding.negation.rank) ∨
    ∃ j ts, t = .joined j ts ∧ t.rank = j.binding.rank ∧ t.rank < Binding.negation.rank := by
  cases t with
  | binary _ _ _ => exact .inr (.inl ⟨_, _, _, .binary⟩)
  | nullTest _ _ => exact .inr (.inl ⟨_, _, _, .nullTest⟩)
  | membership _ _ _ => exact .inr (.inl ⟨_, _, _, .membership⟩)
  | range _ _ _ _ => exact .inr (.inl ⟨_, _, _, .range⟩)
  | negation u => exact .inr (.inr (.inl ⟨u, rfl, rfl⟩))
  | joined j ts =>
    have hj : j.binding.rank < Binding.negation.rank := by cases j <;> decide
    exact .inr (.inr (.inr ⟨j, ts, rfl, rfl, hj⟩))
  | _ => exact .inl ⟨rfl, rfl⟩

theorem isLeaf_of_rank (h : t.rank = Binding.atom.rank) : t.isLeaf := by
  have horder := rank_order
  rcases t.rank_cases with ⟨hleaf, _⟩ | ⟨_, _, _, hroot⟩ | ⟨_, _, heq⟩ | ⟨_, _, _, _, hlt⟩
  · exact hleaf
  · exact absurd h hroot.rank_bounds.2.ne
  · omega
  · omega

theorem exists_rooted_of_rank (hlow : Binding.test.rank ≤ t.rank)
    (hhigh : t.rank < Binding.atom.rank) : ∃ l p r, Rooted t l p r := by
  have horder := rank_order
  rcases t.rank_cases with ⟨_, heq⟩ | hroot | ⟨_, _, heq⟩ | ⟨_, _, _, _, hlt⟩
  · omega
  · exact hroot
  · omega
  · omega

theorem exists_negation_of_rank (h : t.rank = Binding.negation.rank) : ∃ u, t = .negation u := by
  have horder := rank_order
  rcases t.rank_cases with ⟨_, heq⟩ | ⟨_, _, _, hroot⟩ | ⟨u, hu, _⟩ | ⟨_, _, _, _, hlt⟩
  · omega
  · have := hroot.rank_bounds.1
    omega
  · exact ⟨u, hu⟩
  · omega

theorem exists_joined_of_rank {j : Junction} (h : t.rank = j.binding.rank) :
    ∃ ts, t = .joined j ts := by
  have horder := rank_order
  have hj : j.binding.rank < Binding.negation.rank := by cases j <;> decide
  rcases t.rank_cases with ⟨_, heq⟩ | ⟨_, _, _, hroot⟩ | ⟨_, _, heq⟩ | ⟨i, ts, rfl, hi, _⟩
  · omega
  · have := hroot.rank_bounds.1
    omega
  · omega
  · have hij : i = j := by
      have hbinding := rank_inj (hi.symm.trans h)
      revert hbinding
      cases i <;> cases j <;> decide
    exact ⟨ts, by rw [hij]⟩

/-! ### Trees with the same pieces -/

/-- What stands behind the root binds more tightly. -/
theorem Rooted.right {l r : List Piece} {p : Piece} (h : Regular t) (hroot : Rooted t l p r) :
    ∀ q ∈ r, p.rank < q.rank := by
  cases hroot with
  | @binary op _ _ =>
    cases h with
    | binary _ hright => exact hright.holds.operand_right (rank_lt_atom op).1 (rank_lt_atom op).2
  | nullTest => simp
  | membership => simp
  | range =>
    cases h with
    | range _ _ hhigh =>
      exact fun q hq => Nat.lt_of_lt_of_le
        (by decide : Binding.matching.rank < Binding.userOperator.rank) (hhigh.holds.operand q hq)

/-- A tree with the same pieces has the same root, with the same pieces around it. -/
theorem Rooted.transfer {l r : List Piece} {p : Piece} (hroot : Rooted t l p r) (h : Regular t)
    (h' : Regular t') (heq : t.pieces = t'.pieces) :
    ∃ l' p' r', Rooted t' l' p' r' ∧ l = l' ∧ p = p' ∧ r = r' := by
  have hrank := h.rank_eq h' heq
  have hbounds := hroot.rank_bounds
  rw [hrank] at hbounds
  obtain ⟨l', p', r', hroot'⟩ := exists_rooted_of_rank hbounds.1 hbounds.2
  have hroots : p.rank = p'.rank := by rw [hroot.rank_eq, hroot'.rank_eq, hrank]
  rw [hroot.pieces_eq, hroot'.pieces_eq] at heq
  exact ⟨l', p', r', hroot', Piece.cut_last heq hroots (hroot.right h) fun q hq =>
    hroots ▸ hroot'.right h' q hq⟩

/-- No tree is written as something in parentheses. -/
theorem Regular.pieces_ne_group (h : Regular t) (s : String) :
    t.pieces ≠ [.operand ("(" ++ s ++ ")")] := by
  intro heq
  obtain ⟨p, hp, hrank⟩ := h.exists_rank_eq
  rw [heq] at hp
  obtain rfl := List.mem_singleton.1 hp
  have hleaf := isLeaf_of_rank hrank.symm
  refine h.leaf_ne_group hleaf s ?_
  have hpieces : t.pieces = [.operand t.rendered.text] := by
    cases t with
    | column _ => rfl
    | whole _ => rfl
    | fractional _ _ => rfl
    | text _ => rfl
    | null => rfl
    | _ => cases hleaf
  rw [hpieces] at heq
  exact Piece.operand.inj (List.cons.inj heq).1

/-- Whoever has the pieces of the tree is the tree. -/
def IsOnly (t : Tree) : Prop := ∀ t', Regular t' → t.pieces = t'.pieces → t = t'

theorem IsOnly.eq_of_text_eq (ht : IsOnly t) (h : Regular t) (h' : Regular t')
    (htext : t.rendered.text = t'.rendered.text) : t = t' :=
  ht t' h' (h.pieces_eq h' htext)

theorem group_inj {s s' : String} (h : "(" ++ s ++ ")" = "(" ++ s' ++ ")") : s = s' := by
  rw [← String.toList_inj, Sqlite.toList_parens, Sqlite.toList_parens] at h
  exact String.toList_inj.1 (List.append_cancel_right (List.cons.inj h).2)

theorem IsOnly.operand (ht : IsOnly t) (h : Regular t) (h' : Regular t') {place : Binding}
    {onRight : Bool} (heq : t.operand place onRight = t'.operand place onRight) : t = t' := by
  unfold Tree.operand at heq
  revert heq
  cases t.rendered.isLoose place onRight with
  | false =>
    cases t'.rendered.isLoose place onRight with
    | false => exact fun heq => ht t' h' heq
    | true => exact fun heq => absurd heq (h.pieces_ne_group _)
  | true =>
    cases t'.rendered.isLoose place onRight with
    | false => exact fun heq => absurd heq.symm (h'.pieces_ne_group _)
    | true =>
      exact fun heq =>
        ht.eq_of_text_eq h h' (group_inj (Piece.operand.inj (List.cons.inj heq).1))

/-- Lists are equal when what is made of their members is, and tells these apart. -/
theorem eq_of_map_eq {α : Type} {f : Tree → α} {ts ts' : List Tree}
    (h : ∀ t ∈ ts, ∀ t' ∈ ts', f t = f t' → t = t') (heq : ts.map f = ts'.map f) : ts = ts' := by
  induction ts generalizing ts' with
  | nil => exact (List.map_eq_nil_iff.1 heq.symm).symm
  | cons t ts ih =>
    cases ts' with
    | nil => exact absurd heq (by simp)
    | cons t' ts' =>
      obtain ⟨hfirst, hrest⟩ := List.cons.inj heq
      rw [h t (List.mem_cons_self ..) t' (List.mem_cons_self ..) hfirst,
        ih (fun u hu u' hu' => h u (List.mem_cons_of_mem t hu) u' (List.mem_cons_of_mem t' hu')) hrest]

/-- The words of a connective do not stand among its operands. -/
theorem junction_notMem {j : Junction} (h : Regular t) (hne : ∀ ts, t ≠ .joined j ts) :
    Piece.junction j ∉ t.operand j.binding false := by
  intro hmem
  unfold Tree.operand bracketed at hmem
  cases hloose : t.rendered.isLoose j.binding false with
  | true =>
    rw [hloose] at hmem
    cases List.mem_singleton.1 hmem
  | false =>
    rw [hloose] at hmem
    have hle : t.rank ≤ j.binding.rank := h.holds (.junction j) hmem
    obtain ⟨ts, hts⟩ := exists_joined_of_rank (Nat.le_antisymm hle (rank_le_of_not_isLoose hloose))
    exact hne ts hts

theorem IsOnly.of_leaf (h : Regular t) (hleaf : t.isLeaf) (hrank : t.rank = Binding.atom.rank) :
    IsOnly t := by
  intro t' h' heq
  have hleaf' := isLeaf_of_rank ((h.rank_eq h' heq).symm.trans hrank)
  refine h.leaf_inj h' hleaf hleaf' ?_
  rw [h.isText.text, h'.isText.text, heq]

theorem IsOnly.membership {negated : Bool} {operand : Tree} {items : List Tree}
    (h : Regular operand) (hitems : ∀ t ∈ items, Regular t) (hoperand : IsOnly operand)
    (honly : ∀ t ∈ items, IsOnly t) : IsOnly (.membership negated operand items) := by
  intro t' h' heq
  obtain ⟨l, p, r, hroot, hleft, hp, -⟩ :=
    Rooted.membership.transfer (.membership h hitems) h' heq
  cases hroot with
  | membership =>
    obtain ⟨rfl, htexts⟩ := Piece.membership.inj hp
    cases h' with
    | membership h' hitems' =>
      have hlist := texts_eq hitems hitems' (group_inj htexts)
      rw [List.map_map, List.map_map] at hlist
      have := eq_of_map_eq (fun t ht t' ht' htext =>
        IsOnly.eq_of_text_eq (honly t ht) (hitems t ht) (hitems' t' ht') htext) hlist
      rw [hoperand.operand h h' hleft, this]
  | _ => cases hp

theorem IsOnly.range {negated : Bool} {operand low high : Tree} (h : Regular operand)
    (hlow : Regular low) (hhigh : Regular high) (hoperand : IsOnly operand) (honly : IsOnly low)
    (honly' : IsOnly high) : IsOnly (.range negated operand low high) := by
  intro t' h' heq
  obtain ⟨l, p, r, hroot, hleft, hp, hright⟩ :=
    Rooted.range.transfer (.range h hlow hhigh) h' heq
  cases hroot with
  | range =>
    cases h' with
    | range h' hlow' hhigh' =>
      -- The second last loose piece is the word that opens the range.
      have htight : ∀ {t : Tree}, Regular t → ∀ q ∈ t.operand .userOperator false,
          Binding.matching.rank < q.rank := fun h q hq =>
        Nat.lt_of_lt_of_le (by decide) (h.holds.operand q hq)
      obtain ⟨hfirst, hrange, hsecond⟩ := Piece.cut_last hleft rfl (htight hlow) (htight hlow')
      cases hrange
      rw [hoperand.operand h h' hfirst, honly.operand hlow hlow' hsecond,
        honly'.operand hhigh hhigh' hright]
  | _ => cases hp

/-- The operands of a connective are what stands between its words. -/
theorem map_operand_eq {j : Junction} {ts ts' : List Tree} (h : Regular (.joined j ts))
    (h' : Regular (.joined j ts')) (heq : (Tree.joined j ts).pieces = (Tree.joined j ts').pieces) :
    ts.map (fun t => t.operand j.binding false) = ts'.map fun t => t.operand j.binding false := by
  have hparts : ∀ {ts : List Tree}, Regular (.joined j ts) →
      ts.map (fun t => t.operand j.binding false) ≠ [] ∧
        ∀ ps ∈ ts.map (fun t => t.operand j.binding false), Piece.junction j ∉ ps := by
    intro ts h
    cases h with
    | joined hlen hts hne =>
      refine ⟨List.ne_nil_of_length_pos (by rw [List.length_map]; omega), fun ps hps => ?_⟩
      obtain ⟨t, ht, rfl⟩ := List.mem_map.1 hps
      exact junction_notMem (hts t ht) (hne t ht)
  have hsplit := congrArg (List.splitOn (.junction j)) heq
  rwa [pieces_joined, pieces_joined, List.splitOn_intercalate _ (hparts h).2 (hparts h).1,
    List.splitOn_intercalate _ (hparts h').2 (hparts h').1] at hsplit

/-- **Trees with the same pieces are the same.** -/
theorem Regular.eq_of_pieces_eq (h : Regular t) : IsOnly t := by
  induction h with
  | column hne hnames => exact IsOnly.of_leaf (.column hne hnames) rfl rfl
  | whole => exact IsOnly.of_leaf .whole rfl rfl
  | fractional hm => exact IsOnly.of_leaf (.fractional hm) rfl rfl
  | text => exact IsOnly.of_leaf .text rfl rfl
  | null => exact IsOnly.of_leaf .null rfl rfl
  | binary hl hr ihl ihr =>
    intro t' h' heq
    obtain ⟨l, p, r, hroot, hleft, hp, hright⟩ := Rooted.binary.transfer (.binary hl hr) h' heq
    cases hroot <;> cases hp
    cases h' with
    | binary hl' hr' => rw [ihl.operand hl hl' hleft, ihr.operand hr hr' hright]
  | nullTest h ih =>
    intro t' h' heq
    obtain ⟨l, p, r, hroot, hleft, hp, -⟩ := Rooted.nullTest.transfer (.nullTest h) h' heq
    cases hroot <;> cases hp
    cases h' with
    | nullTest h' => rw [ih.operand h h' hleft]
  | membership h hitems ih ihitems => exact .membership h hitems ih ihitems
  | range h hlow hhigh ih ihlow ihhigh => exact .range h hlow hhigh ih ihlow ihhigh
  | negation h ih =>
    intro t' h' heq
    obtain ⟨u, rfl⟩ := exists_negation_of_rank (Regular.rank_eq (.negation h) h' heq).symm
    rw [pieces_negation, pieces_negation] at heq
    cases h' with
    | negation h' => rw [ih.operand h h' (List.cons.inj heq).2]
  | @joined j ts hlen hts hne ih =>
    intro t' h' heq
    have h : Regular (.joined j ts) := .joined hlen hts hne
    obtain ⟨ts', rfl⟩ := exists_joined_of_rank (h.rank_eq h' heq).symm
    have hoperands := map_operand_eq h h' heq
    cases h' with
    | joined _ hts' _ =>
      rw [eq_of_map_eq (fun t ht t' ht' heq => IsOnly.operand (ih t ht) (hts t ht) (hts' t' ht') heq)
        hoperands]

end Tree

/-! ### Expressions with the same text -/

theorem text_of_tree? {e : Expr} {t : Tree} (h : tree? e = some t) :
    e.text .postgres = .ok t.rendered.text := by
  unfold Expr.text
  rw [(written e t h).1]
  rfl

/-- **An expression with a tree has a text, and another one has the same text exactly when it has
the same tree.** -/
theorem text_eq_iff_tree_eq {e₁ e₂ : Expr} {t₁ t₂ : Tree} (h₁ : tree? e₁ = some t₁)
    (h₂ : tree? e₂ = some t₂) :
    ∃ s, e₁.text .postgres = .ok s ∧ (e₂.text .postgres = .ok s ↔ t₁ = t₂) := by
  have hreg₁ := (written e₁ t₁ h₁).2
  have hreg₂ := (written e₂ t₂ h₂).2
  refine ⟨_, text_of_tree? h₁, ?_⟩
  rw [text_of_tree? h₂, Except.ok.injEq]
  constructor
  · exact fun htext => hreg₁.eq_of_pieces_eq.eq_of_text_eq hreg₁ hreg₂ htext.symm
  · rintro rfl
    rfl

namespace Sample

def name (s : String) : Expr := .column (.ok [.str s])

def number (n : Nat) : Expr := .constant (.ok (.int n)) (.ok (.int n))

/-- A range with a condition behind it. -/
def pair : List Expr :=
  [.operator (.between false false) (.ok [.str "BETWEEN"]) (name "a") (.row [number 1, number 2]),
   name "b"]

def nested : Expr := .connective .conjunction [.connective .conjunction pair, name "c"]

def flat : Expr := .connective .conjunction (pair ++ [name "c"])

/-- The tree of both. -/
def tree : Tree :=
  .joined .all [.range false (.column ["a"]) (.whole 1) (.whole 2), .column ["b"], .column ["c"]]

end Sample

/-- A conjunction in a conjunction has the text of the flat one, where the first `AND` is that of
the range. -/
theorem text_nested_eq_text_flat : tree? Sample.nested = some Sample.tree ∧
    tree? Sample.flat = some Sample.tree ∧
    ∃ s, Sample.nested.text .postgres = .ok s ∧ Sample.flat.text .postgres = .ok s := by
  have hnested : tree? Sample.nested = some Sample.tree := by rfl
  have hflat : tree? Sample.flat = some Sample.tree := by rfl
  obtain ⟨s, hs, hiff⟩ := text_eq_iff_tree_eq hnested hflat
  exact ⟨hnested, hflat, s, hs, hiff.2 rfl⟩

end StrictDdl.Postgres
