import StrictDdl.Proofs.Sqlite.Reader

/-! The grammar behind the reader of expressions.

`Reads k e w t` says that the tokens `w` are the tree `t` where operators of level `k`
or tighter may stand, and that the last operator of `w` whose right operand is open has
level `e`: a looser or equal operator behind `w` takes all of `w` as its left operand, a
tighter one would not. The reader finds exactly the trees of the grammar
(`Reads.found`, `sound`), so the grammar gives every text one tree. -/
namespace StrictDdl.Sqlite

/-! ### Operators as tokens -/

namespace Infix

def tokens : Infix → List Token
  | .eq => [.symbol .eq]
  | .ne => [.symbol .ne]
  | .is => [.keyword .is]
  | .isNot => [.keyword .is, .keyword .not]
  | .like => [.keyword .like]
  | .notLike => [.keyword .not, .keyword .like]
  | .lt => [.symbol .lt]
  | .le => [.symbol .le]
  | .gt => [.symbol .gt]
  | .ge => [.symbol .ge]
  | .add => [.symbol .plus]
  | .sub => [.symbol .minus]
  | .mul => [.symbol .star]
  | .div => [.symbol .slash]
  | .mod => [.symbol .percent]
  | .concat => [.symbol .bars]

theorem level_bounds (op : Infix) : testLevel ≤ op.level ∧ op.level < closedLevel := by
  cases op <;> decide

theorem tokens_ofSymbol (s : Symbol) : (ofSymbol s).tokens = [.symbol s] := by
  cases s <;> rfl

theorem tokens_ne_nil (op : Infix) : op.tokens ≠ [] := by
  cases op <;> simp [tokens]

end Infix

namespace Junction

def token : Junction → Token
  | .any => .keyword .or
  | .all => .keyword .and

theorem level_bounds (j : Junction) : loosest ≤ j.level ∧ j.level < negationLevel := by
  cases j <;> decide

end Junction

namespace Suffix

/-- The word `NOT`, if it is there. -/
def notTokens (negated : Bool) : List Token := if negated then [.keyword .not] else []

def tokens : Suffix → List Token
  | .binary op => op.tokens
  | .joined j => [j.token]
  | .nullTest negated => .keyword .is :: notTokens negated ++ [.keyword .null]
  | .membership negated => notTokens negated ++ [.keyword .member]
  | .range negated => notTokens negated ++ [.keyword .between]

theorem level_lt_closed (s : Suffix) : s.level < closedLevel := by
  cases s with
  | binary op => exact op.level_bounds.2
  | joined j => exact Nat.lt_trans j.level_bounds.2 (by decide)
  | nullTest negated => exact (by decide : testLevel < closedLevel)
  | membership negated => exact (by decide : testLevel < closedLevel)
  | range negated => exact (by decide : testLevel < closedLevel)

theorem level_ne_negation (s : Suffix) : s.level ≠ negationLevel := by
  cases s with
  | binary op => exact Nat.ne_of_gt (Nat.lt_of_lt_of_le (by decide) op.level_bounds.1)
  | joined j => exact Nat.ne_of_lt j.level_bounds.2
  | nullTest negated => exact (by decide : testLevel ≠ negationLevel)
  | membership negated => exact (by decide : testLevel ≠ negationLevel)
  | range negated => exact (by decide : testLevel ≠ negationLevel)

theorem tokens_ne_nil (s : Suffix) : s.tokens ≠ [] := by
  cases s with
  | binary op => exact op.tokens_ne_nil
  | joined j => simp [tokens]
  | nullTest negated => simp [tokens]
  | membership negated => simp [tokens]
  | range negated => simp [tokens]

theorem head_ne_dot (s : Suffix) (rest : List Token) : (s.tokens ++ rest).head? ≠ some .dot := by
  cases s with
  | binary op => cases op <;> simp [tokens, Infix.tokens]
  | joined j => cases j <;> simp [tokens, Junction.token]
  | nullTest negated => cases negated <;> simp [tokens]
  | membership negated => cases negated <;> simp [tokens, notTokens]
  | range negated => cases negated <;> simp [tokens, notTokens]

/-- What `take?` finds is what it leaves off. -/
theorem eq_append_of_take? {ts rest : List Token} {s : Suffix} (h : take? ts = some (s, rest)) :
    ts = s.tokens ++ rest := by
  unfold take? at h
  split at h <;> simp only [Option.some.injEq, Prod.mk.injEq, reduceCtorEq] at h
  all_goals obtain ⟨rfl, rfl⟩ := h
  case h_1 symbol _ => rw [tokens, Infix.tokens_ofSymbol]; rfl
  all_goals rfl

/-- Operands of tests do not start with a word, so `IS` and `IS NOT` are what they
seem. -/
theorem take?_append (s : Suffix) (rest : List Token)
    (h : s = .binary .is ∨ s = .binary .isNot → ∀ k, rest.head? ≠ some (.keyword k)) :
    take? (s.tokens ++ rest) = some (s, rest) := by
  cases s with
  | binary op =>
    cases op with
    | is =>
      cases rest with
      | nil => rfl
      | cons t rest =>
        have := h (.inl rfl)
        cases t <;> simp_all [tokens, Infix.tokens, take?]
    | isNot =>
      cases rest with
      | nil => rfl
      | cons t rest =>
        have := h (.inr rfl)
        cases t <;> simp_all [tokens, Infix.tokens, take?]
    | _ => rfl
  | joined j => cases j <;> rfl
  | nullTest negated => cases negated <;> rfl
  | membership negated => cases negated <;> rfl
  | range negated => cases negated <;> rfl

end Suffix

/-- No operator at the front binds more tightly than the level. -/
def AtMost (e : Nat) (ts : List Token) : Prop :=
  ∀ s rest, Suffix.take? ts = some (s, rest) → s.level ≤ e

theorem atMost_closed (ts : List Token) : AtMost closedLevel ts :=
  fun s _ _ => Nat.le_of_lt s.level_lt_closed

/-- No operator at the front is of the level or tighter. -/
def Below (k : Nat) (ts : List Token) : Prop :=
  ∀ s rest, Suffix.take? ts = some (s, rest) → s.level < k

theorem below_succ {e : Nat} {ts : List Token} : Below (e + 1) ts ↔ AtMost e ts :=
  ⟨fun h s rest hs => Nat.le_of_lt_succ (h s rest hs),
    fun h s rest hs => Nat.lt_succ_of_le (h s rest hs)⟩

/-! ### The grammar -/

/-- The tokens of a path behind its first name. -/
def pathTokens (names : List String) : List Token := names.flatMap fun s => [.dot, .name s]

/-- Lists of tokens with a token between them. -/
def separated (sep : Token) : List (List Token) → List Token
  | [] => []
  | [w] => w
  | w :: rest => w ++ sep :: separated sep rest

/-- An item of a list: its tokens, the level of its last open operator, its tree. -/
structure Item where
  tokens : List Token
  edge : Nat
  tree : Tree

inductive Reads : Nat → Nat → List Token → Tree → Prop where
  | column {k s names} : Reads k closedLevel (.name s :: pathTokens names) (.column (s :: names))
  | text {k s} : Reads k closedLevel [.text s] (.text s)
  | whole {k n} : Reads k closedLevel [.whole n] (.whole n)
  | fractional {k numeral} : Reads k closedLevel [.fractional numeral] (.fractional numeral)
  | parens {k e w t} : Reads loosest e w t →
      Reads k closedLevel (.opening :: (w ++ [.closing])) t
  | negation {k e w t} : k ≤ negationLevel → Reads negationLevel e w t →
      Reads k negationLevel (.keyword .not :: w) (.negation t)
  | binary {k e e' w w' l r} (op : Infix) : k ≤ op.level → op.level ≤ e → Reads k e w l →
      Reads (op.level + 1) e' w' r →
      Reads k op.level (w ++ (op.tokens ++ w')) (.binary op l r)
  | joined {k e e' w w' l r} (j : Junction) : k ≤ j.level → j.level ≤ e → Reads k e w l →
      Reads (j.level + 1) e' w' r →
      Reads k j.level (w ++ (j.token :: w')) (l.join j r)
  | nullTest {k e w t} (negated : Bool) : k ≤ testLevel → testLevel ≤ e → Reads k e w t →
      Reads k closedLevel (w ++ (Suffix.nullTest negated).tokens) (.nullTest negated t)
  | membership {k e w t} (negated : Bool) (items : List Item) : k ≤ testLevel → testLevel ≤ e →
      Reads k e w t → (∀ i ∈ items, Reads loosest i.edge i.tokens i.tree) →
      Reads k closedLevel
        (w ++ ((Suffix.membership negated).tokens ++
          .opening :: (separated .comma (items.map Item.tokens) ++ [.closing])))
        (.membership negated t (items.map Item.tree))
  | range {k e e₁ e₂ w w₁ w₂ t t₁ t₂} (negated : Bool) : k ≤ testLevel → testLevel ≤ e →
      Reads k e w t → Reads (testLevel + 1) e₁ w₁ t₁ → Reads (testLevel + 1) e₂ w₂ t₂ →
      Reads k testLevel
        (w ++ ((Suffix.range negated).tokens ++ (w₁ ++ .keyword .and :: w₂)))
        (.range negated t t₁ t₂)

namespace Reads

variable {k e : Nat} {w : List Token} {t : Tree}

theorem le_edge (h : Reads k e w t) (hk : k ≤ closedLevel) : k ≤ e := by
  cases h with
  | negation h _ => exact h
  | binary _ h _ _ _ => exact h
  | joined _ h _ _ _ => exact h
  | range _ h _ _ _ _ => exact h
  | _ => exact hk

/-- Beyond the level of `NOT` no expression starts with a word. -/
theorem head_ne_keyword (h : Reads k e w t) (hk : negationLevel < k) (q : Keyword)
    (rest : List Token) : (w ++ rest).head? ≠ some (.keyword q) := by
  induction h generalizing rest with
  | negation h _ _ => exact absurd h (by omega)
  | binary _ _ _ _ _ ih _ => simpa only [List.append_assoc] using ih hk _
  | joined _ _ _ _ _ ih _ => simpa only [List.append_assoc] using ih hk _
  | nullTest _ _ _ _ ih => simpa only [List.append_assoc] using ih hk _
  | membership _ _ _ _ _ _ ih _ => simpa only [List.append_assoc] using ih hk _
  | range _ _ _ _ _ _ ih _ _ => simpa only [List.append_assoc] using ih hk _
  | _ => simp

theorem head_ne_closing (h : Reads k e w t) (rest : List Token) :
    (w ++ rest).head? ≠ some .closing := by
  induction h generalizing rest with
  | binary _ _ _ _ _ ih _ => simpa only [List.append_assoc] using ih _
  | joined _ _ _ _ _ ih _ => simpa only [List.append_assoc] using ih _
  | nullTest _ _ _ _ ih => simpa only [List.append_assoc] using ih _
  | membership _ _ _ _ _ _ ih _ => simpa only [List.append_assoc] using ih _
  | range _ _ _ _ _ _ ih _ _ => simpa only [List.append_assoc] using ih _
  | _ => simp

end Reads

/-! ### The reader finds every tree of the grammar -/

theorem readSuffixes_stop {fuel k : Nat} {t : Tree} {ts : List Token} (h : Below k ts)
    (hf : 0 < fuel) : readSuffixes fuel k t ts = some (t, ts) := by
  obtain ⟨fuel, rfl⟩ := Nat.exists_eq_succ_of_ne_zero (Nat.ne_of_gt hf)
  rw [readSuffixes]
  split
  · rfl
  · rename_i s rest hs
    rw [if_pos (h s rest hs)]

theorem readSuffixes_step {fuel k : Nat} {t t' : Tree} {s : Suffix} {ts ts' rest : List Token}
    (hs : Suffix.take? ts = some (s, ts')) (hk : k ≤ s.level)
    (h : readSuffix fuel t s ts' = some (t', rest)) :
    readSuffixes (fuel + 1) k t ts = readSuffixes fuel k t' rest := by
  rw [readSuffixes, hs]
  simp only
  rw [if_neg (Nat.not_lt.2 hk), h]
  rfl

/-- The reader goes through the tokens and on with what follows them, at a cost in fuel of
no more than four for each token. -/
def Found (k e : Nat) (w : List Token) (t : Tree) : Prop :=
  ∀ (rest : List Token) (fuel : Nat), AtMost e rest → rest.head? ≠ some .dot →
    4 * w.length ≤ fuel → ∃ left, fuel ≤ left + 4 * w.length ∧
      readExpr fuel k (w ++ rest) = readSuffixes left k t rest

namespace Found

variable {k e : Nat} {w : List Token} {t : Tree}

/-- Up to an operator that is too loose. -/
theorem readExpr_eq (h : Found k e w t) (rest : List Token) (fuel : Nat) (hk : k ≤ e)
    (hb : Below k rest) (hd : rest.head? ≠ some .dot) (hf : 4 * w.length < fuel) :
    readExpr fuel k (w ++ rest) = some (t, rest) := by
  have hat : AtMost e rest := fun s more hs => Nat.le_trans (Nat.le_of_lt (hb s more hs)) hk
  obtain ⟨left, hleft, heq⟩ := h rest fuel hat hd (Nat.le_of_lt hf)
  rw [heq, readSuffixes_stop hb (by omega)]

/-- What starts with a primary expression that the reader takes off. -/
theorem of_primary (hne : w ≠ [])
    (h : ∀ (rest : List Token) (fuel : Nat), AtMost e rest → rest.head? ≠ some .dot →
      4 * w.length ≤ fuel + 2 → readPrimary (fuel + 1) k (w ++ rest) = some (t, rest)) :
    Found k e w t := by
  intro rest fuel hat hd hf
  have hpos := List.length_pos_iff.2 hne
  obtain ⟨fuel, rfl⟩ := Nat.exists_eq_add_of_le' (show 2 ≤ fuel by omega)
  refine ⟨fuel + 1, by omega, ?_⟩
  rw [readExpr, h rest fuel hat hd hf]
  rfl

/-- One more operator behind an operand; `tail` is what stands behind the operator. -/
theorem extend {l : Tree} {e' : Nat} (h : Found k e w l) (s : Suffix) (tail : List Token)
    (hk : k ≤ s.level) (he : s.level ≤ e)
    (hhead : s = .binary .is ∨ s = .binary .isNot →
      ∀ (rest : List Token) (q : Keyword), (tail ++ rest).head? ≠ some (.keyword q))
    (htail : ∀ (rest : List Token) (fuel : Nat), AtMost e' rest → rest.head? ≠ some .dot →
      4 * tail.length < fuel → readSuffix (fuel + 1) l s (tail ++ rest) = some (t, rest)) :
    Found k e' (w ++ (s.tokens ++ tail)) t := by
  intro rest fuel hat hd hf
  have hlen := List.length_pos_iff.2 s.tokens_ne_nil
  simp only [List.length_append] at hf ⊢
  have htake : Suffix.take? (s.tokens ++ (tail ++ rest)) = some (s, tail ++ rest) :=
    Suffix.take?_append s _ fun hs => hhead hs rest
  have hat' : AtMost e (s.tokens ++ (tail ++ rest)) := by
    intro s' rest' hs'
    rw [htake] at hs'
    simp only [Option.some.injEq, Prod.mk.injEq] at hs'
    rw [← hs'.1]
    exact he
  obtain ⟨left, hleft, heq⟩ := h (s.tokens ++ (tail ++ rest)) fuel hat' (s.head_ne_dot _) (by omega)
  obtain ⟨left, rfl⟩ := Nat.exists_eq_add_of_le' (show 2 ≤ left by omega)
  refine ⟨left + 1, by omega, ?_⟩
  rw [List.append_assoc, List.append_assoc, heq]
  exact readSuffixes_step htake hk (htail rest left hat hd (by omega))

end Found

theorem pathRest_append (names : List String) (rest : List Token)
    (h : rest.head? ≠ some .dot) : pathRest (pathTokens names ++ rest) = (names, rest) := by
  induction names with
  | nil =>
    show pathRest rest = _
    unfold pathRest
    split
    · simp at h
    · rfl
  | cons s names ih =>
    show pathRest (.dot :: .name s :: (pathTokens names ++ rest)) = _
    rw [pathRest, ih]

theorem below_of_take?_eq_none {k : Nat} {ts : List Token} (h : Suffix.take? ts = none) :
    Below k ts := by
  intro s rest hs
  rw [h] at hs
  exact absurd hs (by simp)

theorem readItems_eq (items : List Item) (hne : items ≠ [])
    (h : ∀ i ∈ items, Found loosest i.edge i.tokens i.tree ∧ loosest ≤ i.edge)
    (rest : List Token) (fuel : Nat)
    (hf : 4 * (separated .comma (items.map Item.tokens)).length + 1 < fuel) :
    readItems fuel (separated .comma (items.map Item.tokens) ++ .closing :: rest) =
      some (items.map Item.tree, rest) := by
  induction items generalizing fuel with
  | nil => exact absurd rfl hne
  | cons i items ih =>
    obtain ⟨fuel, rfl⟩ := Nat.exists_eq_succ_of_ne_zero (show fuel ≠ 0 by omega)
    obtain ⟨hi, hedge⟩ := h i (List.mem_cons_self ..)
    cases items with
    | nil =>
      simp only [List.map_cons, List.map_nil, separated] at hf ⊢
      have := hi.readExpr_eq (.closing :: rest) fuel hedge
        (below_of_take?_eq_none rfl) (by simp) (by omega)
      rw [readItems, this]
      rfl
    | cons i' items =>
      simp only [List.map_cons, separated, List.length_append, List.length_cons, List.append_assoc,
        List.cons_append] at hf ih ⊢
      have hfirst := hi.readExpr_eq
        (.comma :: (separated .comma (i'.tokens :: items.map Item.tokens) ++ .closing :: rest))
        fuel hedge (below_of_take?_eq_none rfl) (by simp) (by omega)
      have hrest := ih (by simp) (fun j hj => h j (List.mem_cons_of_mem i hj)) fuel (by omega)
      rw [readItems, hfirst]
      simp only [Option.bind_eq_bind, Option.bind_some, hrest]
      rfl

theorem separated_head_ne_closing {k e : Nat} {w : List Token} {t : Tree} (h : Reads k e w t)
    (ws : List (List Token)) (rest : List Token) :
    (separated .comma (w :: ws) ++ rest).head? ≠ some .closing := by
  cases ws with
  | nil => exact h.head_ne_closing rest
  | cons w' ws =>
    rw [separated, List.append_assoc]
    exact h.head_ne_closing _
    simp

theorem readSuffix_membership {fuel : Nat} {t : Tree} {negated : Bool} {ts : List Token}
    (h : ts.head? ≠ some .closing) :
    readSuffix (fuel + 1) t (.membership negated) (.opening :: ts) =
      (readItems fuel ts).map fun r => (.membership negated t r.1, r.2) := by
  cases ts with
  | nil => simp only [readSuffix]; cases readItems fuel [] <;> rfl
  | cons first ts =>
    cases first <;> simp at h <;> simp only [readSuffix] <;> cases readItems fuel _ <;> rfl

theorem and_below {k : Nat} {ts : List Token} (hk : negationLevel ≤ k) :
    Below k (.keyword .and :: ts) := by
  intro s rest hs
  simp only [Suffix.take?, Option.some.injEq, Prod.mk.injEq] at hs
  rw [← hs.1]
  exact Nat.lt_of_lt_of_le Junction.all.level_bounds.2 hk

/-- **The reader finds every tree of the grammar.** -/
theorem Reads.found {k e : Nat} {w : List Token} {t : Tree} (h : Reads k e w t) : Found k e w t := by
  induction h with
  | @column k s names =>
    refine .of_primary (by simp) fun rest fuel _ hd _ => ?_
    simp only [List.cons_append, readPrimary, pathRest_append names rest hd]
  | text => exact .of_primary (by simp) fun _ _ _ _ _ => rfl
  | whole => exact .of_primary (by simp) fun _ _ _ _ _ => rfl
  | fractional => exact .of_primary (by simp) fun _ _ _ _ _ => rfl
  | @parens k e w t h ih =>
    refine .of_primary (by simp) fun rest fuel _ _ hf => ?_
    simp only [List.length_cons, List.length_append, List.length_nil] at hf
    have := ih.readExpr_eq (.closing :: rest) fuel (h.le_edge (by decide))
      (below_of_take?_eq_none rfl) (by simp) (by omega)
    simp only [List.cons_append, List.append_assoc, List.nil_append, readPrimary, this]
    rfl
  | @negation k e w t hk h ih =>
    refine .of_primary (by simp) fun rest fuel hat hd hf => ?_
    simp only [List.length_cons] at hf
    -- No operator has the level of `NOT`, so what follows is looser.
    have hb : Below negationLevel rest := fun s more hs =>
      Nat.lt_of_le_of_ne (hat s more hs) s.level_ne_negation
    have := ih.readExpr_eq rest fuel (h.le_edge (by decide)) hb hd (by omega)
    simp only [List.cons_append, readPrimary, if_pos hk, this]
    rfl
  | @binary k e e' w w' l r op hk he hl hr ihl ihr =>
    have hr' := hr.le_edge op.level_bounds.2
    refine ihl.extend (.binary op) w' hk he ?_ fun rest fuel hat hd hf => ?_
    · intro _ rest q
      exact hr.head_ne_keyword (Nat.lt_succ_of_le (Nat.le_trans (by decide) op.level_bounds.1)) q rest
    · have := ihr.readExpr_eq rest fuel hr' (below_succ.2 hat) hd (by omega)
      simp only [readSuffix, this]
      rfl
  | @joined k e e' w w' l r j hk he hl hr ihl ihr =>
    have hj : j.level + 1 ≤ closedLevel := Nat.le_trans j.level_bounds.2 (by decide)
    refine ihl.extend (.joined j) w' hk he (by simp) fun rest fuel hat hd hf => ?_
    have := ihr.readExpr_eq rest fuel (hr.le_edge hj) (below_succ.2 hat) hd
      (by omega)
    simp only [readSuffix, this]
    rfl
  | @nullTest k e w t negated hk he h ih =>
    rw [← List.append_nil (Suffix.tokens _)]
    exact ih.extend (.nullTest negated) [] hk he (by simp) fun _ _ _ _ _ => rfl
  | @membership k e w t negated items hk he h hitems ih ihitems =>
    refine ih.extend (.membership negated) _ hk he (by simp) fun rest fuel _ _ hf => ?_
    simp only [List.length_cons, List.length_append, List.length_nil] at hf
    simp only [List.cons_append, List.append_assoc, List.nil_append]
    cases items with
    | nil => rfl
    | cons i items =>
      have hread := readItems_eq (i :: items) (by simp)
        (fun j hj => ⟨ihitems j hj, (hitems j hj).le_edge (by decide)⟩) rest fuel (by omega)
      have hhead := separated_head_ne_closing (hitems i (List.mem_cons_self ..))
        (items.map Item.tokens) (.closing :: rest)
      rw [← List.map_cons] at hhead
      rw [readSuffix_membership hhead, hread]
      rfl
  | @range k e e₁ e₂ w w₁ w₂ t t₁ t₂ negated hk he h h₁ h₂ ih ih₁ ih₂ =>
    refine ih.extend (.range negated) _ hk he (by simp) fun rest fuel hat hd hf => ?_
    simp only [List.length_cons, List.length_append] at hf
    have hlow := ih₁.readExpr_eq (.keyword .and :: (w₂ ++ rest)) fuel
      (h₁.le_edge (by decide)) (and_below (by decide)) (by simp) (by omega)
    have hhigh := ih₂.readExpr_eq rest fuel (h₂.le_edge (by decide))
      (below_succ.2 hat) hd (by omega)
    simp only [List.cons_append, List.append_assoc, readSuffix, hlow, Option.bind_eq_bind,
      Option.bind_some, hhigh]
    rfl

/-! ### The grammar has every tree that the reader finds -/

theorem pathRest_sound (ts : List Token) :
    ts = pathTokens (pathRest ts).1 ++ (pathRest ts).2 := by
  fun_induction pathRest ts with
  | case1 s rest names more h ih =>
    rw [h] at ih
    show .dot :: .name s :: rest = .dot :: .name s :: (pathTokens names ++ more)
    rw [← ih]
  | case2 ts _ => rfl

/-- What each part of the reader finds with so much fuel is in the grammar. -/
structure Sound (fuel : Nat) : Prop where
  expr : ∀ {k ts t rest}, readExpr fuel k ts = some (t, rest) →
    ∃ w e, ts = w ++ rest ∧ Reads k e w t ∧ Below k rest
  primary : ∀ {k ts t rest}, readPrimary fuel k ts = some (t, rest) →
    ∃ w e, ts = w ++ rest ∧ Reads k e w t ∧ AtMost e rest
  suffixes : ∀ {k ts l t rest w e}, readSuffixes fuel k l ts = some (t, rest) → Reads k e w l →
    AtMost e ts → ∃ w' e', w ++ ts = w' ++ rest ∧ Reads k e' w' t ∧ Below k rest
  suffix : ∀ {k s ts l t rest w e}, readSuffix fuel l s ts = some (t, rest) → Reads k e w l →
    k ≤ s.level → s.level ≤ e →
    ∃ tail e', ts = tail ++ rest ∧ Reads k e' (w ++ (s.tokens ++ tail)) t ∧ AtMost e' rest
  items : ∀ {ts trees rest}, readItems fuel ts = some (trees, rest) →
    ∃ items : List Item, trees = items.map Item.tree ∧
      ts = separated .comma (items.map Item.tokens) ++ .closing :: rest ∧ items ≠ [] ∧
      ∀ i ∈ items, Reads loosest i.edge i.tokens i.tree

namespace Sound

variable {fuel : Nat}

theorem zero : Sound 0 where
  expr h := by simp [readExpr] at h
  primary h := by simp [readPrimary] at h
  suffixes h := by simp [readSuffixes] at h
  suffix h := by simp [readSuffix] at h
  items h := by simp [readItems] at h

theorem expr_succ (ih : Sound fuel) {k : Nat} {ts rest : List Token} {t : Tree}
    (h : readExpr (fuel + 1) k ts = some (t, rest)) :
    ∃ w e, ts = w ++ rest ∧ Reads k e w t ∧ Below k rest := by
  simp only [readExpr, Option.bind_eq_bind, Option.bind_eq_some_iff, Prod.exists] at h
  obtain ⟨first, more, hfirst, hmore⟩ := h
  obtain ⟨w, e, rfl, hw, hat⟩ := ih.primary hfirst
  obtain ⟨w', e', heq, hw', hb⟩ := ih.suffixes hmore hw hat
  exact ⟨w', e', heq, hw', hb⟩

theorem primary_succ (ih : Sound fuel) {k : Nat} {ts rest : List Token} {t : Tree}
    (h : readPrimary (fuel + 1) k ts = some (t, rest)) :
    ∃ w e, ts = w ++ rest ∧ Reads k e w t ∧ AtMost e rest := by
  unfold readPrimary at h
  split at h
  · rename_i s more
    simp only [Option.some.injEq, Prod.mk.injEq] at h
    obtain ⟨rfl, rfl⟩ := h
    refine ⟨.name s :: pathTokens (pathRest more).1, closedLevel, ?_, .column, atMost_closed _⟩
    rw [List.cons_append, ← pathRest_sound]
  · simp only [Option.some.injEq, Prod.mk.injEq] at h
    obtain ⟨rfl, rfl⟩ := h
    exact ⟨[_], closedLevel, rfl, .text, atMost_closed _⟩
  · simp only [Option.some.injEq, Prod.mk.injEq] at h
    obtain ⟨rfl, rfl⟩ := h
    exact ⟨[_], closedLevel, rfl, .whole, atMost_closed _⟩
  · simp only [Option.some.injEq, Prod.mk.injEq] at h
    obtain ⟨rfl, rfl⟩ := h
    exact ⟨[_], closedLevel, rfl, .fractional, atMost_closed _⟩
  · rename_i more
    simp only [Option.bind_eq_bind, Option.bind_eq_some_iff, Prod.exists] at h
    obtain ⟨inner, after, hinner, h⟩ := h
    split at h
    · rename_i heq
      simp only [Option.pure_def, Option.some.injEq, Prod.mk.injEq] at h heq
      obtain ⟨rfl, rfl⟩ := heq
      obtain ⟨rfl, rfl⟩ := h
      obtain ⟨w, e, rfl, hw, _⟩ := ih.expr hinner
      exact ⟨.opening :: (w ++ [.closing]), closedLevel, by simp, .parens hw, atMost_closed _⟩
    · exact absurd h (by simp)
  · rename_i more
    split at h
    · rename_i hk
      simp only [Option.bind_eq_bind, Option.bind_eq_some_iff, Prod.exists, Option.pure_def,
        Option.some.injEq, Prod.mk.injEq] at h
      obtain ⟨inner, after, hinner, rfl, rfl⟩ := h
      obtain ⟨w, e, rfl, hw, hb⟩ := ih.expr hinner
      exact ⟨.keyword .not :: w, negationLevel, rfl, .negation hk hw,
        fun s more hs => Nat.le_of_lt (hb s more hs)⟩
    · exact absurd h (by simp)
  · exact absurd h (by simp)

theorem suffixes_succ (ih : Sound fuel) {k e : Nat} {ts rest w : List Token} {l t : Tree}
    (h : readSuffixes (fuel + 1) k l ts = some (t, rest)) (hw : Reads k e w l)
    (hat : AtMost e ts) : ∃ w' e', w ++ ts = w' ++ rest ∧ Reads k e' w' t ∧ Below k rest := by
  unfold readSuffixes at h
  split at h
  · rename_i hnone
    simp only [Option.some.injEq, Prod.mk.injEq] at h
    obtain ⟨rfl, rfl⟩ := h
    exact ⟨w, e, rfl, hw, below_of_take?_eq_none hnone⟩
  · rename_i s more hs
    split at h
    · rename_i hlt
      simp only [Option.some.injEq, Prod.mk.injEq] at h
      obtain ⟨rfl, rfl⟩ := h
      refine ⟨w, e, rfl, hw, fun s' more' hs' => ?_⟩
      rw [hs] at hs'
      simp only [Option.some.injEq, Prod.mk.injEq] at hs'
      rw [← hs'.1]
      exact hlt
    · rename_i hge
      simp only [Option.bind_eq_bind, Option.bind_eq_some_iff, Prod.exists] at h
      obtain ⟨next, after, hnext, hafter⟩ := h
      obtain ⟨tail, e', rfl, hr, hat'⟩ := ih.suffix hnext hw (Nat.not_lt.1 hge) (hat s _ hs)
      obtain ⟨w', e'', heq, hw', hb⟩ := ih.suffixes hafter hr hat'
      refine ⟨w', e'', ?_, hw', hb⟩
      rw [← heq, Suffix.eq_append_of_take? hs]
      simp only [List.append_assoc]

theorem suffix_succ (ih : Sound fuel) {k e : Nat} {s : Suffix} {ts rest w : List Token}
    {l t : Tree} (h : readSuffix (fuel + 1) l s ts = some (t, rest)) (hw : Reads k e w l)
    (hk : k ≤ s.level) (he : s.level ≤ e) :
    ∃ tail e', ts = tail ++ rest ∧ Reads k e' (w ++ (s.tokens ++ tail)) t ∧ AtMost e' rest := by
  cases s with
  | binary op =>
    simp only [readSuffix, Option.bind_eq_bind, Option.bind_eq_some_iff, Prod.exists,
      Option.pure_def, Option.some.injEq, Prod.mk.injEq] at h
    obtain ⟨right, after, hright, rfl, rfl⟩ := h
    obtain ⟨w', e', rfl, hw', hb⟩ := ih.expr hright
    exact ⟨w', op.level, rfl, .binary op hk he hw hw', below_succ.1 hb⟩
  | joined j =>
    simp only [readSuffix, Option.bind_eq_bind, Option.bind_eq_some_iff, Prod.exists,
      Option.pure_def, Option.some.injEq, Prod.mk.injEq] at h
    obtain ⟨right, after, hright, rfl, rfl⟩ := h
    obtain ⟨w', e', rfl, hw', hb⟩ := ih.expr hright
    exact ⟨w', j.level, rfl, .joined j hk he hw hw', below_succ.1 hb⟩
  | nullTest negated =>
    simp only [readSuffix, Option.some.injEq, Prod.mk.injEq] at h
    obtain ⟨rfl, rfl⟩ := h
    refine ⟨[], closedLevel, rfl, ?_, atMost_closed _⟩
    rw [List.append_nil]
    exact .nullTest negated hk he hw
  | membership negated =>
    simp only [readSuffix] at h
    split at h
    · simp only [Option.some.injEq, Prod.mk.injEq] at h
      obtain ⟨rfl, rfl⟩ := h
      exact ⟨[.opening, .closing], closedLevel, rfl,
        .membership negated [] hk he hw (by simp), atMost_closed _⟩
    · simp only [Option.bind_eq_bind, Option.bind_eq_some_iff, Prod.exists, Option.pure_def,
        Option.some.injEq, Prod.mk.injEq] at h
      obtain ⟨trees, after, htrees, rfl, rfl⟩ := h
      obtain ⟨items, rfl, rfl, _, hitems⟩ := ih.items htrees
      exact ⟨.opening :: (separated .comma (items.map Item.tokens) ++ [.closing]), closedLevel, by simp,
        .membership negated items hk he hw hitems, atMost_closed _⟩
    · exact absurd h (by simp)
  | range negated =>
    simp only [readSuffix, Option.bind_eq_bind, Option.bind_eq_some_iff, Prod.exists] at h
    obtain ⟨low, after, hlow, h⟩ := h
    split at h
    · rename_i heq
      simp only [Prod.mk.injEq] at heq
      obtain ⟨rfl, rfl⟩ := heq
      simp only [Option.bind_eq_some_iff, Prod.exists, Option.pure_def, Option.some.injEq,
        Prod.mk.injEq] at h
      obtain ⟨high, last, hhigh, rfl, rfl⟩ := h
      obtain ⟨w₁, e₁, rfl, hw₁, _⟩ := ih.expr hlow
      obtain ⟨w₂, e₂, rfl, hw₂, hb⟩ := ih.expr hhigh
      exact ⟨w₁ ++ .keyword .and :: w₂, testLevel, by simp,
        .range negated hk he hw hw₁ hw₂, below_succ.1 hb⟩
    · exact absurd h (by simp)

theorem items_succ (ih : Sound fuel) {ts rest : List Token} {trees : List Tree}
    (h : readItems (fuel + 1) ts = some (trees, rest)) :
    ∃ items : List Item, trees = items.map Item.tree ∧
      ts = separated .comma (items.map Item.tokens) ++ .closing :: rest ∧ items ≠ [] ∧
      ∀ i ∈ items, Reads loosest i.edge i.tokens i.tree := by
  simp only [readItems, Option.bind_eq_bind, Option.bind_eq_some_iff, Prod.exists] at h
  obtain ⟨t, after, ht, h⟩ := h
  obtain ⟨w, e, rfl, hw, _⟩ := ih.expr ht
  split at h
  · rename_i heq
    simp only [Prod.mk.injEq, Option.pure_def, Option.some.injEq] at heq h
    obtain ⟨rfl, rfl⟩ := heq
    obtain ⟨rfl, rfl⟩ := h
    exact ⟨[⟨w, e, t⟩], rfl, rfl, by simp, by simpa using hw⟩
  · rename_i heq
    simp only [Prod.mk.injEq] at heq
    obtain ⟨rfl, rfl⟩ := heq
    simp only [Option.bind_eq_some_iff, Prod.exists, Option.pure_def, Option.some.injEq,
      Prod.mk.injEq] at h
    obtain ⟨more, last, hmore, rfl, rfl⟩ := h
    obtain ⟨items, rfl, rfl, hne, hitems⟩ := ih.items hmore
    refine ⟨⟨w, e, t⟩ :: items, rfl, ?_, by simp, ?_⟩
    · obtain ⟨i, items, rfl⟩ := List.exists_cons_of_ne_nil hne
      simp only [List.map_cons, separated, List.append_assoc, List.cons_append]
    · intro i hi
      rcases List.mem_cons.1 hi with rfl | hi
      · exact hw
      · exact hitems i hi
  · exact absurd h (by simp)

end Sound

/-- **The grammar has every tree that the reader finds.** -/
theorem sound (fuel : Nat) : Sound fuel := by
  induction fuel with
  | zero => exact .zero
  | succ fuel ih =>
    exact ⟨ih.expr_succ, ih.primary_succ, ih.suffixes_succ, ih.suffix_succ, ih.items_succ⟩

/-- The tree of a text is the tree of its tokens in the grammar. -/
theorem read_eq_some_iff {s : String} {ts : List Token} (h : tokens? s = some ts) (t : Tree) :
    read s = some t ↔ ∃ e, Reads loosest e ts t := by
  simp only [read, h, Option.bind_eq_bind, Option.bind_some]
  constructor
  · intro hread
    split at hread
    · rename_i t' heq
      simp only [Option.some.injEq] at hread
      subst hread
      obtain ⟨w, e, hw, hr, _⟩ := (sound _).expr heq
      rw [List.append_nil] at hw
      exact ⟨e, hw ▸ hr⟩
    · exact absurd hread (by simp)
  · rintro ⟨e, hr⟩
    have := hr.found.readExpr_eq [] (4 * ts.length + 1)
      (hr.le_edge (by decide)) (below_of_take?_eq_none rfl) (by simp) (Nat.lt_succ_self _)
    rw [List.append_nil] at this
    rw [this]

end StrictDdl.Sqlite
