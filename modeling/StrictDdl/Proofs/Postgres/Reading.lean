import StrictDdl.Proofs.Expr.Precedence
import StrictDdl.Proofs.Postgres.Words

/-! The pieces of a written tree.

A name or a constant is found again in its text (`Tree.Regular.leaf_inj`). Pieces are found again
in their words: where an operand is due, a word is one or is `NOT`, and behind an operand the first
words say which operator stands there. Only `AND` may be two things, a connective or the word
between the ends of a range, and it is the second when a range is waiting for its end (`Spot`). The
pieces of a tree are a row that is read in this way (`Tree.Regular.isRow`), so its words give them
away (`Tree.Regular.pieces_eq`). -/
namespace StrictDdl.Postgres

open Sqlite (Junction Token)

/-! ### Names and constants -/

namespace Tree

/-- A tree that is one name or constant. -/
def isLeaf : Tree → Bool
  | .column _ | .whole _ | .fractional .. | .text _ | .null => true
  | _ => false

/-- The tokens of a name or a constant. -/
def leafTokens : Tree → List Token
  | .column path => (Sqlite.pathTokens path).tail
  | .whole n => [.whole n]
  | .fractional m e => [.fractional ((Binary64.finite false m e).write .plain)]
  | .text s => [.text s]
  | .null => [.keyword .null]
  | _ => []

variable {t t' : Tree}

theorem tokens?_of_lexes {s : String} {ts : List Token}
    (h : Sqlite.Mode.Lexes Sqlite.Mode.endsExpr s.toList ts) : Sqlite.tokens? s = some ts := by
  have := h [] (by simp)
  simpa [Sqlite.tokens?, Sqlite.Mode.scan, Sqlite.Mode.close?] using this

/-- A name or a constant is read as its tokens. -/
theorem Regular.tokens?_leaf (h : Regular t) (hleaf : t.isLeaf) :
    Sqlite.tokens? t.rendered.text = some t.leafTokens := by
  cases h with
  | @column path hne hnames =>
    obtain ⟨s, names, rfl⟩ := List.exists_cons_of_ne_nil hne
    obtain ⟨hs, hnames⟩ := List.forall_mem_cons.1 hnames
    have hlexes := Sqlite.Tree.lexesText_column (s :: names)
    have hplain : ∀ t ∈ Token.name s :: Sqlite.pathTokens names, t.IsPlain := by
      refine List.forall_mem_cons.2 ⟨(Token.isPlain_name_iff s).2 (.inr hs), fun t ht => ?_⟩
      obtain ⟨name, hname, ht⟩ := List.mem_flatMap.1 ht
      rcases List.mem_cons.1 ht with rfl | ht
      · rfl
      · rw [List.mem_singleton.1 ht]
        exact (Token.isPlain_name_iff name).2 (.inr (hnames name hname))
    rw [Sqlite.Tree.LexesText, Sqlite.Tree.tokens_column,
      (Token.scannedAll_eq_self_iff _).2 hplain] at hlexes
    exact tokens?_of_lexes hlexes
  | @whole n => exact tokens?_of_lexes (Sqlite.Mode.lexes_whole n)
  | @fractional m e _ =>
    have hlexes := Sqlite.Mode.lexes_number (.finite false m e)
    have hplain : (Token.fractional ((Binary64.finite false m e).write .plain)).IsPlain := by
      obtain ⟨c, rest, heq, hc⟩ := Binary64.exists_head_write .plain m e
      rw [Token.isPlain_fractional_iff, heq]
      exact hc
    rw [hplain] at hlexes
    exact tokens?_of_lexes hlexes
  | @text s => exact tokens?_of_lexes (Sqlite.Mode.lexes_textLiteral s)
  | null => rfl
  | _ => cases hleaf

/-- No name and no constant starts with a parenthesis or is the word `NOT`. -/
theorem Regular.leafTokens_cons (h : Regular t) (hleaf : t.isLeaf) :
    ∃ first rest, t.leafTokens = first :: rest ∧ first ≠ .opening ∧ first ≠ .keyword .not := by
  cases h with
  | column hne _ =>
    obtain ⟨s, names, rfl⟩ := List.exists_cons_of_ne_nil hne
    exact ⟨.name s, Sqlite.pathTokens names, rfl, by simp, by simp⟩
  | whole => exact ⟨_, _, rfl, by simp, by simp⟩
  | fractional _ => exact ⟨_, _, rfl, by simp, by simp⟩
  | text => exact ⟨_, _, rfl, by simp, by simp⟩
  | null => exact ⟨_, _, rfl, by simp, by simp⟩
  | _ => cases hleaf

theorem Regular.leaf_ne_not (h : Regular t) (hleaf : t.isLeaf) : t.rendered.text ≠ "NOT" := by
  intro heq
  have htokens := h.tokens?_leaf hleaf
  obtain ⟨first, rest, hfirst, _, hne⟩ := h.leafTokens_cons hleaf
  rw [heq, hfirst] at htokens
  have hnot : Sqlite.tokens? "NOT" = some [.keyword .not] := rfl
  rw [hnot, Option.some.injEq] at htokens
  exact hne (List.cons.inj htokens).1.symm

theorem Regular.leaf_ne_group (h : Regular t) (hleaf : t.isLeaf) (s : String) :
    t.rendered.text ≠ "(" ++ s ++ ")" := by
  intro heq
  have htokens := h.tokens?_leaf hleaf
  obtain ⟨first, rest, hfirst, hne, _⟩ := h.leafTokens_cons hleaf
  rw [heq, hfirst, Sqlite.tokens?, String.toList_append, String.toList_append] at htokens
  have hopen : Sqlite.Mode.Passes .start "(".toList [.opening] .start := .of_through rfl
  rw [List.append_assoc, hopen] at htokens
  obtain ⟨more, _, hmore⟩ := Option.map_eq_some_iff.1 htokens
  exact hne (List.cons.inj hmore).1.symm

theorem pathTokens_inj {names names' : List String}
    (h : Sqlite.pathTokens names = Sqlite.pathTokens names') : names = names' := by
  have hrest : ∀ names, (Sqlite.pathRest (Sqlite.pathTokens names)).1 = names := by
    intro names
    have := Sqlite.pathRest_append names [] (by simp)
    rw [List.append_nil] at this
    rw [this]
  rw [← hrest names, h, hrest names']

/-- The token of a constant is no path. -/
theorem constant_ne_path {path : List String} (hne : path ≠ []) {token : Token}
    (h : ∀ s, token ≠ .name s) : [token] ≠ (Sqlite.pathTokens path).tail := by
  obtain ⟨s, names, rfl⟩ := List.exists_cons_of_ne_nil hne
  intro heq
  exact h s (List.cons.inj heq).1

/-- **Names and constants that are written alike are the same.** -/
theorem Regular.leaf_inj (h : Regular t) (h' : Regular t') (hleaf : t.isLeaf) (hleaf' : t'.isLeaf)
    (htext : t.rendered.text = t'.rendered.text) : t = t' := by
  have htokens : t.leafTokens = t'.leafTokens := by
    have := h.tokens?_leaf hleaf
    rw [htext, h'.tokens?_leaf hleaf', Option.some.injEq] at this
    exact this.symm
  cases h with
  | column hne _ =>
    obtain ⟨s, names, rfl⟩ := List.exists_cons_of_ne_nil hne
    cases h' with
    | column hne' _ =>
      obtain ⟨s', names', rfl⟩ := List.exists_cons_of_ne_nil hne'
      obtain ⟨hs, hnames⟩ := List.cons.inj htokens
      rw [Token.name.inj hs, pathTokens_inj hnames]
    | _ => cases htokens
  | whole =>
    cases h' with
    | column hne' _ => exact absurd htokens (constant_ne_path hne' nofun)
    | whole =>
      cases htokens
      rfl
    | _ => cases htokens
  | fractional hm =>
    cases h' with
    | column hne' _ => exact absurd htokens (constant_ne_path hne' nofun)
    | fractional hm' =>
      obtain ⟨rfl, rfl⟩ := Binary64.eq_of_write_eq hm hm' htext
      rfl
    | _ => cases htokens
  | text =>
    cases h' with
    | column hne' _ => exact absurd htokens (constant_ne_path hne' nofun)
    | text =>
      cases htokens
      rfl
    | _ => cases htokens
  | null =>
    cases h' with
    | column hne' _ => exact absurd htokens (constant_ne_path hne' nofun)
    | null => rfl
    | _ => cases htokens
  | _ => cases hleaf

end Tree

/-! ### Rows of pieces -/

/-- Where a row of pieces goes on: whether an operand is due, and whether a range is waiting for its
second end. -/
structure Spot where
  due : Bool
  waiting : Bool

namespace Piece

/-- Where a row goes on behind a piece that may stand there. -/
def next? (s : Spot) : Piece → Option Spot
  | .operand word => if s.due ∧ word ≠ "NOT" then some { s with due := false } else none
  | .negation => if s.due then some s else none
  | .operator _ => if s.due then none else some { s with due := true }
  | .nullTest _ => if s.due then none else some s
  | .membership _ _ => if s.due then none else some s
  | .range _ => if s.due ∨ s.waiting then none else some ⟨true, true⟩
  | .bound => if s.due ∨ ¬ s.waiting then none else some ⟨true, false⟩
  | .junction _ => if s.due ∨ s.waiting then none else some { s with due := true }

def run (s : Spot) : List Piece → Option Spot
  | [] => some s
  | p :: ps => (p.next? s).bind fun s => run s ps

/-- The operator at the front of some words, and the words behind it. -/
def takeOperator? (waiting : Bool) : List String → Option (Piece × List String)
  | "IS" :: "NULL" :: ws => some (.nullTest false, ws)
  | "IS" :: "NOT" :: "NULL" :: ws => some (.nullTest true, ws)
  | "IN" :: items :: ws => some (.membership false items, ws)
  | "NOT" :: "IN" :: items :: ws => some (.membership true items, ws)
  | "BETWEEN" :: ws => some (.range false, ws)
  | "NOT" :: "BETWEEN" :: ws => some (.range true, ws)
  | "LIKE" :: ws => some (.operator .like, ws)
  | "NOT" :: "LIKE" :: ws => some (.operator .notLike, ws)
  | "AND" :: ws => some (if waiting then .bound else .junction .all, ws)
  | "OR" :: ws => some (.junction .any, ws)
  | w :: ws => (Infix.named.lookup w).map fun op => (.operator op, ws)
  | [] => none

/-- The piece at the front of some words, and the words behind it. -/
def take? (s : Spot) (ws : List String) : Option (Piece × List String) :=
  if s.due then
    match ws with
    | [] => none
    | w :: ws => some (if w = "NOT" then .negation else .operand w, ws)
  else takeOperator? s.waiting ws

theorem next?_operand {word : String} (h : word ≠ "NOT") (waiting : Bool) :
    (operand word).next? ⟨true, waiting⟩ = some ⟨false, waiting⟩ := if_pos ⟨rfl, h⟩

theorem next?_negation (waiting : Bool) :
    negation.next? ⟨true, waiting⟩ = some ⟨true, waiting⟩ := rfl

theorem next?_operator (op : Infix) (waiting : Bool) :
    (operator op).next? ⟨false, waiting⟩ = some ⟨true, waiting⟩ := rfl

theorem next?_range (negated : Bool) : (range negated).next? ⟨false, false⟩ = some ⟨true, true⟩ :=
  rfl

theorem next?_bound : bound.next? ⟨false, true⟩ = some ⟨true, false⟩ := rfl

theorem next?_junction (j : Junction) :
    (junction j).next? ⟨false, false⟩ = some ⟨true, false⟩ := rfl

/-- A piece is found in its words where it may stand. -/
theorem take?_words {s s' : Spot} {p : Piece} (h : p.next? s = some s') (ws : List String) :
    take? s (p.words ++ ws) = some (p, ws) := by
  obtain ⟨due, waiting⟩ := s
  cases p with
  | operand word =>
    cases due with
    | false => cases h
    | true =>
      have hne : word ≠ "NOT" := by
        rintro rfl
        cases h
      show some (if word = "NOT" then Piece.negation else .operand word, ws) = _
      rw [if_neg hne]
  | negation =>
    cases due with
    | true => rfl
    | false => cases h
  | operator op =>
    cases due with
    | true => cases h
    | false => cases op <;> rfl
  | nullTest negated =>
    cases due with
    | true => cases h
    | false => cases negated <;> rfl
  | membership negated items =>
    cases due with
    | true => cases h
    | false => cases negated <;> rfl
  | range negated =>
    cases due with
    | true => cases h
    | false => cases negated <;> rfl
  | bound =>
    cases due with
    | true => cases h
    | false =>
      cases waiting with
      | true => rfl
      | false => cases h
  | junction j =>
    cases due with
    | true => cases h
    | false =>
      cases waiting with
      | true => cases h
      | false => cases j <;> rfl

variable {s s' : Spot} {ps qs : List Piece}

theorem run_cons {p : Piece} (h : p.next? s = some s') (ps : List Piece) :
    run s (p :: ps) = run s' ps := by
  rw [run, h]
  rfl

theorem run_append (h : run s ps = some s') (qs : List Piece) : run s (ps ++ qs) = run s' qs := by
  induction ps generalizing s with
  | nil =>
    cases h
    rfl
  | cons p ps ih =>
    obtain ⟨s₁, hp, hps⟩ := Option.bind_eq_some_iff.1 h
    rw [List.cons_append, run_cons hp]
    exact ih hps

/-- Rows with a connective between them are a row. -/
theorem run_intercalate (j : Junction) {pss : List (List Piece)} (hne : pss ≠ [])
    (h : ∀ ps ∈ pss, run ⟨true, false⟩ ps = some ⟨false, false⟩) :
    run ⟨true, false⟩ ([.junction j].intercalate pss) = some ⟨false, false⟩ := by
  induction pss with
  | nil => exact absurd rfl hne
  | cons ps pss ih =>
    obtain ⟨hps, hpss⟩ := List.forall_mem_cons.1 h
    cases pss with
    | nil => simpa using hps
    | cons qs pss =>
      rw [List.intercalate_cons_cons, List.append_assoc, run_append hps, List.singleton_append,
        run_cons (next?_junction j)]
      exact ih (List.cons_ne_nil qs pss) hpss

/-- Rows are found again in their words. -/
theorem eq_of_words_eq {s₁ s₂ : Spot} (hp : run s ps = some s₁) (hq : run s qs = some s₂)
    (h : ps.flatMap words = qs.flatMap words) : ps = qs := by
  induction ps generalizing s qs with
  | nil =>
    cases qs with
    | nil => rfl
    | cons q qs => exact absurd h.symm (flatMap_words_ne_nil (by simp))
  | cons p ps ih =>
    cases qs with
    | nil => exact absurd h (flatMap_words_ne_nil (by simp))
    | cons q qs =>
      obtain ⟨s', hp', hps⟩ := Option.bind_eq_some_iff.1 hp
      obtain ⟨s'', hq', hqs⟩ := Option.bind_eq_some_iff.1 hq
      rw [List.flatMap_cons, List.flatMap_cons] at h
      have htake := take?_words hp' (ps.flatMap words)
      rw [h, take?_words hq' (qs.flatMap words), Option.some.injEq, Prod.mk.injEq] at htake
      obtain ⟨rfl, hwords⟩ := htake
      rw [hp', Option.some.injEq] at hq'
      rw [ih hps (hq' ▸ hqs) hwords.symm]

end Piece

/-! ### The row of a tree -/

namespace Tree

/-- How strongly a tree holds together. -/
def rank (t : Tree) : Nat := t.rendered.binding.rank

theorem rank_le_of_not_isLoose {t : Tree} {place : Binding} {onRight : Bool}
    (h : t.rendered.isLoose place onRight = false) : place.rank ≤ t.rank := by
  simp only [Rendered.isLoose, Bool.or_eq_false_iff, decide_eq_false_iff_not] at h
  exact not_lt.1 h.1

/-- The pieces of a tree are a row, inside a range only if they bind more tightly than one. -/
def IsRow (t : Tree) : Prop :=
  ∀ waiting : Bool, (waiting → Binding.userOperator.rank ≤ t.rank) →
    Piece.run ⟨true, waiting⟩ t.pieces = some ⟨false, waiting⟩

variable {t : Tree}

theorem not_waiting {waiting : Bool} (h : waiting → Binding.userOperator.rank ≤ t.rank)
    (hrank : t.rank < Binding.userOperator.rank) : waiting = false := by
  cases waiting with
  | false => rfl
  | true => exact absurd (h rfl) (Nat.not_le.2 hrank)

theorem IsRow.of_leaf (h : t.pieces = [.operand t.rendered.text]) (hne : t.rendered.text ≠ "NOT") :
    IsRow t := by
  intro waiting _
  rw [h, Piece.run_cons (Piece.next?_operand hne waiting)]
  rfl

theorem IsRow.operand (h : IsRow t) {place : Binding} {onRight : Bool} (waiting : Bool)
    (hplace : waiting → Binding.userOperator.rank ≤ place.rank) :
    Piece.run ⟨true, waiting⟩ (t.operand place onRight) = some ⟨false, waiting⟩ := by
  unfold Tree.operand bracketed
  cases hloose : t.rendered.isLoose place onRight with
  | false => exact h waiting fun hw => Nat.le_trans (hplace hw) (rank_le_of_not_isLoose hloose)
  | true =>
    have hne : "(" ++ t.rendered.text ++ ")" ≠ "NOT" := by
      intro heq
      have := congrArg (fun s => s.toList.head?) heq
      simp at this
    rw [if_pos rfl]
    exact Piece.run_cons (Piece.next?_operand hne waiting) []

/-- **The pieces of a tree are a row.** -/
theorem Regular.isRow (h : Regular t) : IsRow t := by
  induction h with
  | column hne hnames =>
    exact .of_leaf rfl (Regular.leaf_ne_not (.column hne hnames) rfl)
  | whole => exact .of_leaf rfl (Regular.leaf_ne_not .whole rfl)
  | fractional hm => exact .of_leaf rfl (Regular.leaf_ne_not (.fractional hm) rfl)
  | text => exact .of_leaf rfl (Regular.leaf_ne_not .text rfl)
  | null => exact .of_leaf rfl (Regular.leaf_ne_not .null rfl)
  | @binary op left right _ _ hleft hright =>
    intro waiting hrank
    have hplace : waiting → Binding.userOperator.rank ≤ op.binding.rank := hrank
    rw [pieces_binary, Piece.run_append (hleft.operand waiting hplace),
      Piece.run_cons (Piece.next?_operator op waiting)]
    exact hright.operand waiting hplace
  | nullTest _ h =>
    intro waiting hrank
    obtain rfl := not_waiting hrank (by decide : Binding.test.rank < Binding.userOperator.rank)
    rw [pieces_nullTest, Piece.run_append (h.operand false (by simp))]
    rfl
  | membership _ _ h _ =>
    intro waiting hrank
    obtain rfl := not_waiting hrank (by decide : Binding.matching.rank < Binding.userOperator.rank)
    rw [pieces_membership, Piece.run_append (h.operand false (by simp))]
    rfl
  | range _ _ _ h hlow hhigh =>
    intro waiting hrank
    obtain rfl := not_waiting hrank (by decide : Binding.matching.rank < Binding.userOperator.rank)
    rw [pieces_range, Piece.run_append (h.operand false (by simp)),
      Piece.run_cons (Piece.next?_range _), Piece.run_append (hlow.operand true fun _ => le_rfl),
      Piece.run_cons Piece.next?_bound]
    exact hhigh.operand false (by simp)
  | negation _ h =>
    intro waiting hrank
    obtain rfl := not_waiting hrank (by decide : Binding.negation.rank < Binding.userOperator.rank)
    rw [pieces_negation, Piece.run_cons (Piece.next?_negation false)]
    exact h.operand false (by simp)
  | @joined j ts hlen _ _ h =>
    intro waiting hrank
    have hj : j.binding.rank < Binding.userOperator.rank := by cases j <;> decide
    obtain rfl := not_waiting hrank hj
    obtain ⟨t, ts, rfl⟩ := List.exists_cons_of_length_pos (show 0 < ts.length by omega)
    rw [pieces_joined]
    refine Piece.run_intercalate j (List.cons_ne_nil _ _) fun ps hps => ?_
    obtain ⟨u, hu, rfl⟩ := List.mem_map.1 hps
    exact (h u hu).operand false (by simp)

variable {t' : Tree}

/-- The pieces of a tree are found in its text. -/
theorem Regular.pieces_eq (h : Regular t) (h' : Regular t')
    (htext : t.rendered.text = t'.rendered.text) : t.pieces = t'.pieces :=
  Piece.eq_of_words_eq (h.isRow false (by simp)) (h'.isRow false (by simp)) (h.words_eq h' htext)

end Tree

end StrictDdl.Postgres
