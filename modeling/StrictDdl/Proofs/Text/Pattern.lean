import Mathlib.Data.List.TakeWhile

/-! Matching a text with a pattern.

A pattern is matched from left to right. A repetition takes as many characters as it can, and
gives them back one by one as long as the rest does not fit. The pattern has to reach the
end of the text, and a line break at the end does not count. There can be several ways to match; the
first one that is tried is the match.

A repetition whose characters cannot start the rest of the pattern gives nothing back
(`Pattern.ways_many`), and one at the end of a pattern takes all there is
(`Pattern.head?_ways_last`). -/
namespace StrictDdl.Text

/-- A part of a pattern. -/
inductive Piece where
  /-- This text. -/
  | literal (text : String)
  /-- One character of a kind. -/
  | one (p : Char → Bool)
  /-- As many characters of a kind as there are, and no fewer than `least`. -/
  | many (least : Nat) (p : Char → Bool)

abbrev Pattern := List Piece

/-- The ways to take characters of a kind off the front of a text, the longest one first: what
is taken, and what is left. -/
def greedy (p : Char → Bool) : List Char → List (List Char × List Char)
  | [] => [([], [])]
  | c :: cs =>
    if p c then (greedy p cs).map (fun way => (c :: way.1, way.2)) ++ [([], c :: cs)]
    else [([], c :: cs)]

namespace Piece

/-- The ways to match a part with the front of a text, in the order in which they are tried. -/
def ways : Piece → List Char → List (List Char × List Char)
  | .literal text, cs =>
    if text.toList <+: cs then [(text.toList, cs.drop text.toList.length)] else []
  | .one _, [] => []
  | .one p, c :: cs => if p c then [([c], cs)] else []
  | .many least p, cs => (greedy p cs).filter fun way => least ≤ way.1.length

end Piece

/-- Whether a text is used up, up to a line break. -/
def atEnd (cs : List Char) : Bool := cs = [] || cs = ['\n']

namespace Pattern

/-- The ways to match a pattern, each with what its parts take. -/
def ways : Pattern → List Char → List (List (List Char))
  | [], cs => if atEnd cs then [[]] else []
  | piece :: pattern, cs =>
    (piece.ways cs).flatMap fun way => (ways pattern way.2).map (way.1 :: ·)

/-- What the parts of a pattern take of a text, if it fits. -/
def match? (pattern : Pattern) (s : String) : Option (List String) :=
  (pattern.ways s.toList).head?.map fun parts => parts.map String.ofList

end Pattern

/-! ### Repetitions -/

variable {p : Char → Bool}

section Run

variable {cs rest : List Char} (hcs : ∀ c ∈ cs, p c) (hrest : ∀ c ∈ rest.head?, p c = false)

include hcs hrest

/-- A run of characters of a kind ends where the first one of another kind stands. -/
theorem takeWhile_run : (cs ++ rest).takeWhile p = cs := by
  rw [List.takeWhile_append_of_pos hcs]
  cases rest with
  | nil => exact List.append_nil cs
  | cons d rest => rw [List.takeWhile_cons_of_neg (by simp [hrest d rfl]), List.append_nil]

theorem dropWhile_run : (cs ++ rest).dropWhile p = rest := by
  rw [List.dropWhile_append_of_pos hcs]
  cases rest with
  | nil => rfl
  | cons d rest => rw [List.dropWhile_cons_of_neg (by simp [hrest d rfl])]

end Run

theorem mem_greedy {cs : List Char} {way : List Char × List Char} (h : way ∈ greedy p cs) :
    way.1 ++ way.2 = cs ∧ ∀ c ∈ way.1, p c := by
  induction cs generalizing way with
  | nil =>
    obtain rfl := List.mem_singleton.1 h
    simp
  | cons c cs ih =>
    rw [greedy] at h
    split at h
    · rename_i hc
      rcases List.mem_append.1 h with hmap | hlast
      · obtain ⟨before, hbefore, rfl⟩ := List.mem_map.1 hmap
        obtain ⟨happend, hall⟩ := ih hbefore
        exact ⟨congrArg (c :: ·) happend, List.forall_mem_cons.2 ⟨hc, hall⟩⟩
      · obtain rfl := List.mem_singleton.1 hlast
        simp
    · obtain rfl := List.mem_singleton.1 h
      simp

/-- The first way takes all there is; any other leaves a character that could be taken. -/
theorem greedy_eq (p : Char → Bool) (cs : List Char) :
    ∃ shorter, greedy p cs = (cs.takeWhile p, cs.dropWhile p) :: shorter ∧
      ∀ way ∈ shorter, ∃ c left, p c ∧ way.2 = c :: left := by
  induction cs with
  | nil => exact ⟨[], rfl, by simp⟩
  | cons c cs ih =>
    rw [greedy]
    by_cases hc : p c
    · obtain ⟨shorter, hgreedy, hshorter⟩ := ih
      rw [if_pos hc, hgreedy, List.takeWhile_cons_of_pos hc, List.dropWhile_cons_of_pos hc]
      refine ⟨_, rfl, fun way hway => ?_⟩
      rcases List.mem_append.1 hway with hmap | hlast
      · obtain ⟨before, hbefore, rfl⟩ := List.mem_map.1 hmap
        exact hshorter before hbefore
      · obtain rfl := List.mem_singleton.1 hlast
        exact ⟨c, cs, hc, rfl⟩
    · rw [if_neg hc, List.takeWhile_cons_of_neg hc, List.dropWhile_cons_of_neg hc]
      exact ⟨[], rfl, by simp⟩

/-! ### Ways to match -/

namespace Pattern

variable {pattern : Pattern}

theorem ways_literal (text : String) (pattern : Pattern) (cs : List Char) :
    ways (.literal text :: pattern) (text.toList ++ cs) =
      (ways pattern cs).map (text.toList :: ·) := by
  rw [ways, Piece.ways, if_pos (List.prefix_append ..), List.drop_left, List.flatMap_singleton]

theorem ways_literal_eq_nil {text : String} {cs : List Char} (h : ¬ text.toList <+: cs) :
    ways (.literal text :: pattern) cs = [] := by
  rw [ways, Piece.ways, if_neg h, List.flatMap_nil]

/-- A repetition gives nothing back if none of its characters can start the rest. -/
theorem ways_many {least : Nat} (h : ∀ c cs, p c → ways pattern (c :: cs) = []) (cs : List Char) :
    ways (.many least p :: pattern) cs =
      if least ≤ (cs.takeWhile p).length then
        (ways pattern (cs.dropWhile p)).map (cs.takeWhile p :: ·)
      else [] := by
  obtain ⟨shorter, hgreedy, hshorter⟩ := greedy_eq p cs
  have hnone : (shorter.filter fun way => least ≤ way.1.length).flatMap
      (fun way => (ways pattern way.2).map (way.1 :: ·)) = [] := by
    rw [List.flatMap_eq_nil_iff]
    intro way hway
    obtain ⟨c, left, hc, hleft⟩ := hshorter way (List.mem_filter.1 hway).1
    rw [hleft, h c left hc, List.map_nil]
  rw [ways, Piece.ways, hgreedy, List.filter_cons]
  split
  · rename_i hleast
    rw [List.flatMap_cons, hnone, List.append_nil, if_pos (of_decide_eq_true hleast)]
  · rename_i hleast
    rw [hnone, if_neg (fun hle => hleast (decide_eq_true hle))]

/-- A repetition at the end takes the whole rest, a line break included. -/
theorem head?_ways_last {least : Nat} (hbreak : p '\n') (cs : List Char) :
    (ways [.many least p] cs).head? =
      if cs.all p ∧ least ≤ cs.length then some [cs] else none := by
  split
  · rename_i h
    obtain ⟨shorter, hgreedy, _⟩ := greedy_eq p cs
    have hall : ∀ c ∈ cs, p c := List.all_eq_true.1 h.1
    rw [List.takeWhile_eq_self_iff.2 hall, List.dropWhile_eq_nil_iff.2 hall] at hgreedy
    have hleast : decide (least ≤ cs.length) = true := decide_eq_true h.2
    rw [ways, Piece.ways, hgreedy, List.filter_cons]
    simp only [hleast, if_true]
    rfl
  · rename_i h
    rw [List.head?_eq_none_iff, ways, List.flatMap_eq_nil_iff]
    rintro ⟨taken, left⟩ hway
    obtain ⟨hway, hleast⟩ := List.mem_filter.1 hway
    obtain ⟨happend, htaken⟩ := mem_greedy hway
    have hleast : least ≤ taken.length := of_decide_eq_true hleast
    dsimp only at happend htaken ⊢
    rw [List.map_eq_nil_iff, ways, if_neg]
    intro hend
    apply h
    have hleft : ∀ c ∈ left, p c := by
      simp only [atEnd, Bool.or_eq_true, decide_eq_true_eq] at hend
      rcases hend with rfl | rfl
      · simp
      · simpa using hbreak
    rw [← happend, List.all_eq_true, List.length_append]
    exact ⟨fun c hc => (List.mem_append.1 hc).elim (htaken c) (hleft c), by omega⟩

end Pattern

end StrictDdl.Text
