import StrictDdl.Proofs.Document.Reference
import StrictDdl.Proofs.Text.Pattern

/-! Which texts are paths of columns.

A path is cut at its slashes, and nothing is lost by that, so a text is the path of one column at
most. It is one exactly if it is made of the fixed parts and two names that are not empty
and have no slash in them, whatever else they hold. The same texts fit the pattern of a path, and
the names are what its repetitions take: a line break at the end of a text is part of the
second name (`RefKey.column_paths`). -/
namespace StrictDdl.RefKey

/-! ### Parts -/

/-- Nothing is lost at the cuts. -/
theorem intercalate_segments (cs : List Char) : ['/'].intercalate (segments cs) = cs := by
  induction cs with
  | nil => rfl
  | cons c cs ih =>
    obtain ⟨first, more, hcs⟩ := List.exists_cons_of_ne_nil (segments_ne_nil cs)
    rw [hcs] at ih
    rw [segments, hcs]
    dsimp only
    split
    · rename_i hc
      rw [List.intercalate_cons_cons, ih, hc]
      rfl
    · cases more with
      | nil =>
        rw [List.intercalate_singleton] at ih ⊢
        rw [ih]
      | cons second more =>
        rw [List.intercalate_cons_cons] at ih ⊢
        rw [List.cons_append, List.cons_append, ih]

theorem segments_injective {a b : List Char} (h : segments a = segments b) : a = b := by
  rw [← intercalate_segments a, h, intercalate_segments]

/-- No part holds a slash. -/
theorem notMem_of_mem_segments {part cs : List Char} (h : part ∈ segments cs) : '/' ∉ part := by
  induction cs generalizing part with
  | nil =>
    rw [List.mem_singleton.1 h]
    simp
  | cons c cs ih =>
    obtain ⟨first, more, hcs⟩ := List.exists_cons_of_ne_nil (segments_ne_nil cs)
    rw [segments, hcs] at h
    dsimp only at h
    split at h
    · rcases List.mem_cons.1 h with rfl | h
      · simp
      · exact ih (hcs ▸ h)
    · rename_i hc
      rcases List.mem_cons.1 h with rfl | h
      · have hfirst : '/' ∉ first := ih (hcs ▸ List.mem_cons_self ..)
        exact fun hmem => (List.mem_cons.1 hmem).elim (fun heq => hc heq.symm) hfirst
      · exact ih (hcs ▸ List.mem_cons_of_mem _ h)

/-! ### Paths of columns -/

/-- A name that can stand on a path. -/
def IsPart (name : String) : Prop := name ≠ "" ∧ '/' ∉ name.toList

instance (name : String) : Decidable (IsPart name) :=
  inferInstanceAs (Decidable (name ≠ "" ∧ '/' ∉ name.toList))

/-- How the path of a column is spelled. -/
structure IsColumnPath (path table column : String) : Prop where
  isPart_table : IsPart table
  isPart_column : IsPart column
  spelled : path = "#/properties/" ++ table ++ "/properties/" ++ column

theorem isPart_iff {name : String} : IsPart name ↔ name.toList ≠ [] ∧ '/' ∉ name.toList := by
  rw [IsPart, Ne, Ne, String.toList_eq_nil_iff]

/-- The column of a path is read exactly as it is spelled. -/
theorem column?_eq_some_iff {path table column : String} :
    column? path = some (table, column) ↔ IsColumnPath path table column := by
  constructor
  · intro h
    unfold column? at h
    split at h
    · rename_i root tables t columns c hparts
      split at h
      · rename_i hform
        obtain ⟨rfl, rfl, rfl, ht, hc⟩ := hform
        obtain ⟨rfl, rfl⟩ := Prod.mk.inj (Option.some.inj h)
        have hslash : ∀ part ∈ segments path.toList, '/' ∉ part := fun _ => notMem_of_mem_segments
        rw [hparts] at hslash
        obtain ⟨table, rfl⟩ : ∃ s : String, t = s.toList := ⟨String.ofList t, by simp⟩
        obtain ⟨column, rfl⟩ : ∃ s : String, c = s.toList := ⟨String.ofList c, by simp⟩
        have htable : '/' ∉ table.toList := hslash _ (by simp)
        have hcolumn : '/' ∉ column.toList := hslash _ (by simp)
        rw [String.ofList_toList, String.ofList_toList]
        refine ⟨isPart_iff.2 ⟨ht, htable⟩, isPart_iff.2 ⟨hc, hcolumn⟩, ?_⟩
        have hpath := segments_path ⟨table, column, .noAction, .noAction⟩
        rw [segments_eq_self htable, segments_eq_self hcolumn] at hpath
        exact String.toList_inj.1 (segments_injective (hparts.trans hpath.symm))
      · cases h
    · cases h
  · rintro ⟨htable, hcolumn, rfl⟩
    show column? (ForeignKey.path ⟨table, column, .noAction, .noAction⟩) = _
    exact column?_of_isPlain htable.1 hcolumn.1 (isPlain_column.2 ⟨htable.2, hcolumn.2⟩)

/-! ### The pattern of a path -/

/-- The pattern of a path: names are runs of characters that are no slashes. -/
def columnPattern : Text.Pattern :=
  [.literal "#/properties/", .many 1 (· ≠ '/'), .literal "/properties/", .many 1 (· ≠ '/')]

/-- The names among the parts of a match. -/
def columnOfMatch? : List String → Option (String × String)
  | [_, t, _, c] => some (t, c)
  | _ => none

section Match

open Text Text.Pattern

/-- The second fixed part starts with a slash, so no name gives a character back to it. -/
theorem ways_of_ne_slash (pattern : Pattern) (c : Char) (cs : List Char) (hc : decide (c ≠ '/')) :
    ways (.literal "/properties/" :: pattern) (c :: cs) = [] := by
  apply ways_literal_eq_nil
  intro hprefix
  exact of_decide_eq_true hc (List.cons_prefix_cons.1 hprefix).1.symm

theorem notMem_takeWhile (cs : List Char) : '/' ∉ cs.takeWhile (· ≠ '/') := by
  intro hmem
  simpa using List.mem_takeWhile_imp hmem

theorem forall_ne_slash {cs : List Char} (h : '/' ∉ cs) : ∀ c ∈ cs, decide (c ≠ '/') = true :=
  fun _ hc => decide_eq_true fun heq => h (heq ▸ hc)

/-- The fixed parts and the names, character by character. -/
theorem toList_path (root table middle column : String) :
    (root ++ table ++ middle ++ column).toList =
      root.toList ++ (table.toList ++ (middle.toList ++ column.toList)) := by
  simp

/-- What fits the pattern is the path of the names that are found. -/
theorem isColumnPath_of_match? {path table column : String}
    (h : (columnPattern.match? path).bind columnOfMatch? = some (table, column)) :
    IsColumnPath path table column := by
  by_cases hroot : "#/properties/".toList <+: path.toList
  · obtain ⟨x, hx⟩ := hroot
    rw [match?, ← hx, columnPattern, ways_literal, ways_many (ways_of_ne_slash _)] at h
    split at h
    · rename_i htable
      by_cases hmiddle : "/properties/".toList <+: x.dropWhile (· ≠ '/')
      · obtain ⟨y, hy⟩ := hmiddle
        rw [← hy, ways_literal, List.head?_map, List.head?_map, List.head?_map,
          head?_ways_last (by decide)] at h
        split at h
        · rename_i hcolumn
          obtain ⟨rfl, rfl⟩ := Prod.mk.inj (Option.some.inj h)
          obtain ⟨hall, hlength⟩ := hcolumn
          have hslash : '/' ∉ y := fun hmem => by simpa using List.all_eq_true.1 hall '/' hmem
          refine ⟨isPart_iff.2 ?_, isPart_iff.2 ?_, ?_⟩
          · rw [String.toList_ofList]
            exact ⟨List.length_pos_iff.1 htable, notMem_takeWhile x⟩
          · rw [String.toList_ofList]
            exact ⟨List.length_pos_iff.1 hlength, hslash⟩
          · have hparts : path.toList = "#/properties/".toList ++
                (x.takeWhile (· ≠ '/') ++ ("/properties/".toList ++ y)) := by
              rw [hy, List.takeWhile_append_dropWhile, hx]
            rw [← String.toList_inj, toList_path, hparts]
            simp
        · cases h
      · rw [ways_literal_eq_nil hmiddle] at h
        cases h
    · cases h
  · rw [match?, columnPattern, ways_literal_eq_nil hroot] at h
    cases h

theorem match?_of_isColumnPath {path table column : String} (h : IsColumnPath path table column) :
    (columnPattern.match? path).bind columnOfMatch? = some (table, column) := by
  obtain ⟨htable, hcolumn, rfl⟩ := h
  obtain ⟨htable, htslash⟩ := isPart_iff.1 htable
  obtain ⟨hcolumn, hcslash⟩ := isPart_iff.1 hcolumn
  have hslash : ∀ c ∈ ("/properties/".toList ++ column.toList).head?,
      decide (c ≠ '/') = false := by
    simp
  have htake := takeWhile_run (forall_ne_slash htslash) hslash
  have hdrop := dropWhile_run (forall_ne_slash htslash) hslash
  have hfirst : 1 ≤ table.toList.length := List.length_pos_iff.2 htable
  have hlast : column.toList.all (· ≠ '/') ∧ 1 ≤ column.toList.length :=
    ⟨List.all_eq_true.2 (forall_ne_slash hcslash), List.length_pos_iff.2 hcolumn⟩
  rw [match?, toList_path, columnPattern, ways_literal, ways_many (ways_of_ne_slash _), htake, hdrop,
    if_pos hfirst, ways_literal, List.head?_map, List.head?_map,
    List.head?_map, head?_ways_last (by decide), if_pos hlast]
  simp only [Option.map_some, List.map_cons, List.map_nil, Option.bind_some, columnOfMatch?,
    String.ofList_toList]

end Match

/-- **The column of a path is read by the pattern**, so names may hold anything but slashes. A text
is the path of a column exactly if it is spelled as one, and then of no other column; the path of a
reference leads back to its column if the names of both are there and have no slash. -/
theorem column_paths :
    (∀ path table column,
      column? path = some (table, column) ↔ IsColumnPath path table column) ∧
    (∀ path t c t' c', IsColumnPath path t c → IsColumnPath path t' c' → t = t' ∧ c = c') ∧
    (∀ fk : ForeignKey, IsPart fk.table → IsPart fk.column →
      column? fk.path = some (fk.table, fk.column)) ∧
    ∀ path, column? path = (columnPattern.match? path).bind columnOfMatch? := by
  refine ⟨fun _ _ _ => column?_eq_some_iff, fun path t c t' c' h h' => ?_,
    fun fk htable hcolumn => ?_, fun path => Option.ext fun names => ?_⟩
  · have heq := (column?_eq_some_iff.2 h).symm.trans (column?_eq_some_iff.2 h')
    exact Prod.mk.inj (Option.some.inj heq)
  · exact column?_eq_some_iff.2 ⟨htable, hcolumn, rfl⟩
  · obtain ⟨t, c⟩ := names
    exact column?_eq_some_iff.trans ⟨match?_of_isColumnPath, isColumnPath_of_match?⟩

/-- A table that is called like a fixed part, and a column with a line break at the end. -/
theorem column_paths_break :
    column? "#/properties/properties/properties/id\n" = some ("properties", "id\n") ∧
      (columnPattern.match? "#/properties/properties/properties/id\n").bind columnOfMatch? =
        some ("properties", "id\n") := by
  obtain ⟨_, _, hread, hpattern⟩ := column_paths
  have hid : column? "#/properties/properties/properties/id\n" = some ("properties", "id\n") :=
    hread ⟨"properties", "id\n", .noAction, .noAction⟩ (by decide) (by decide)
  exact ⟨hid, (hpattern _).symm.trans hid⟩

end StrictDdl.RefKey
