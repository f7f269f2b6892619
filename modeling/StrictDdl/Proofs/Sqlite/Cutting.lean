import StrictDdl.Proofs.Sqlite.Closing

/-! Texts that are cut at their separators.

A character separates parts of a text where it stands outside quotes and parentheses. A part that
has it nowhere else (`Solid`) and is closed ends at the first separator behind it, whatever
follows, so parts with separators between them are found again (`Segment.intercalate_inj`). -/
namespace StrictDdl.Sqlite

open Mode (opensComment)

/-- The character stands in the text within quotes or parentheses only. -/
def Solid (sep : Char) (cs : List Char) : Prop :=
  ∀ before u v last, cs = u ++ sep :: v → (Zone.code before).run 0 u ≠ some (.code last, 0)

variable {sep : Char} {u v m : List Char}

/-- A scan through a closed text fails at its first character or leaves it outside quotes. -/
theorem Closed.run_cases (hu : Closed u) (before : Char) (d : Nat) :
    (Zone.code before).run d u = none ∨
      ∃ last, (Zone.code before).run d u = some (.code last, d) := by
  cases u with
  | nil => exact .inr ⟨before, rfl⟩
  | cons c u =>
    cases hopens : opensComment before c with
    | true => exact .inl (by simp [Zone.run, Zone.next, hopens])
    | false => exact .inr ⟨_, hu before d (by simpa using hopens)⟩

theorem Closed.run_blank (hu : Closed u) : ∃ last, (Zone.code ' ').run 0 u = some (.code last, 0) :=
  ⟨_, hu ' ' 0 fun c _ => opensComment_blank c⟩

namespace Solid

theorem of_notMem (h : sep ∉ u) : Solid sep u := by
  rintro before v w last rfl
  exact absurd (by simp) h

theorem append (hu : Solid sep u) (hclosed : Closed u) (hv : Solid sep v) :
    Solid sep (u ++ v) := by
  intro before p q last heq hrun
  rcases List.append_eq_append_iff.1 heq with ⟨rest, rfl, hrest⟩ | ⟨rest, rfl, hrest⟩
  · rw [Zone.run_append] at hrun
    rcases hclosed.run_cases before 0 with hnone | ⟨last', hsome⟩
    · rw [hnone] at hrun
      cases hrun
    · rw [hsome] at hrun
      exact hv last' rest q last hrest hrun
  · cases rest with
    | nil => exact hv ' ' [] q ' ' hrest.symm rfl
    | cons c rest =>
      obtain ⟨rfl, _⟩ := List.cons.inj hrest
      exact hu before p rest last rfl hrun

/-- What stands in parentheses does not count. -/
theorem parens (hu : Closed u) (hsep : sep ≠ '(' ∧ sep ≠ ')') :
    Solid sep ('(' :: (u ++ [')'])) := by
  intro before p q last heq hrun
  cases p with
  | nil => exact hsep.1 (List.cons.inj heq).1.symm
  | cons c p =>
    obtain ⟨rfl, htail⟩ := List.cons.inj heq
    have hopen : (Zone.code before).next '(' = some (.code '(') := by
      simp [Zone.next, opensComment, isQuote]
    rw [Zone.run_cons hopen rfl] at hrun
    rcases List.append_eq_append_iff.1 htail with ⟨rest, rfl, hrest⟩ | ⟨rest, rfl, hrest⟩
    · cases rest with
      | nil => exact hsep.2 (List.cons.inj hrest).1.symm
      | cons c rest => exact absurd (List.cons.inj hrest).2 (by simp)
    · -- The scan of `u` passes through here, with one parenthesis less open.
      have hall := hu '(' 0 fun c _ => by simp [opensComment]
      rw [Zone.run_append] at hall
      obtain ⟨⟨z, d⟩, hz, _⟩ := Option.bind_eq_some_iff.1 hall
      rw [Zone.run_add 1 hz] at hrun
      simp at hrun

/-- Between quotes the scan is outside of them in the middle of a doubled quote only. -/
theorem quoted_run_ne {quote : Char} (hquote : isQuote quote) (hsep : sep ≠ quote)
    {cs p q : List Char} (h : Sql.doubled quote cs ++ [quote] = p ++ sep :: q) (d d' : Nat)
    (last : Char) : (Zone.quoted quote).run d p ≠ some (.code last, d') := by
  induction cs generalizing p with
  | nil =>
    cases p with
    | nil => exact absurd (List.cons.inj h).1.symm hsep
    | cons c p => exact absurd (List.cons.inj h).2 (by simp)
  | cons c cs ih =>
    cases p with
    | nil => exact fun hrun => by cases hrun
    | cons c' p =>
      rw [Sql.doubled] at h
      split at h
      · rename_i hc
        obtain ⟨hfirst, htail⟩ := List.cons.inj h
        cases p with
        | nil => exact absurd ((List.cons.inj htail).1.symm.trans hc) hsep
        | cons c'' p =>
          obtain ⟨hsecond, hrest⟩ := List.cons.inj htail
          rw [← hfirst, ← hsecond, hc, Zone.run_ends, Zone.run_opens quote hquote]
          exact ih hrest
      · rename_i hc
        obtain ⟨hfirst, hrest⟩ := List.cons.inj h
        rw [← hfirst, Zone.run_inside hc]
        exact ih hrest

/-- What stands in quotes does not count. -/
theorem enclosed {quote : Char} (hquote : isQuote quote) (hsep : sep ≠ quote) (s : String) :
    Solid sep (Sql.enclosed quote s).toList := by
  intro before p q last heq
  rw [Sql.enclosed, String.toList_ofList, List.cons_append] at heq
  cases p with
  | nil => exact absurd (List.cons.inj heq).1.symm hsep
  | cons c p =>
    obtain ⟨hfirst, htail⟩ := List.cons.inj heq
    rw [← hfirst, Zone.run_opens before hquote]
    exact quoted_run_ne hquote hsep htail 0 0 last

theorem intercalate (hm : Glue m) (hsolid : Solid sep m) {us : List (List Char)}
    (h : ∀ u ∈ us, Closed u ∧ Solid sep u) : Solid sep (m.intercalate us) := by
  induction us with
  | nil => exact of_notMem (by simp)
  | cons u us ih =>
    obtain ⟨⟨hclosed, hu⟩, hus⟩ := List.forall_mem_cons.1 h
    cases us with
    | nil => simpa using hu
    | cons v us =>
      rw [List.intercalate_cons_cons, List.append_assoc]
      exact hu.append hclosed (hsolid.append hm.closed (ih hus))

end Solid

theorem Closed.intercalate (hm : Glue m) {us : List (List Char)} (h : ∀ u ∈ us, Closed u) :
    Closed (m.intercalate us) := by
  induction us with
  | nil => exact .nil
  | cons u us ih =>
    obtain ⟨hu, hus⟩ := List.forall_mem_cons.1 h
    cases us with
    | nil => simpa using hu
    | cons v us =>
      rw [List.intercalate_cons_cons, List.append_assoc]
      exact Scans.glued (p := false) (q := false) hu hm (ih hus)

/-! ### Parts between separators -/

theorem intercalate_ne_nil {α : Type} {m u : List α} (hu : u ≠ []) (us : List (List α)) :
    m.intercalate (u :: us) ≠ [] := by
  cases us with
  | nil => simpa using hu
  | cons v us =>
    rw [List.intercalate_cons_cons, List.append_assoc]
    exact List.append_ne_nil_of_left_ne_nil hu _

theorem mem_intercalate {α : Type} {m : List α} {us : List (List α)} {a : α}
    (h : a ∈ m.intercalate us) : a ∈ m ∨ ∃ u ∈ us, a ∈ u := by
  induction us with
  | nil => exact absurd h (by simp)
  | cons u us ih =>
    cases us with
    | nil => exact .inr ⟨u, List.mem_cons_self .., by simpa using h⟩
    | cons v us =>
      rw [List.intercalate_cons_cons] at h
      rcases List.mem_append.1 h with h | h
      · rcases List.mem_append.1 h with h | h
        · exact .inr ⟨u, List.mem_cons_self .., h⟩
        · exact .inl h
      · rcases ih h with h | ⟨w, hw, h⟩
        · exact .inl h
        · exact .inr ⟨w, List.mem_cons_of_mem u hw, h⟩

/-- A part that can be told from what stands around it. -/
structure Segment (sep : Char) (cs : List Char) : Prop where
  ne_nil : cs ≠ []
  closed : Closed cs
  solid : Solid sep cs

namespace Segment

variable {u' v' : List Char}

/-- A segment ends at its separator. -/
theorem ne_append (hu : Segment sep u) (hv : Segment sep v) (w : List Char) :
    u ≠ v ++ sep :: w := by
  intro heq
  obtain ⟨last, hlast⟩ := hv.closed.run_blank
  exact hu.solid ' ' v w last heq hlast

theorem append_inj (hu : Segment sep u) (hv : Segment sep v)
    (h : u ++ sep :: u' = v ++ sep :: v') : u = v ∧ u' = v' := by
  rcases List.append_eq_append_iff.1 h with ⟨rest, rfl, hrest⟩ | ⟨rest, rfl, hrest⟩
  · cases rest with
    | nil => exact ⟨(List.append_nil u).symm, (List.cons.inj hrest).2⟩
    | cons c rest =>
      obtain ⟨rfl, _⟩ := List.cons.inj hrest
      exact absurd rfl (hv.ne_append hu rest)
  · cases rest with
    | nil => exact ⟨List.append_nil v, (List.cons.inj hrest).2.symm⟩
    | cons c rest =>
      obtain ⟨rfl, _⟩ := List.cons.inj hrest
      exact absurd rfl (hu.ne_append hv rest)

/-- **Segments with separators between them are found again.** -/
theorem intercalate_inj {us vs : List (List Char)} (hus : ∀ u ∈ us, Segment sep u)
    (hvs : ∀ v ∈ vs, Segment sep v)
    (h : (sep :: m).intercalate us = (sep :: m).intercalate vs) : us = vs := by
  induction us generalizing vs with
  | nil =>
    cases vs with
    | nil => rfl
    | cons v vs => exact absurd h.symm (intercalate_ne_nil (hvs v (List.mem_cons_self ..)).ne_nil vs)
  | cons u us ih =>
    cases vs with
    | nil => exact absurd h (intercalate_ne_nil (hus u (List.mem_cons_self ..)).ne_nil us)
    | cons v vs =>
      obtain ⟨hu, hus'⟩ := List.forall_mem_cons.1 hus
      obtain ⟨hv, hvs'⟩ := List.forall_mem_cons.1 hvs
      cases us with
      | nil =>
        cases vs with
        | nil => simpa using h
        | cons v' vs =>
          rw [List.intercalate_cons_cons, List.append_assoc] at h
          exact absurd (by simpa using h) (hu.ne_append hv (m ++ (sep :: m).intercalate (v' :: vs)))
      | cons u' us =>
        cases vs with
        | nil =>
          rw [List.intercalate_cons_cons, List.append_assoc] at h
          exact absurd (by simpa using h.symm)
            (hv.ne_append hu (m ++ (sep :: m).intercalate (u' :: us)))
        | cons v' vs =>
          rw [List.intercalate_cons_cons, List.intercalate_cons_cons, List.append_assoc,
            List.append_assoc] at h
          obtain ⟨rfl, htail⟩ := hu.append_inj hv h
          rw [ih hus' hvs' (List.append_cancel_left htail)]

end Segment

end StrictDdl.Sqlite
