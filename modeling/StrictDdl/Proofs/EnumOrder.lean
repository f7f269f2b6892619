import StrictDdl.Proofs.Layout
import StrictDdl.Proofs.Script

/-! Enumerations may be declared anywhere.

Two lists of statements that declare the same enumerations in the same order, and have the same
other statements in the same order, are converted to the same script and to the same document, or
to none (`Convert.enums_anywhere`). The positions of the other statements differ, but they stand in
the same order (`SamePlace.le_iff_le`), and nothing else is made of them. -/
namespace StrictDdl

open Read Traced

/-! ### Lists with items in common -/

section Lists

variable {α : Type} {p : α → Bool} {as bs : List α}

/-- The lists have the same selected items in the same order; the others may be any. -/
inductive Interleaved (p : α → Bool) : List α → List α → Prop where
  | nil : Interleaved p [] []
  | left {a : α} {as bs : List α} : p a = false → Interleaved p as bs → Interleaved p (a :: as) bs
  | right {b : α} {as bs : List α} : p b = false → Interleaved p as bs → Interleaved p as (b :: bs)
  | both {a : α} {as bs : List α} : p a = true → Interleaved p as bs →
    Interleaved p (a :: as) (a :: bs)

theorem Interleaved.of_filter_eq (h : as.filter p = bs.filter p) : Interleaved p as bs := by
  induction as generalizing bs with
  | nil =>
    induction bs with
    | nil => exact .nil
    | cons b bs ih =>
      cases hb : p b with
      | true =>
        rw [List.filter_cons_of_pos hb] at h
        cases h
      | false =>
        rw [List.filter_cons_of_neg (by rw [hb]; simp)] at h
        exact .right hb (ih h)
  | cons a as ih =>
    cases ha : p a with
    | false =>
      rw [List.filter_cons_of_neg (by rw [ha]; simp)] at h
      exact .left ha (ih h)
    | true =>
      rw [List.filter_cons_of_pos ha] at h
      -- The first selected item of the other list is behind those that are not.
      induction bs with
      | nil => cases h
      | cons b bs ihbs =>
        cases hb : p b with
        | true =>
          rw [List.filter_cons_of_pos hb] at h
          obtain ⟨hab, hrest⟩ := List.cons.inj h
          subst hab
          exact .both ha (ih hrest)
        | false =>
          rw [List.filter_cons_of_neg (by rw [hb]; simp)] at h
          exact .right hb (ihbs h)

/-- There is a selected item at the position. -/
def SelectedAt (p : α → Bool) (as : List α) (i : Nat) : Prop := ∃ a, as[i]? = some a ∧ p a = true

/-- The number of selected items before a position. -/
def before (p : α → Bool) (as : List α) (i : Nat) : Nat := (as.take i).countP p

theorem before_mono {i j : Nat} (h : i ≤ j) : before p as i ≤ before p as j :=
  (List.take_prefix_take_left h).sublist.countP_le

theorem before_lt {i j : Nat} (hi : SelectedAt p as i) (h : i < j) :
    before p as i < before p as j := by
  obtain ⟨a, ha, hp⟩ := hi
  have hnext : before p as (i + 1) = before p as i + 1 := by
    rw [before, List.take_add_one, ha, List.countP_append]
    simp [before, hp]
  have hle : before p as (i + 1) ≤ before p as j := before_mono h
  omega

theorem before_le_iff {i j : Nat} (hj : SelectedAt p as j) :
    before p as i ≤ before p as j ↔ i ≤ j := by
  refine ⟨fun h => ?_, before_mono⟩
  by_contra hlt
  have := before_lt hj (Nat.lt_of_not_le hlt)
  omega

/-- The positions of one selected item in two lists. -/
structure SamePlace (p : α → Bool) (as bs : List α) (i j : Nat) : Prop where
  left : SelectedAt p as i
  right : SelectedAt p bs j
  eq : before p as i = before p bs j

/-- Items are in the same order in both lists. -/
theorem SamePlace.le_iff_le {i j i' j' : Nat} (h : SamePlace p as bs i j)
    (h' : SamePlace p as bs i' j') : i ≤ i' ↔ j ≤ j' := by
  rw [← before_le_iff h'.left, ← before_le_iff h'.right, h.eq, h'.eq]

/-- The next item of two lists that have the same number of selected items so far. -/
theorem SamePlace.next {pre pre' : List α} {a : α} (ha : p a = true)
    (h : pre.countP p = pre'.countP p) :
    SamePlace p (pre ++ a :: as) (pre' ++ a :: bs) pre.length pre'.length := by
  refine ⟨⟨a, by simp, ha⟩, ⟨a, by simp, ha⟩, ?_⟩
  simp [before, h]

end Lists

/-! ### Enumerations -/

/-- Whether a statement declares an enumeration. -/
abbrev declaresEnum : Json → Bool := Node.isA "CreateEnumStmt"

/-- Whether it does not. -/
abbrev isOther (s : Json) : Bool := !declaresEnum s

namespace EnumRegistry

/-- **The enumerations do not depend on the statements between them.** -/
theorem declaredFrom_interleaved {statements statements' : List Json}
    (h : Interleaved declaresEnum statements statements') (enums : EnumRegistry)
    (position position' : Nat) :
    Traced.Agrees False Eq (declaredFrom enums position statements)
      (declaredFrom enums position' statements') := by
  induction h generalizing enums position position' with
  | nil => exact agrees_pure rfl
  | left hstatement _ ih =>
    rw [declaredFrom, if_neg (ne_true_of_eq_false hstatement)]
    exact ih _ _ _
  | right hstatement _ ih =>
    rw [declaredFrom.eq_2 _ _ _ _, if_neg (ne_true_of_eq_false hstatement)]
    exact ih _ _ _
  | both hstatement _ ih =>
    rw [declaredFrom, if_pos hstatement, declaredFrom, if_pos hstatement]
    exact (agrees_liftM (EnumType.ofStatement_agrees enums False.elim (.refl _))).bind_eq fun _ =>
      (agrees_record False.elim).bind_eq fun _ => ih _ _ _

/-- A statement that was taken for a declaration has a body. -/
theorem body_of_declared {enums enums' : EnumRegistry} {position : Nat} {statements : List Json}
    (h : (declaredFrom enums position statements).outcome = .ok enums') :
    ∀ s ∈ statements, declaresEnum s = true → ∃ body, Node.body s = .ok body := by
  induction statements generalizing enums position with
  | nil => exact fun s hs => absurd hs (List.not_mem_nil)
  | cons statement statements ih =>
    rw [declaredFrom] at h
    split at h
    · obtain ⟨e, he, h⟩ := Traced.bind_eq_ok_iff.1 h
      obtain ⟨_, _, h⟩ := Traced.bind_eq_ok_iff.1 h
      obtain ⟨body, hbody, _⟩ := Read.bind_eq_ok_iff.1 he
      exact List.forall_mem_cons.2 ⟨fun _ => ⟨body, hbody⟩, ih h⟩
    · rename_i hstatement
      exact List.forall_mem_cons.2 ⟨fun hs => absurd hs hstatement, ih h⟩

end EnumRegistry

/-! ### Statements -/

/-- A declaration of an enumeration is passed over. -/
theorem readStatement_of_declaresEnum (settings : Settings) (enums : EnumRegistry) (m : ModelDraft)
    (position : Nat) {statement : Json} (h : declaresEnum statement = true)
    (hbody : ∃ body, Node.body statement = .ok body) :
    (readStatement settings enums m position statement).outcome = .ok m := by
  obtain ⟨body, hbody⟩ := hbody
  have hkind : Node.kind statement = .ok "CreateEnumStmt" := by
    unfold declaresEnum Node.isA at h
    split at h
    · rw [← of_decide_eq_true h]
      rfl
    · cases h
  rw [readStatement, Node.unwrap, hkind, hbody]
  rfl

/-- **What is read of the other statements does not depend on the declarations between them**, but
for their positions. The statements are those behind `pre` and `pre'`. -/
theorem readStatements_interleaved (settings : Settings) (enums : EnumRegistry)
    {all all' pre pre' statements statements' : List Json} {m m' : ModelDraft}
    (h : Interleaved isOther statements statements')
    (hall : all = pre ++ statements) (hall' : all' = pre' ++ statements')
    (hpre : pre.countP isOther = pre'.countP isOther)
    {position position' : Nat} (hposition : position = pre.length)
    (hposition' : position' = pre'.length)
    (hbody : ∀ s ∈ statements, declaresEnum s = true → ∃ body, Node.body s = .ok body)
    (hbody' : ∀ s ∈ statements', declaresEnum s = true → ∃ body, Node.body s = .ok body)
    (hm : m.Alike (SamePlace isOther all all') m') :
    Traced.Agrees False (ModelDraft.Alike (SamePlace isOther all all'))
      (readStatements settings enums m position statements)
      (readStatements settings enums m' position' statements') := by
  induction h generalizing m m' pre pre' position position' with
  | nil => exact agrees_pure hm
  | @left s ss ss' hs _ ih =>
    obtain ⟨hfirst, hrest⟩ := List.forall_mem_cons.1 hbody
    have henum : declaresEnum s = true := by simpa using hs
    refine .bind_left (readStatement_of_declaresEnum settings enums m _ henum (hfirst henum)) ?_
    exact ih (hall.trans (List.append_cons ..)) hall' (by simp [hpre, henum])
      (by simp [hposition]) hposition' hrest hbody' hm
  | @right s ss ss' hs _ ih =>
    obtain ⟨hfirst, hrest⟩ := List.forall_mem_cons.1 hbody'
    have henum : declaresEnum s = true := by simpa using hs
    refine .bind_right (readStatement_of_declaresEnum settings enums m' _ henum (hfirst henum)) ?_
    exact ih hall (hall'.trans (List.append_cons ..)) (by simp [hpre, henum]) hposition
      (by simp [hposition']) hbody hrest hm
  | @both s ss ss' hs _ ih =>
    have hplace : SamePlace isOther all all' position position' := by
      subst hall hall' hposition hposition'
      exact .next hs hpre
    refine (readStatement_agrees settings enums hm hplace False.elim (.refl s)).bind
      fun m m' hm => ?_
    exact ih (hall.trans (List.append_cons ..)) (hall'.trans (List.append_cons ..)) (by simp [hpre])
      (by simp [hposition]) (by simp [hposition']) (List.forall_mem_cons.1 hbody).2
      (List.forall_mem_cons.1 hbody').2 hm

/-! ### Conversions -/

namespace Convert

variable {t t' : Json} {statements statements' : List Json}

theorem build_agrees_of_interleaved (settings : Settings)
    (h : ParseTree.statements t = .ok statements) (h' : ParseTree.statements t' = .ok statements')
    (henums : statements.filter declaresEnum = statements'.filter declaresEnum)
    (hothers : statements.filter isOther = statements'.filter isOther) :
    Traced.Agrees False (Model.AgreesAs False (SamePlace isOther statements statements'))
      (Model.build settings t) (Model.build settings t') := by
  have hstatements : Read.Agrees False (fun ss ss' => ss = statements ∧ ss' = statements')
      (ParseTree.statements t) (ParseTree.statements t') := by
    rw [h, h']
    exact .ok ⟨rfl, rfl⟩
  refine Model.build_agrees hstatements fun ss ss' hss => ?_
  obtain ⟨rfl, rfl⟩ := hss
  refine (EnumRegistry.declaredFrom_interleaved (.of_filter_eq henums) [] 0 0).and_ok.imp
    fun enums enums' hdeclared => ?_
  obtain ⟨rfl, hok, hok'⟩ := hdeclared
  exact ⟨rfl, readStatements_interleaved settings enums (.of_filter_eq hothers)
    (List.nil_append ss).symm (List.nil_append ss').symm rfl rfl rfl
    (EnumRegistry.body_of_declared hok) (EnumRegistry.body_of_declared hok')
    ⟨.nil, .nil, .nil⟩⟩

/-- **Enumerations may be declared anywhere**: both conversions succeed for one order of the
statements if they do for the other, and then with the same output. -/
theorem enums_anywhere (settings : Settings) (h : ParseTree.statements t = .ok statements)
    (h' : ParseTree.statements t' = .ok statements')
    (henums : statements.filter declaresEnum = statements'.filter declaresEnum)
    (hothers : statements.filter isOther = statements'.filter isOther) :
    (toDdl settings t).outcome.toOption.map Converted.output =
        (toDdl settings t').outcome.toOption.map Converted.output ∧
      (toDocument settings t).outcome.toOption.map Converted.output =
        (toDocument settings t').outcome.toOption.map Converted.output := by
  have hmodels := build_agrees_of_interleaved settings h h' henums hothers
  have horder : ∀ p q p' q', SamePlace isOther statements statements' p q →
      SamePlace isOther statements statements' p' q' → (p ≤ p' ↔ q ≤ q') :=
    fun _ _ _ _ hplace hplace' => hplace.le_iff_le hplace'
  exact ⟨(toDdl_agrees hmodels horder).outcome.toOption_eq fun _ _ hc => hc.output,
    (toDocument_agrees hmodels).outcome.toOption_eq fun _ _ hc => hc.output⟩

end Convert

namespace Sample

/-- A table with a column of an enumeration, and an index on it. -/
def orders : List Json :=
  [table "orders" [column "state" "state" []], index "orders_state" "orders" ["state"]]

end Sample

/-- An enumeration may be declared behind the table that uses it. -/
theorem Convert.orders_same :
    ((toDdl {} (.arr (Sample.enum "state" ["open"] :: Sample.orders))).outcome.toOption.map
        Converted.output).isSome ∧
      (toDdl {} (.arr (Sample.enum "state" ["open"] :: Sample.orders))).outcome.toOption.map
          Converted.output =
        (toDdl {} (.arr (Sample.orders ++ [Sample.enum "state" ["open"]]))).outcome.toOption.map
          Converted.output ∧
      (toDocument {} (.arr (Sample.enum "state" ["open"] :: Sample.orders))).outcome.toOption.map
          Converted.output =
        (toDocument {} (.arr (Sample.orders ++ [Sample.enum "state" ["open"]]))).outcome.toOption.map
          Converted.output :=
  ⟨by decide +kernel, enums_anywhere {} rfl rfl rfl rfl⟩

end StrictDdl
