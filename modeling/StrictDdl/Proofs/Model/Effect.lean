import StrictDdl.Proofs.Fault
import StrictDdl.Proofs.Model.Build
import StrictDdl.Proofs.ParseTree

/-! What a constraint does to the checks and references of a table.

A check comes to stand with a column or with the table, or it is lost; a reference is
written into the one place for it that a column has, or it is marked; no other constraint
touches either (`Effect`). This holds wherever the constraint stands
(`columnConstraint_effect`, `tableConstraint_effect`). -/
namespace StrictDdl

/-! ### Checks and references -/

/-- What checks and references see of a column. -/
structure ColumnParts where
  name : Json
  entity : String
  checks : List CheckConstraint
  foreignKey : Option ForeignKey.Draft

/-- What checks and references see of a table. -/
structure TableParts where
  name : Json
  columns : List ColumnParts
  checks : List CheckConstraint

def ColumnDraft.parts (c : ColumnDraft) : ColumnParts := ⟨c.name, c.entity, c.checks, c.foreignKey⟩

def TableDraft.parts (t : TableDraft) : TableParts :=
  ⟨t.name, t.columns.map ColumnDraft.parts, t.checks⟩

/-- The table with one more column. -/
def TableDraft.add (t : TableDraft) (c : ColumnDraft) : TableDraft :=
  { t with columns := t.columns ++ [c] }

theorem TableDraft.parts_add (t : TableDraft) (c : ColumnDraft) :
    (t.add c).parts = ⟨t.name, t.parts.columns ++ [c.parts], t.checks⟩ := by
  simp [parts, add]

/-- The check is that of the constraint. -/
structure CheckConstraint.Of (k : ConstraintSource) (check : CheckConstraint) : Prop where
  node : check.node = k.condition
  expression : k.condition.text .postgres = .ok check.expression
  name : k.body.get "conname" = check.name.elim .null .str

/-- The expression has no text in the dialect. -/
def Expr.Unwritable (e : Expr) (dialect : Dialect) : Prop :=
  ∃ kind dialect', e.text dialect = .error (.unrenderable kind dialect')

/-- The marker says that the constraint was lost. It is bound to the column that the constraint
stands behind, or to the table. -/
structure Marker.Loses (construct : String) (k : ConstraintSource) (t : TableParts) (m : Marker) :
    Prop where
  kind : m.kind = .unsupportedConstruct
  construct : m.construct = construct
  entity : match k.behind with
    | some column => ∃ c ∈ t.columns, c.name = column ∧ c.entity = m.entity
    | none => t.name = .str m.entity

/-- What a constraint can do to the checks and references of a table, and what is marked of
references. -/
inductive Effect (k : ConstraintSource) (t : TableParts) (markers : List Marker) :
    TableParts → Prop where
  | none : k.isCheck = false → k.isReference = false → Effect k t markers t
  | columnCheck (before : List ColumnParts) (c : ColumnParts) (after : List ColumnParts)
    (check : CheckConstraint) : k.isCheck = true → check.Of k → t.columns = before ++ c :: after →
    Effect k t markers
      { t with columns := before ++ { c with checks := c.checks ++ [check] } :: after }
  | tableCheck (check : CheckConstraint) : k.isCheck = true → check.Of k →
    Effect k t markers { t with checks := t.checks ++ [check] }
  | lostCheck : k.isCheck = true → k.condition.Unwritable .postgres → Effect k t markers t
  | reference (before : List ColumnParts) (c : ColumnParts) (after : List ColumnParts)
    (draft : ForeignKey.Draft) : k.isReference = true → k.reference? = some draft →
    (∀ s, c.name = .str s ↔ k.referencing = .str s) → t.columns = before ++ c :: after →
    Effect k t markers { t with columns := before ++ { c with foreignKey := some draft } :: after }
  | markedReference (marker : Marker) : k.isReference = true → k.reference? = .none →
    marker ∈ markers → marker.Loses (LetterCase.upper ForeignKey.composite) k t →
    Effect k t markers t

/-- More may be marked. -/
theorem Effect.mono {k : ConstraintSource} {t t' : TableParts} {markers markers' : List Marker}
    (h : Effect k t markers t') (hsub : ∀ m ∈ markers, m ∈ markers') : Effect k t markers' t' := by
  cases h with
  | none hcheck hreference => exact .none hcheck hreference
  | columnCheck before c after check hk hof hcolumns =>
    exact .columnCheck before c after check hk hof hcolumns
  | tableCheck check hk hof => exact .tableCheck check hk hof
  | lostCheck hk hunwritable => exact .lostCheck hk hunwritable
  | reference before c after draft hk hdraft hname hcolumns =>
    exact .reference before c after draft hk hdraft hname hcolumns
  | markedReference marker hk hnone hmem hloses =>
    exact .markedReference marker hk hnone (hsub marker hmem) hloses

/-! ### Kinds -/

/-- A kind with one code only. -/
theorem lookup_eq_some_iff_of_unique {κ : Type} {codes : List (String × κ)} {code : String} {kind : κ}
    (hall : ∀ entry ∈ codes, entry.2 = kind → entry.1 = code)
    (hcode : codes.lookup code = some kind) (s : String) :
    codes.lookup s = some kind ↔ s = code := by
  constructor
  · intro h
    obtain ⟨before, after, hcodes, _⟩ := List.lookup_eq_some_iff.1 h
    exact hall (s, kind) (by simp [hcodes]) rfl
  · rintro rfl
    exact hcode

theorem constraintKind?_eq_ok {κ : Type} {codes : List (String × κ)} {code : Json} {kind? : Option κ}
    (h : constraintKind? codes code = .ok kind?) : kind? = code.str?.bind fun s => codes.lookup s := by
  unfold constraintKind? at h
  obtain ⟨key, hkey, h⟩ := Read.bind_eq_ok_iff.1 h
  cases h
  unfold Json.key at hkey
  split at hkey
  · cases hkey
    rfl
  · cases hkey

/-- Which kind a constraint is of shows in its code. -/
theorem ConstraintSource.isA_iff {κ : Type} {codes : List (String × κ)} {code : String} {kind : κ}
    {kind? : Option κ} {k : ConstraintSource}
    (h : constraintKind? codes (k.body.get "contype") = .ok kind?)
    (hall : ∀ entry ∈ codes, entry.2 = kind → entry.1 = code)
    (hcode : codes.lookup code = some kind) : k.isA code = true ↔ kind? = some kind := by
  rw [constraintKind?_eq_ok h, isA, decide_eq_true_iff]
  cases (k.body.get "contype").str? with
  | none => simp
  | some s => simp [lookup_eq_some_iff_of_unique hall hcode]

namespace ColumnConstraintKind

variable {k : ConstraintSource} {kind? : Option ColumnConstraintKind}

theorem isCheck_iff (h : constraintKind? codes (k.body.get "contype") = .ok kind?) :
    k.isCheck = true ↔ kind? = some .check :=
  ConstraintSource.isA_iff h (by decide) rfl

theorem isReference_iff (h : constraintKind? codes (k.body.get "contype") = .ok kind?) :
    k.isReference = true ↔ kind? = some .reference :=
  ConstraintSource.isA_iff h (by decide) rfl

end ColumnConstraintKind

namespace TableConstraintKind

variable {k : ConstraintSource} {kind? : Option TableConstraintKind}

theorem isCheck_iff (h : constraintKind? codes (k.body.get "contype") = .ok kind?) :
    k.isCheck = true ↔ kind? = some .check :=
  ConstraintSource.isA_iff h (by decide) rfl

theorem isReference_iff (h : constraintKind? codes (k.body.get "contype") = .ok kind?) :
    k.isReference = true ↔ kind? = some .reference :=
  ConstraintSource.isA_iff h (by decide) rfl

end TableConstraintKind

/-! ### Checks -/

theorem Lenient.optional_text_eq_ok {j : Json} {s? : Option String}
    (h : optional text j = .ok s?) : j = s?.elim .null .str := by
  unfold optional at h
  split at h
  · cases h
    rfl
  · obtain ⟨s, hs, rfl⟩ := map_eq_ok_iff.1 h
    exact text_eq_ok_iff.1 hs

section Checks

open Traced

variable {place : Place} {entity : Json} {markers : List Marker} {k : ConstraintSource}

theorem CheckDraft.ofConstraint_eq_ok {draft : CheckDraft}
    (h : CheckDraft.ofConstraint k.body entity = .ok draft) :
    draft.node = k.condition ∧ k.condition.text .postgres = .ok draft.expression ∧
      draft.name = k.body.get "conname" := by
  unfold ofConstraint at h
  obtain ⟨source, hsource, h⟩ := Read.bind_eq_ok_iff.1 h
  obtain ⟨expression, hexpression, h⟩ := Read.bind_eq_ok_iff.1 h
  obtain ⟨columns, _, h⟩ := Read.bind_eq_ok_iff.1 h
  cases h
  obtain ⟨_, ⟨⟩, rfl⟩ := Node.require_eq_ok hsource
  exact ⟨rfl, hexpression, rfl⟩

/-- Only the condition itself can be without a text. -/
theorem CheckDraft.text_of_ofConstraint {kind : String} {dialect : Dialect}
    (h : CheckDraft.ofConstraint k.body entity = .error (.unrenderable kind dialect)) :
    k.condition.text .postgres = .error (.unrenderable kind dialect) := by
  unfold ofConstraint at h
  cases hsource : Node.require (.obj k.body) "raw_expr" entity with
  | error fault =>
    have hplain := Node.require_plain _ _ _ fault hsource
    rw [hsource] at h
    cases h
    cases hplain
  | ok source =>
    rw [hsource] at h
    obtain ⟨_, ⟨⟩, rfl⟩ := Node.require_eq_ok hsource
    change (k.condition.text .postgres >>= _) = _ at h
    cases htext : k.condition.text .postgres with
    | error fault =>
      rw [htext] at h
      cases h
      rfl
    | ok text =>
      rw [htext] at h
      change (ParseTree.columns (k.body.get "raw_expr") >>= _) = _ at h
      cases hcolumns : ParseTree.columns (k.body.get "raw_expr") with
      | error fault =>
        have hplain := ParseTree.columns_plain _ fault hcolumns
        rw [hcolumns] at h
        cases h
        cases hplain
      | ok columns =>
        rw [hcolumns] at h
        cases h

theorem CheckDraft.finish_of {draft : CheckDraft} {classified : Bool} {check : CheckConstraint}
    (hdraft : CheckDraft.ofConstraint k.body entity = .ok draft)
    (h : draft.finish classified = .ok check) : check.Of k := by
  obtain ⟨hnode, hexpression, hname⟩ := ofConstraint_eq_ok hdraft
  unfold finish at h
  obtain ⟨g, columns, hg, _, rfl⟩ := Lenient.and_eq_ok_iff.1 (Lenient.toRead_eq_ok_iff.1 h)
  obtain ⟨name, hfound, rfl⟩ := Lenient.map_eq_ok_iff.1 hg
  refine ⟨hnode, hexpression, ?_⟩
  rw [← hname]
  exact Lenient.optional_text_eq_ok (Lenient.under_eq_ok_iff.1 hfound)

theorem CheckDraft.onColumn_of {settings : Settings} {draft : CheckDraft} {c c' : ColumnDraft}
    (hdraft : CheckDraft.ofConstraint k.body entity = .ok draft)
    (h : draft.onColumn settings c = .ok c') : ∃ check : CheckConstraint, check.Of k ∧
      c'.parts = { c.parts with checks := c.parts.checks ++ [check] } := by
  obtain ⟨rules, check, _, hcheck, rfl⟩ := draft.onColumn_eq_ok h
  exact ⟨check, finish_of hdraft hcheck, rfl⟩

theorem CheckDraft.onTable_of {draft : CheckDraft} {t t' : TableDraft}
    (hdraft : CheckDraft.ofConstraint k.body entity = .ok draft)
    (h : draft.onTable t = .ok t') : ∃ check : CheckConstraint, check.Of k ∧
      t' = { t with checks := t.checks ++ [check] } := by
  unfold onTable at h
  obtain ⟨check, hcheck, h⟩ := Read.bind_eq_ok_iff.1 h
  cases h
  exact ⟨check, finish_of hdraft hcheck, rfl⟩

/-- A check is read, or it has no text and is marked. -/
theorem readCheck_sets {draft? : Option CheckDraft}
    (h : (readCheck place entity k.body).Sets draft? markers) :
    match draft? with
    | some draft => CheckDraft.ofConstraint k.body entity = .ok draft ∧ markers = []
    | none => ∃ kind dialect name,
      k.condition.text .postgres = .error (.unrenderable kind dialect) ∧ entity = .str name ∧
        markers = [.unsupported "CHECK" name (Fault.unrenderable kind dialect).message] := by
  unfold readCheck at h
  split at h
  · rename_i draft hdraft
    obtain ⟨rfl, rfl⟩ := pure_sets_iff.1 h
    exact ⟨hdraft, rfl⟩
  · rename_i kind dialect hfault
    obtain ⟨name, hname, h⟩ := liftM_bind_sets_iff.1 h
    obtain ⟨_, _, _, hmark, hrest, rfl⟩ := bind_sets_iff.1 h
    obtain ⟨rfl, rfl⟩ := pure_sets_iff.1 hrest
    obtain rfl := hmark.2
    exact ⟨kind, dialect, name, CheckDraft.text_of_ofConstraint hfault,
      Marker.readEntity_eq_ok hname, rfl⟩
  · cases h.1

end Checks

/-! ### Constraints of a column -/

theorem ConstraintSource.reference?_eq {k : ConstraintSource} (entity : Json) :
    k.reference? = (ForeignKey.Draft.ofConstraint k.body entity).toOption :=
  ForeignKey.Draft.toOption_ofConstraint ..

section Column

open Traced

variable {settings : Settings} {place : Place} {t t' : TableDraft} {c c' : ColumnDraft}
  {markers : List Marker}

/-- A constraint that is neither a check nor a reference leaves both alone. -/
theorem applyColumnConstraint_parts {body : Members} {kind : ColumnConstraintKind}
    (hcheck : kind ≠ .check) (hreference : kind ≠ .reference)
    (h : (applyColumnConstraint settings place t c body kind).outcome = .ok (t', c')) :
    t' = t ∧ c'.parts = c.parts := by
  cases kind with
  | check => exact absurd rfl hcheck
  | reference => exact absurd rfl hreference
  | primaryKey =>
    rw [applyColumnConstraint] at h
    split at h
    · cases h
    · cases h
      exact ⟨rfl, rfl⟩
  | default =>
    obtain ⟨value, _, h⟩ := bind_eq_ok_iff.1 h
    cases h
    exact ⟨rfl, rfl⟩
  | nullable | required | unique | identity | generated | deferrable | immediate =>
    cases h
    exact ⟨rfl, rfl⟩

theorem TableDraft.exists_mem_add (t : TableDraft) (c : ColumnDraft) :
    ∃ p ∈ (t.add c).parts.columns, p.name = c.name ∧ p.entity = c.entity := by
  refine ⟨c.parts, ?_, rfl, rfl⟩
  rw [parts_add]
  exact List.mem_append_right _ (List.mem_singleton.2 rfl)

/-- A check behind a column comes to stand with it or with the table, or is lost. -/
theorem applyColumnConstraint_check {k : ConstraintSource} (hk : k.isCheck = true)
    (h : (applyColumnConstraint settings place t c k.body .check).Sets (t', c') markers) :
    Effect k (t.add c).parts markers (t'.add c').parts := by
  obtain ⟨draft?, first, rest, hread, h, rfl⟩ := bind_sets_iff.1 h
  have hdraft := readCheck_sets hread
  cases draft? with
  | none =>
    obtain ⟨heq, rfl⟩ := pure_sets_iff.1 h
    cases heq
    obtain ⟨kind, dialect, _, htext, _⟩ := hdraft
    exact .lostCheck hk ⟨kind, dialect, htext⟩
  | some draft =>
    replace hdraft := hdraft.1
    dsimp only at h
    split at h
    · obtain ⟨changed, hchanged, h⟩ := liftM_bind_sets_iff.1 h
      obtain ⟨heq, rfl⟩ := pure_sets_iff.1 h
      cases heq
      obtain ⟨check, hof, hparts⟩ := CheckDraft.onColumn_of hdraft hchanged
      rw [TableDraft.parts_add, TableDraft.parts_add, hparts]
      exact .columnCheck t.parts.columns c.parts [] check hk hof rfl
    · obtain ⟨changed, hchanged, h⟩ := liftM_bind_sets_iff.1 h
      obtain ⟨heq, rfl⟩ := pure_sets_iff.1 h
      cases heq
      obtain ⟨check, hof, rfl⟩ := CheckDraft.onTable_of hdraft hchanged
      exact .tableCheck check hk hof

/-- A reference behind a column is written into it or marked. -/
theorem applyColumnConstraint_reference {k : ConstraintSource} (hbehind : k.behind = some c.name)
    (hk : k.isReference = true)
    (h : (applyColumnConstraint settings place t c k.body .reference).Sets (t', c') markers) :
    Effect k (t.add c).parts markers (t'.add c').parts := by
  rw [applyColumnConstraint] at h
  split at h
  · rename_i draft hdraft
    obtain ⟨heq, rfl⟩ := pure_sets_iff.1 h
    cases heq
    have hdraft? : k.reference? = some draft := by
      rw [k.reference?_eq (.str c.entity), hdraft]
      rfl
    rw [TableDraft.parts_add, TableDraft.parts_add]
    refine .reference t.parts.columns c.parts [] draft hk hdraft? (fun s => ?_) rfl
    rw [ConstraintSource.referencing, hbehind]
    rfl
  · rename_i construct detail hfault
    obtain ⟨detail', hcomposite⟩ := ForeignKey.Draft.ofConstraint_fails _ _ _ hfault rfl
    cases hcomposite
    obtain ⟨_, _, _, hmark, hrest, rfl⟩ := bind_sets_iff.1 h
    obtain ⟨heq, rfl⟩ := pure_sets_iff.1 hrest
    cases heq
    obtain rfl := hmark.2
    have hnone : k.reference? = none := by
      rw [k.reference?_eq (.str c.entity), hfault]
      rfl
    refine .markedReference _ hk hnone (List.mem_singleton.2 rfl) ⟨rfl, rfl, ?_⟩
    rw [hbehind]
    exact t.exists_mem_add c
  · cases h.1

theorem applyColumnConstraint_effect {k : ConstraintSource} {kind : ColumnConstraintKind}
    (hbehind : k.behind = some c.name) (hcheck : k.isCheck = true ↔ kind = .check)
    (hreference : k.isReference = true ↔ kind = .reference)
    (h : (applyColumnConstraint settings place t c k.body kind).Sets (t', c') markers) :
    Effect k (t.add c).parts markers (t'.add c').parts := by
  by_cases hkind : kind = .check
  · subst hkind
    exact applyColumnConstraint_check (hcheck.2 rfl) h
  · by_cases hkind' : kind = .reference
    · subst hkind'
      exact applyColumnConstraint_reference hbehind (hreference.2 rfl) h
    · obtain ⟨rfl, hparts⟩ := applyColumnConstraint_parts hkind hkind' h.1
      rw [TableDraft.parts_add, TableDraft.parts_add, hparts]
      exact .none (Bool.eq_false_iff.2 (hcheck.not.2 hkind))
        (Bool.eq_false_iff.2 (hreference.not.2 hkind'))

/-- What a constraint behind a column does to checks and references. -/
theorem columnConstraint_effect {constraint : Json}
    (h : (columnConstraint settings (t, c) constraint).Sets (t', c') markers) :
    Effect ⟨some c.name, Node.content constraint⟩ (t.add c).parts markers (t'.add c').parts := by
  obtain ⟨kind?, first, hkind, hfirst, hread⟩ := columnConstraint_sets h
  have hcheck := ColumnConstraintKind.isCheck_iff (k := ⟨some c.name, Node.content constraint⟩) hkind
  have hreference :=
    ColumnConstraintKind.isReference_iff (k := ⟨some c.name, Node.content constraint⟩) hkind
  cases kind? with
  | some kind =>
    rw [Option.some.injEq] at hcheck hreference
    exact (applyColumnConstraint_effect rfl hcheck hreference hread).mono hfirst.sublist.subset
  | none =>
    obtain ⟨rfl, rfl, _⟩ := hread
    exact .none (by simpa using hcheck) (by simpa using hreference)

end Column

/-! ### Constraints of a table -/

section Table

open Traced

variable {settings : Settings} {place : Place} {t t' : TableDraft} {markers : List Marker}

/-- A change of a column by its name, as checks and references see it. -/
theorem TableDraft.modifyColumn_parts {name : Json} {change : ColumnDraft → ColumnDraft}
    (h : t.modifyColumn name change = .ok t') : ∃ before c after, t.column? name = some c ∧
      t.parts.columns = before ++ c.parts :: after ∧
      t'.parts = { t.parts with columns := before ++ (change c).parts :: after } := by
  obtain ⟨before, c, after, hc, hcolumns, rfl⟩ := modifyColumn_eq_ok h
  refine ⟨before.map ColumnDraft.parts, c, after.map ColumnDraft.parts, hc, ?_, ?_⟩
  · simp only [parts, hcolumns, List.map_append, List.map_cons]
  · simp only [parts, List.map_append, List.map_cons]

/-- A change that checks and references do not see. -/
theorem TableDraft.modifyColumn_parts_eq {name : Json} {change : ColumnDraft → ColumnDraft}
    (h : t.modifyColumn name change = .ok t') (hchange : ∀ c, (change c).parts = c.parts) :
    t'.parts = t.parts := by
  obtain ⟨before, c, after, _, hcolumns, hparts⟩ := modifyColumn_parts h
  rw [hparts, hchange, ← hcolumns]

theorem applyKey_parts {isPrimary : Bool} {keys : List Json} {name : Json}
    {change : ColumnDraft → ColumnDraft} (h : applyKey t isPrimary keys name change = .ok t')
    (hchange : ∀ c, (change c).parts = c.parts) : t'.parts = t.parts := by
  unfold applyKey at h
  split at h
  · exact TableDraft.modifyColumn_parts_eq h hchange
  · obtain ⟨_, _, h⟩ := Read.bind_eq_ok_iff.1 h
    obtain ⟨_, _, h⟩ := Read.bind_eq_ok_iff.1 h
    cases h
    rfl

/-- A constraint that is neither a check nor a reference leaves both alone. -/
theorem applyTableConstraint_parts {body : Members} {kind : TableConstraintKind}
    (hcheck : kind ≠ .check) (hreference : kind ≠ .reference)
    (h : (applyTableConstraint settings place t body kind).outcome = .ok t') :
    t'.parts = t.parts := by
  cases kind with
  | check => exact absurd rfl hcheck
  | reference => exact absurd rfl hreference
  | primaryKey =>
    obtain ⟨keys, _, h⟩ := bind_eq_ok_iff.1 h
    split at h
    · cases h
    · exact applyKey_parts h fun _ => rfl
  | unique =>
    obtain ⟨keys, _, h⟩ := bind_eq_ok_iff.1 h
    exact applyKey_parts h fun _ => rfl
  | exclusion =>
    obtain ⟨_, _, h⟩ := bind_eq_ok_iff.1 h
    cases h
    rfl

theorem Json.eq_str_of_same_str {j : Json} {s : String} (h : (Json.str s).same j = true) :
    j = .str s := by
  cases j with
  | str s' =>
    have hs : s = s' := by simpa [same] using h
    rw [hs]
  | _ => simp [same] at h

/-- The first column that a name finds has the name, as far as either is a text. -/
theorem TableDraft.name_eq_str_iff_of_column? {name : Json} {c : ColumnDraft}
    (h : t.column? name = some c) (s : String) : c.name = .str s ↔ name = .str s := by
  have hsame : c.name.same name = true := by
    simpa using List.find?_some h
  constructor
  · intro hc
    rw [hc] at hsame
    exact Json.eq_str_of_same_str hsame
  · intro hname
    rw [hname] at hsame
    exact Json.eq_str_of_same hsame

/-- A check among the columns comes to stand with one of them or with the table, or is lost. -/
theorem applyTableConstraint_check {k : ConstraintSource} (hk : k.isCheck = true)
    (h : (applyTableConstraint settings place t k.body .check).Sets t' markers) :
    Effect k t.parts markers t'.parts := by
  obtain ⟨draft?, first, rest, hread, h, rfl⟩ := bind_sets_iff.1 h
  have hdraft := readCheck_sets hread
  cases draft? with
  | none =>
    obtain ⟨rfl, rfl⟩ := pure_sets_iff.1 h
    obtain ⟨kind, dialect, _, htext, _⟩ := hdraft
    exact .lostCheck hk ⟨kind, dialect, htext⟩
  | some draft =>
    replace hdraft := hdraft.1
    have htable : ∀ {t'}, draft.onTable t = .ok t' →
        Effect k t.parts (first ++ rest) t'.parts := by
      intro t' h
      obtain ⟨check, hof, rfl⟩ := CheckDraft.onTable_of hdraft h
      exact .tableCheck check hk hof
    dsimp only at h
    split at h
    · split at h
      · rename_i only _ column hcolumn
        obtain ⟨changed, hchanged, h⟩ := liftM_bind_sets_iff.1 h
        obtain ⟨check, hof, hparts⟩ := CheckDraft.onColumn_of hdraft hchanged
        obtain ⟨before, c, after, hc, hcolumns, heq⟩ := TableDraft.modifyColumn_parts h.1
        rw [hcolumn] at hc
        cases hc
        rw [heq, hparts]
        exact .columnCheck before column.parts after check hk hof hcolumns
      · exact htable h.1
    · exact htable h.1

/-- A reference among the columns is written into the one that it is of, or marked. -/
theorem applyTableConstraint_reference {k : ConstraintSource} (hbehind : k.behind = none)
    (hk : k.isReference = true)
    (h : (applyTableConstraint settings place t k.body .reference).Sets t' markers) :
    Effect k t.parts markers t'.parts := by
  obtain ⟨attrs, hattrs, h⟩ := liftM_bind_sets_iff.1 h
  obtain ⟨_, ⟨⟩, heq⟩ := Node.require_eq_ok hattrs
  subst heq
  obtain ⟨sources, hsources, h⟩ := liftM_bind_sets_iff.1 h
  dsimp only at h
  split at h
  · rename_i draft hdraft
    have hdraft? : k.reference? = some draft := by
      rw [k.reference?_eq t.name, hdraft]
      rfl
    split at h
    · cases h.1
    · rename_i source others
      obtain ⟨before, c, after, hc, hcolumns, heq⟩ := TableDraft.modifyColumn_parts h.1
      have hreferencing : k.referencing = source := by
        rw [ConstraintSource.referencing, hbehind]
        dsimp only
        rw [hsources]
        rfl
      rw [heq]
      refine .reference before c.parts after draft hk hdraft? (fun s => ?_) hcolumns
      rw [hreferencing]
      exact TableDraft.name_eq_str_iff_of_column? hc s
  · rename_i construct detail hfault
    have hnone : k.reference? = none := by
      rw [k.reference?_eq t.name, hfault]
      rfl
    obtain ⟨names, _, h⟩ := liftM_bind_sets_iff.1 h
    obtain ⟨entity, hentity, h⟩ := liftM_bind_sets_iff.1 h
    obtain ⟨_, _, _, hmark, hrest, rfl⟩ := bind_sets_iff.1 h
    obtain ⟨rfl, rfl⟩ := pure_sets_iff.1 hrest
    obtain rfl := hmark.2
    refine .markedReference _ hk hnone (List.mem_singleton.2 rfl) ⟨rfl, rfl, ?_⟩
    rw [hbehind]
    exact Marker.readEntity_eq_ok hentity
  · cases h.1

theorem applyTableConstraint_effect {k : ConstraintSource} {kind : TableConstraintKind}
    (hbehind : k.behind = none) (hcheck : k.isCheck = true ↔ kind = .check)
    (hreference : k.isReference = true ↔ kind = .reference)
    (h : (applyTableConstraint settings place t k.body kind).Sets t' markers) :
    Effect k t.parts markers t'.parts := by
  by_cases hkind : kind = .check
  · subst hkind
    exact applyTableConstraint_check (hcheck.2 rfl) h
  · by_cases hkind' : kind = .reference
    · subst hkind'
      exact applyTableConstraint_reference hbehind (hreference.2 rfl) h
    · rw [applyTableConstraint_parts hkind hkind' h.1]
      exact .none (Bool.eq_false_iff.2 (hcheck.not.2 hkind))
        (Bool.eq_false_iff.2 (hreference.not.2 hkind'))

/-- What a constraint among the columns of a table does to checks and references. -/
theorem tableConstraint_effect {body : Members}
    (h : (tableConstraint settings t body).Sets t' markers) :
    Effect ⟨none, body⟩ t.parts markers t'.parts := by
  obtain ⟨kind?, first, hkind, hfirst, hread⟩ := tableConstraint_sets h
  have hcheck := TableConstraintKind.isCheck_iff (k := ⟨none, body⟩) hkind
  have hreference := TableConstraintKind.isReference_iff (k := ⟨none, body⟩) hkind
  cases kind? with
  | some kind =>
    rw [Option.some.injEq] at hcheck hreference
    exact (applyTableConstraint_effect rfl hcheck hreference hread).mono hfirst.sublist.subset
  | none =>
    obtain ⟨rfl, _⟩ := hread
    exact .none (by simpa using hcheck) (by simpa using hreference)

end Table

end StrictDdl
