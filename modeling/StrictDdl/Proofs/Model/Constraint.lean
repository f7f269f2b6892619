import StrictDdl.Proofs.Fault
import StrictDdl.Proofs.ParseTree

/-! What a constraint can do to a table and its columns.

A constraint changes one column, adds a key or a check to the table, or does nothing that
the model keeps (`ColumnDraft.Change`, `TableDraft.Change`). Whatever holds of drafts is
shown from these changes and not from the kinds of constraints. Markers are looked at apart
from that: those for checks are followed one by one, since each of them is a check that is lost,
and of the others it is enough to know what they are not for. -/
namespace StrictDdl

/-! ### Changes -/

/-- What a constraint can do to a column: set a flag, a default or a reference, or add a
check. -/
inductive ColumnDraft.Change (settings : Settings) (c c' : ColumnDraft) : Prop where
  | attributes : c'.name = c.name → c'.target = c.target → c'.rules = c.rules →
    c'.checks = c.checks → Change settings c c'
  | check (draft : CheckDraft) : draft.onColumn settings c = .ok c' → Change settings c c'

/-- A column becomes part of the primary key only if the table has none. -/
def TableDraft.AdmitsKey (t : TableDraft) (c c' : ColumnDraft) : Prop :=
  c'.isPrimaryKey → c.isPrimaryKey ∨ t.hasPrimaryKey = false

/-- Both drafts are of one table. -/
def TableDraft.Same (t t' : TableDraft) : Prop := t'.name = t.name ∧ t'.position = t.position

/-- The tables differ in their checks and markers at most. -/
def TableDraft.SameColumns (t t' : TableDraft) : Prop :=
  t'.name = t.name ∧ t'.position = t.position ∧ t'.columns = t.columns ∧
    t'.constraints = t.constraints

/-- What a constraint can do to a table. -/
inductive TableDraft.Change (settings : Settings) (t t' : TableDraft) : Prop where
  | checks : t.SameColumns t' → Change settings t t'
  | column (before : List ColumnDraft) (c c' : ColumnDraft) (after : List ColumnDraft) :
    t.columns = before ++ c :: after → t' = { t with columns := before ++ c' :: after } →
    c.Change settings c' → t.AdmitsKey c c' → Change settings t t'
  | key (k : TableConstraint) : t' = { t with constraints := t.constraints ++ [k] } →
    (k.isPrimary → t.hasPrimaryKey = false) →
    (∀ name ∈ k.columns, (t.column? (.str name)).isSome) → Change settings t t'

theorem CheckDraft.onColumn_eq_ok {settings : Settings} {draft : CheckDraft} {c c' : ColumnDraft}
    (h : draft.onColumn settings c = .ok c') : ∃ rules check, draft.rules? settings c = .ok rules ∧
      draft.finish rules.isSome = .ok check ∧ c' = { c with
        checks := c.checks ++ [check]
        rules := match rules with
          | some r => c.rules.merge (.ofValues r)
          | none => c.rules } := by
  unfold onColumn at h
  obtain ⟨rules, hrules, h⟩ := Read.bind_eq_ok_iff.1 h
  obtain ⟨check, hcheck, h⟩ := Read.bind_eq_ok_iff.1 h
  cases h
  exact ⟨rules, check, hrules, hcheck, rfl⟩

namespace ColumnDraft.Change

variable {settings : Settings} {c c' : ColumnDraft}

theorem refl (settings : Settings) (c : ColumnDraft) : c.Change settings c :=
  .attributes rfl rfl rfl rfl

theorem name_eq (h : c.Change settings c') : c'.name = c.name := by
  cases h with
  | attributes hname => exact hname
  | check draft h =>
    obtain ⟨rules, check, _, _, rfl⟩ := draft.onColumn_eq_ok h
    rfl

end ColumnDraft.Change

namespace TableDraft

theorem SameColumns.refl (t : TableDraft) : t.SameColumns t := ⟨rfl, rfl, rfl, rfl⟩

theorem SameColumns.trans {t t' t'' : TableDraft} (h : t.SameColumns t') (h' : t'.SameColumns t'') :
    t.SameColumns t'' := by
  obtain ⟨hname, hposition, hcolumns, hconstraints⟩ := h
  obtain ⟨hname', hposition', hcolumns', hconstraints'⟩ := h'
  exact ⟨hname'.trans hname, hposition'.trans hposition, hcolumns'.trans hcolumns,
    hconstraints'.trans hconstraints⟩

theorem SameColumns.same {t t' : TableDraft} (h : t.SameColumns t') : t.Same t' := ⟨h.1, h.2.1⟩

theorem Same.refl (t : TableDraft) : t.Same t := ⟨rfl, rfl⟩

theorem Same.trans {t t' t'' : TableDraft} (h : t.Same t') (h' : t'.Same t'') : t.Same t'' :=
  ⟨h'.1.trans h.1, h'.2.trans h.2⟩

theorem Change.same {settings : Settings} {t t' : TableDraft} (h : t.Change settings t') :
    t.Same t' := by
  cases h with
  | checks hsame => exact hsame.same
  | column before c c' after _ heq =>
    subst heq
    exact .refl t
  | key k heq =>
    subst heq
    exact .refl t

theorem SameColumns.hasPrimaryKey_eq {t t' : TableDraft} (h : t.SameColumns t') :
    t'.hasPrimaryKey = t.hasPrimaryKey := by
  obtain ⟨_, _, hcolumns, hconstraints⟩ := h
  rw [hasPrimaryKey, hasPrimaryKey, hcolumns, hconstraints]

/-- Changing a column by its name changes the first one that has it. -/
theorem modifyIn_eq {name : Json} (change : ColumnDraft → ColumnDraft)
    {columns : List ColumnDraft} {c : ColumnDraft} (h : columns.find? (fun c => c.name.same name) = some c) :
    ∃ before after, columns = before ++ c :: after ∧
      modifyIn name change columns = before ++ change c :: after := by
  induction columns with
  | nil => cases h
  | cons a columns ih =>
    rw [List.find?_cons] at h
    cases hsame : a.name.same name with
    | true =>
      simp only [hsame] at h
      cases h
      exact ⟨[], columns, rfl, by simp [modifyIn, hsame]⟩
    | false =>
      simp only [hsame] at h
      obtain ⟨before, after, hcolumns, hmodify⟩ := ih h
      refine ⟨a :: before, after, by rw [hcolumns]; rfl, ?_⟩
      rw [modifyIn, hsame, hmodify]
      rfl

/-- Changing a column by its name changes one column that the name finds. -/
theorem modifyColumn_eq_ok {t t' : TableDraft} {name : Json} {change : ColumnDraft → ColumnDraft}
    (h : t.modifyColumn name change = .ok t') : ∃ before c after, t.column? name = some c ∧
      t.columns = before ++ c :: after ∧ t' = { t with columns := before ++ change c :: after } := by
  unfold modifyColumn at h
  split at h
  · rename_i c hc
    cases h
    obtain ⟨before, after, hcolumns, hmodify⟩ := modifyIn_eq change hc
    exact ⟨before, c, after, hc, hcolumns, by rw [hmodify]⟩
  · cases h

/-- A change of a column by its name is a change of the table. -/
theorem modifyColumn_change {settings : Settings} {t t' : TableDraft} {name : Json}
    {change : ColumnDraft → ColumnDraft} (h : t.modifyColumn name change = .ok t')
    (hchange : ∀ c, t.column? name = some c → c.Change settings (change c))
    (hkey : ∀ c, t.column? name = some c → t.AdmitsKey c (change c)) :
    t.Change settings t' := by
  obtain ⟨before, c, after, hc, hcolumns, heq⟩ := modifyColumn_eq_ok h
  exact .column before c (change c) after hcolumns heq (hchange c hc) (hkey c hc)

end TableDraft

/-! ### Markers for checks -/

namespace Marker

/-- Whether the marker is for a check. -/
def isCheck (m : Marker) : Bool := m.kind = .unsupportedConstruct && m.construct = "CHECK"

/-- There are these markers among more, and the others are for no checks. -/
structure Padded (inner markers : List Marker) : Prop where
  sublist : inner.Sublist markers
  checks : markers.filter isCheck = inner.filter isCheck

variable {inner markers more : List Marker}

theorem Padded.refl (markers : List Marker) : Padded markers markers := ⟨.refl _, rfl⟩

theorem Padded.trans (h : Padded inner markers) (h' : Padded markers more) : Padded inner more :=
  ⟨h.sublist.trans h'.sublist, h'.checks.trans h.checks⟩

theorem padded_before (inner : List Marker) (h : more.filter isCheck = []) :
    Padded inner (inner ++ more) :=
  ⟨List.sublist_append_left .., by rw [List.filter_append, h, List.append_nil]⟩

theorem padded_behind (inner : List Marker) (h : more.filter isCheck = []) :
    Padded inner (more ++ inner) :=
  ⟨List.sublist_append_right .., by rw [List.filter_append, h, List.nil_append]⟩

/-- A marker that is read from a text names what the text says. -/
theorem readEntity_eq_ok {j : Json} {s : String} (h : readEntity j = .ok s) : j = .str s :=
  Lenient.text_eq_ok_iff.1 (Lenient.under_eq_ok_iff.1 (Lenient.toRead_eq_ok_iff.1 h))

end Marker

section Deferrable

open Traced

variable {q : Marker → Bool} {body : Members}

theorem markDeferrable_avoids (hq : ∀ entity message, q (.unsupported "DEFERRABLE" entity message) = false)
    (place : Place) (entity : Json) : (markDeferrable place entity).Avoids q :=
  (avoids_liftM _).bind fun _ => avoids_mark (hq ..)

theorem checkDeferrable_avoids (hq : ∀ entity message, q (.unsupported "DEFERRABLE" entity message) = false)
    (place : Place) (entity : Json) : (checkDeferrable place entity body).Avoids q :=
  .ite (markDeferrable_avoids hq place entity) (avoids_pure _)

/-- What is said of a constraint that may be deferred is for no check. -/
theorem padded_of_checkDeferrable {place : Place} {entity : Json} {markers : List Marker}
    (h : (checkDeferrable place entity body).Sets () markers) (inner : List Marker) :
    Marker.Padded inner (inner ++ markers) :=
  Marker.padded_before inner (h.filter_eq_nil (checkDeferrable_avoids (fun _ _ => rfl) ..))

end Deferrable

/-! ### Constraints of a column -/

section Column

variable {settings : Settings} {place : Place} {table table' : TableDraft}
  {column column' : ColumnDraft}

theorem CheckDraft.onTable_sameColumns {draft : CheckDraft} (h : draft.onTable table = .ok table') :
    table.SameColumns table' := by
  unfold onTable at h
  obtain ⟨check, _, h⟩ := Read.bind_eq_ok_iff.1 h
  cases h
  exact .refl _

theorem applyColumnConstraint_spec {body : Members} {kind : ColumnConstraintKind}
    (h : (applyColumnConstraint settings place table column body kind).outcome =
      .ok (table', column')) :
    table.SameColumns table' ∧ column.Change settings column' ∧ table.AdmitsKey column column' := by
  cases kind with
  | nullable =>
    cases h
    exact ⟨.refl _, .attributes rfl rfl rfl rfl, .inl⟩
  | required =>
    cases h
    exact ⟨.refl _, .attributes rfl rfl rfl rfl, .inl⟩
  | primaryKey =>
    rw [applyColumnConstraint] at h
    split at h
    · cases h
    · rename_i hkey
      cases h
      refine ⟨.refl _, .attributes rfl rfl rfl rfl, fun _ => ?_⟩
      cases hcolumn : column.isPrimaryKey with
      | true => exact .inl rfl
      | false => exact .inr (by simpa [hcolumn] using hkey)
  | unique =>
    cases h
    exact ⟨.refl _, .attributes rfl rfl rfl rfl, .inl⟩
  | identity =>
    cases h
    exact ⟨.refl _, .attributes rfl rfl rfl rfl, .inl⟩
  | default =>
    obtain ⟨value, _, h⟩ := Traced.bind_eq_ok_iff.1 h
    cases h
    exact ⟨.refl _, .attributes rfl rfl rfl rfl, .inl⟩
  | check =>
    obtain ⟨draft, _, h⟩ := Traced.bind_eq_ok_iff.1 h
    cases draft with
    | none =>
      cases h
      exact ⟨.refl _, .refl _ _, .inl⟩
    | some draft =>
      dsimp only at h
      split at h
      · obtain ⟨changed, hchanged, h⟩ := Traced.bind_eq_ok_iff.1 h
        cases h
        obtain ⟨rules, check, _, _, heq⟩ := draft.onColumn_eq_ok hchanged
        exact ⟨.refl _, .check draft hchanged, by rw [heq]; exact .inl⟩
      · obtain ⟨changed, hchanged, h⟩ := Traced.bind_eq_ok_iff.1 h
        cases h
        exact ⟨draft.onTable_sameColumns hchanged, .refl _ _, .inl⟩
  | reference =>
    rw [applyColumnConstraint] at h
    split at h
    · cases h
      exact ⟨.refl _, .attributes rfl rfl rfl rfl, .inl⟩
    · cases h
      exact ⟨.refl _, .refl _ _, .inl⟩
    · cases h
  | generated =>
    cases h
    exact ⟨.refl _, .refl _ _, .inl⟩
  | deferrable =>
    cases h
    exact ⟨.refl _, .refl _ _, .inl⟩
  | immediate =>
    cases h
    exact ⟨.refl _, .refl _ _, .inl⟩

/-- A constraint behind a column is applied if it is of a known kind, and marked otherwise. -/
theorem columnConstraint_sets {constraint : Json} {markers : List Marker}
    (h : (columnConstraint settings (table, column) constraint).Sets (table', column') markers) :
    ∃ kind? first, constraintKind? ColumnConstraintKind.codes
        ((Node.content constraint).get "contype") = .ok kind? ∧ Marker.Padded first markers ∧
      match kind? with
      | some kind => (applyColumnConstraint settings ⟨table.name, column.name⟩ table column
          (Node.content constraint) kind).Sets (table', column') first
      | none => table' = table ∧ column' = column ∧
        ∃ label, constraintLabel ((Node.content constraint).get "contype") = .ok label ∧
          first = [.unsupported label column.entity ""] := by
  unfold columnConstraint at h
  obtain ⟨body, hbody, h⟩ := Traced.liftM_bind_sets_iff.1 h
  obtain ⟨code, hcode, h⟩ := Traced.liftM_bind_sets_iff.1 h
  obtain ⟨kind?, hkind, h⟩ := Traced.liftM_bind_sets_iff.1 h
  obtain rfl := Node.content_of_bodyAs hbody
  obtain ⟨_, ⟨⟩, rfl⟩ := Node.require_eq_ok hcode
  refine ⟨kind?, ?_⟩
  cases kind? with
  | some kind =>
    obtain ⟨draft, first, rest, hdraft, hend, rfl⟩ := Traced.bind_sets_iff.1 h
    obtain ⟨_, deferred, _, hdeferred, hrest, rfl⟩ := Traced.bind_sets_iff.1 hend
    obtain ⟨rfl, rfl⟩ := Traced.pure_sets_iff.1 hrest
    rw [List.append_nil]
    exact ⟨first, hkind, padded_of_checkDeferrable hdeferred first, hdraft⟩
  | none =>
    obtain ⟨label, hlabel, h⟩ := Traced.liftM_bind_sets_iff.1 h
    obtain ⟨_, first, _, hmark, hend, rfl⟩ := Traced.bind_sets_iff.1 h
    rw [pure_bind] at hend
    obtain ⟨_, deferred, _, hdeferred, hrest, rfl⟩ := Traced.bind_sets_iff.1 hend
    obtain ⟨heq, rfl⟩ := Traced.pure_sets_iff.1 hrest
    cases heq
    rw [List.append_nil]
    exact ⟨first, hkind, padded_of_checkDeferrable hdeferred first, rfl, rfl, label, hlabel,
      hmark.2.symm⟩

/-- What a constraint behind a column can do. -/
theorem columnConstraint_spec {constraint : Json}
    (h : (columnConstraint settings (table, column) constraint).outcome = .ok (table', column')) :
    table.SameColumns table' ∧ column.Change settings column' ∧ table.AdmitsKey column column' := by
  obtain ⟨kind?, _, _, _, hread⟩ := columnConstraint_sets ⟨h, rfl⟩
  cases kind? with
  | some kind => exact applyColumnConstraint_spec hread.1
  | none =>
    obtain ⟨rfl, rfl, _⟩ := hread
    exact ⟨.refl _, .refl _ _, .inl⟩

end Column

/-! ### Constraints of a table -/

section Table

variable {settings : Settings} {place : Place} {table table' : TableDraft}

theorem TableConstraint.ofParts_eq_ok {isPrimary : Bool} {columns : List Json} {name : Json}
    {k : TableConstraint} (h : ofParts isPrimary columns name = .ok k) :
    k.isPrimary = isPrimary ∧ columns = k.columns.map .str := by
  unfold ofParts at h
  obtain ⟨f, _, hf, _, rfl⟩ := Lenient.and_eq_ok_iff.1 (Lenient.toRead_eq_ok_iff.1 h)
  obtain ⟨_, hcolumns, rfl⟩ := Lenient.map_eq_ok_iff.1 hf
  exact ⟨rfl, Lenient.eq_map_str_of_each_text (Lenient.under_eq_ok_iff.1 hcolumns)⟩

theorem TableDraft.column?_of_requireColumn {name : Json} (h : table.requireColumn name = .ok ()) :
    (table.column? name).isSome := by
  unfold requireColumn at h
  obtain ⟨_, h, _⟩ := Read.bind_eq_ok_iff.1 h
  obtain ⟨before, c, after, hc, _, _⟩ := TableDraft.modifyColumn_eq_ok h
  rw [hc]
  rfl

theorem applyKey_spec {isPrimary : Bool} {keys : List Json} {name : Json}
    {change : ColumnDraft → ColumnDraft} (h : applyKey table isPrimary keys name change = .ok table')
    (hchange : ∀ c, ColumnDraft.Change settings c (change c))
    (hprimary : isPrimary → table.hasPrimaryKey = false)
    (hkey : ∀ c, table.AdmitsKey c (change c)) : table.Change settings table' := by
  unfold applyKey at h
  split at h
  · exact TableDraft.modifyColumn_change h (fun c _ => hchange c) (fun c _ => hkey c)
  · obtain ⟨_, hall, h⟩ := Read.bind_eq_ok_iff.1 h
    obtain ⟨k, hk, h⟩ := Read.bind_eq_ok_iff.1 h
    cases h
    obtain ⟨hisPrimary, hcolumns⟩ := TableConstraint.ofParts_eq_ok hk
    refine .key k rfl (by rwa [hisPrimary]) fun name hname => ?_
    refine TableDraft.column?_of_requireColumn (Read.forM_eq_ok_iff.1 hall (.str name) ?_)
    rw [hcolumns]
    exact List.mem_map_of_mem hname

theorem applyTableConstraint_spec {body : Members} {kind : TableConstraintKind}
    (h : (applyTableConstraint settings place table body kind).outcome = .ok table') :
    table.Change settings table' := by
  cases kind with
  | primaryKey =>
    obtain ⟨keys, _, h⟩ := Traced.bind_eq_ok_iff.1 h
    split at h
    · cases h
    · rename_i hnone
      have hnone : table.hasPrimaryKey = false := by simpa using hnone
      exact applyKey_spec h (fun _ => .attributes rfl rfl rfl rfl) (fun _ => hnone)
        (fun _ _ => .inr hnone)
  | unique =>
    obtain ⟨keys, _, h⟩ := Traced.bind_eq_ok_iff.1 h
    exact applyKey_spec h (fun _ => .attributes rfl rfl rfl rfl) (by simp) (fun _ => .inl)
  | reference =>
    obtain ⟨attrs, _, h⟩ := Traced.bind_eq_ok_iff.1 h
    obtain ⟨sources, _, h⟩ := Traced.bind_eq_ok_iff.1 h
    dsimp only at h
    split at h
    · split at h
      · cases h
      · exact TableDraft.modifyColumn_change h (fun _ _ => .attributes rfl rfl rfl rfl)
          (fun _ _ => .inl)
    · obtain ⟨_, _, h⟩ := Traced.bind_eq_ok_iff.1 h
      obtain ⟨_, _, h⟩ := Traced.bind_eq_ok_iff.1 h
      cases h
      exact .checks (.refl _)
    · cases h
  | check =>
    obtain ⟨draft, _, h⟩ := Traced.bind_eq_ok_iff.1 h
    cases draft with
    | none =>
      cases h
      exact .checks (.refl _)
    | some draft =>
      dsimp only at h
      split at h
      · rename_i only _
        split at h
        · rename_i column hcolumn
          obtain ⟨changed, hchanged, h⟩ := Traced.bind_eq_ok_iff.1 h
          obtain ⟨rules, check, _, _, heq⟩ := draft.onColumn_eq_ok hchanged
          refine TableDraft.modifyColumn_change h (fun c hc => ?_) (fun c hc => ?_)
          · rw [hcolumn] at hc
            cases hc
            exact .check draft hchanged
          · rw [hcolumn] at hc
            cases hc
            rw [heq]
            exact .inl
        · exact .checks (draft.onTable_sameColumns h)
      · exact .checks (draft.onTable_sameColumns h)
  | exclusion =>
    obtain ⟨_, _, h⟩ := Traced.bind_eq_ok_iff.1 h
    cases h
    exact .checks (.refl _)

/-- A constraint among the columns is applied if it is of a known kind, and marked otherwise. -/
theorem tableConstraint_sets {body : Members} {markers : List Marker}
    (h : (tableConstraint settings table body).Sets table' markers) :
    ∃ kind? first, constraintKind? TableConstraintKind.codes (body.get "contype") = .ok kind? ∧
      Marker.Padded first markers ∧
      match kind? with
      | some kind =>
        (applyTableConstraint settings ⟨table.name, .null⟩ table body kind).Sets table' first
      | none => table' = table ∧ ∃ label entity,
        constraintLabel (body.get "contype") = .ok label ∧ table.name = .str entity ∧
          first = [.unsupported label entity (constraintMessage (body.get "conname"))] := by
  unfold tableConstraint at h
  obtain ⟨code, hcode, h⟩ := Traced.liftM_bind_sets_iff.1 h
  obtain ⟨kind?, hkind, h⟩ := Traced.liftM_bind_sets_iff.1 h
  obtain ⟨_, ⟨⟩, rfl⟩ := Node.require_eq_ok hcode
  refine ⟨kind?, ?_⟩
  cases kind? with
  | some kind =>
    obtain ⟨t, first, rest, ht, hend, rfl⟩ := Traced.bind_sets_iff.1 h
    obtain ⟨_, deferred, _, hdeferred, hrest, rfl⟩ := Traced.bind_sets_iff.1 hend
    obtain ⟨rfl, rfl⟩ := Traced.pure_sets_iff.1 hrest
    rw [List.append_nil]
    exact ⟨first, hkind, padded_of_checkDeferrable hdeferred first, ht⟩
  | none =>
    obtain ⟨label, hlabel, h⟩ := Traced.liftM_bind_sets_iff.1 h
    obtain ⟨entity, hentity, h⟩ := Traced.liftM_bind_sets_iff.1 h
    obtain ⟨_, first, _, hmark, hend, rfl⟩ := Traced.bind_sets_iff.1 h
    rw [pure_bind] at hend
    obtain ⟨_, deferred, _, hdeferred, hrest, rfl⟩ := Traced.bind_sets_iff.1 hend
    obtain ⟨rfl, rfl⟩ := Traced.pure_sets_iff.1 hrest
    rw [List.append_nil]
    exact ⟨first, hkind, padded_of_checkDeferrable hdeferred first, rfl, label, entity, hlabel,
      Marker.readEntity_eq_ok hentity, hmark.2.symm⟩

/-- What a constraint among the columns of a table can do. -/
theorem tableConstraint_spec {body : Members}
    (h : (tableConstraint settings table body).outcome = .ok table') :
    table.Change settings table' := by
  obtain ⟨kind?, _, _, _, hread⟩ := tableConstraint_sets ⟨h, rfl⟩
  cases kind? with
  | some kind => exact applyTableConstraint_spec hread.1
  | none =>
    obtain ⟨rfl, _⟩ := hread
    exact .checks (.refl _)

end Table

/-! ### Markers

What a constraint loses is a construct without a counterpart or one of no known shape. No
reference is followed yet, so none is found to lead nowhere; and only a constraint that is a check
is lost as one. -/

/-- Whether the marker is for a reference to nothing. -/
def Marker.isUnresolved (m : Marker) : Bool := m.kind = .unresolvedReference

section Markers

open Traced

variable {q : Marker → Bool} {settings : Settings} {table : TableDraft} {body : Members}

theorem upper_composite_ne_check : LetterCase.upper ForeignKey.composite ≠ "CHECK" := by
  decide +kernel

theorem readCheck_avoids (hq : ∀ entity message, q (.unsupported "CHECK" entity message) = false)
    (place : Place) (entity : Json) : (readCheck place entity body).Avoids q := by
  unfold readCheck
  split
  · exact avoids_pure _
  · exact (avoids_liftM _).bind fun _ => (avoids_mark (hq ..)).bind fun _ => avoids_pure _
  · exact avoids_ofRead _

theorem readDefault_avoids
    (hlost : ∀ entity message, q (.unsupported "DEFAULT" entity message) = false)
    (hmissed : ∀ construct entity message, q (.miss construct entity message) = false)
    (place : Place) (column : ColumnDraft) : (readDefault place column body).Avoids q := by
  unfold readDefault
  refine (avoids_liftM _).bind fun source => ?_
  split
  · exact (avoids_mark (hlost ..)).bind fun _ => avoids_pure _
  · exact avoids_ofRead _
  · exact avoids_pure _
  · exact .ite ((avoids_mark (hmissed ..)).bind fun _ => avoids_pure _) (avoids_pure _)

theorem applyColumnConstraint_avoids (place : Place) (column : ColumnDraft)
    (kind : ColumnConstraintKind)
    (hq : ∀ construct entity message, (construct = "CHECK" → kind = .check) →
      q (.unsupported construct entity message) = false)
    (hmissed : ∀ construct entity message, q (.miss construct entity message) = false) :
    (applyColumnConstraint settings place table column body kind).Avoids q := by
  cases kind with
  | primaryKey => exact .ite (avoids_ofRead _) (avoids_pure _)
  | default =>
    have hlost : ∀ entity message, q (.unsupported "DEFAULT" entity message) = false :=
      fun _ _ => hq _ _ _ (by decide)
    exact (readDefault_avoids hlost hmissed ..).bind fun _ => avoids_pure _
  | check =>
    refine (readCheck_avoids (fun _ _ => hq _ _ _ fun _ => rfl) ..).bind fun draft => ?_
    cases draft with
    | none => exact avoids_pure _
    | some draft =>
      exact .ite ((avoids_liftM _).bind fun _ => avoids_pure _)
        ((avoids_liftM _).bind fun _ => avoids_pure _)
  | reference =>
    rw [applyColumnConstraint]
    split
    · exact avoids_pure _
    · rename_i hfault
      obtain ⟨detail, hcomposite⟩ := ForeignKey.Draft.ofConstraint_fails _ _ _ hfault rfl
      cases hcomposite
      refine (avoids_mark (hq _ _ _ fun h => ?_)).bind fun _ => avoids_pure _
      exact absurd h upper_composite_ne_check
    · exact avoids_ofRead _
  | generated => exact (avoids_mark (hq _ _ _ (by decide))).bind fun _ => avoids_pure _
  | deferrable =>
    exact (markDeferrable_avoids (fun _ _ => hq _ _ _ (by decide)) ..).bind fun _ => avoids_pure _
  | nullable | required | unique | identity | immediate => exact avoids_pure _

theorem columnConstraint_avoids (draft : TableDraft × ColumnDraft) (constraint : Json) :
    (columnConstraint settings draft constraint).Avoids Marker.isUnresolved := by
  unfold columnConstraint
  refine (avoids_liftM _).bind fun body => (avoids_liftM _).bind fun code =>
    (avoids_liftM _).bind fun kind? => ?_
  cases kind? with
  | some kind =>
    exact (applyColumnConstraint_avoids _ _ _ (fun _ _ _ _ => rfl) fun _ _ _ => rfl).bind fun _ =>
      (checkDeferrable_avoids (fun _ _ => rfl) ..).bind fun _ => avoids_pure _
  | none =>
    exact (avoids_liftM _).bind fun label => (avoids_mark rfl).bind fun _ =>
      (avoids_pure _).bind fun _ =>
        (checkDeferrable_avoids (fun _ _ => rfl) ..).bind fun _ => avoids_pure _

theorem applyTableConstraint_avoids (place : Place) (kind : TableConstraintKind)
    (hq : ∀ construct entity message, (construct = "CHECK" → kind = .check) →
      q (.unsupported construct entity message) = false) :
    (applyTableConstraint settings place table body kind).Avoids q := by
  cases kind with
  | primaryKey =>
    exact (avoids_liftM _).bind fun keys => .ite (avoids_ofRead _) (avoids_liftM _)
  | unique => exact (avoids_liftM _).bind fun keys => avoids_liftM _
  | reference =>
    refine (avoids_liftM _).bind fun attrs => (avoids_liftM _).bind fun sources => ?_
    split
    · split
      · exact avoids_ofRead _
      · exact avoids_liftM _
    · refine (avoids_liftM _).bind fun _ => (avoids_liftM _).bind fun _ =>
        (avoids_mark (hq _ _ _ fun h => ?_)).bind fun _ => avoids_pure _
      exact absurd h upper_composite_ne_check
    · exact avoids_ofRead _
  | check =>
    refine (readCheck_avoids (fun _ _ => hq _ _ _ fun _ => rfl) ..).bind fun draft => ?_
    cases draft with
    | none => exact avoids_pure _
    | some draft =>
      dsimp only
      split
      · split
        · exact (avoids_liftM _).bind fun _ => avoids_liftM _
        · exact avoids_liftM _
      · exact avoids_liftM _
  | exclusion =>
    exact (avoids_liftM _).bind fun _ =>
      (avoids_mark (hq _ _ _ (by decide))).bind fun _ => avoids_pure _

theorem tableConstraint_avoids :
    (tableConstraint settings table body).Avoids Marker.isUnresolved := by
  unfold tableConstraint
  refine (avoids_liftM _).bind fun code => (avoids_liftM _).bind fun kind? => ?_
  cases kind? with
  | some kind =>
    exact (applyTableConstraint_avoids _ _ fun _ _ _ _ => rfl).bind fun _ =>
      (checkDeferrable_avoids (fun _ _ => rfl) ..).bind fun _ => avoids_pure _
  | none =>
    exact (avoids_liftM _).bind fun label => (avoids_liftM _).bind fun entity =>
      (avoids_mark rfl).bind fun _ => (avoids_pure _).bind fun _ =>
        (checkDeferrable_avoids (fun _ _ => rfl) ..).bind fun _ => avoids_pure _

end Markers

end StrictDdl
