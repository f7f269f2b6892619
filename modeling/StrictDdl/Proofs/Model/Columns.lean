import StrictDdl.Proofs.Model.Tables

/-! Where the columns of a model come from.

Name, type and default of a column are decided by its element alone. The type is that of the type
name, and the default is what the defaults behind the column leave, one after another. A constraint
among the columns, a later statement or a reference changes none of them (`TableDraft.cores`), so
every column of a model is that of its element (`Model.build_columns`). -/
namespace StrictDdl

/-! ### Defaults -/

namespace ConstraintSource

def isDefault (k : ConstraintSource) : Bool := k.isA "CONSTR_DEFAULT"

/-- The defaults behind a column. -/
def defaultsOf (element : Json) : List ConstraintSource := (ofColumn element).filter isDefault

/-- The default of a column after one more; one that cannot be written leaves the old one. -/
def defaultAfter (old : Option Default) (k : ConstraintSource) : Option Default :=
  match Default.classify k.condition with
  | .ok d => some d
  | .error _ => old

/-- The markers of a default: one that cannot be written has one, and so has a call of a function
that is looked up in vain. -/
def defaultMarkers (entity : String) (k : ConstraintSource) : List Marker :=
  match Default.classify k.condition with
  | .ok (.literal _) => []
  | .ok (.computed c) =>
    if c.kind = .call && !c.isKnown then
      [.miss ("DEFAULT " ++ c.function.getD "" ++ "()") entity
        ("no SQLite equivalent for " ++ c.expression ++ "; passed through unchanged")]
    else []
  | .error fault => [.unsupported "DEFAULT" entity fault.message]

end ConstraintSource

theorem readDefault_sets {place : Place} {c : ColumnDraft} {k : ConstraintSource}
    {d : Option Default} {markers : List Marker} (h : (readDefault place c k.body).Sets d markers) :
    d = k.defaultAfter c.default ∧ markers = k.defaultMarkers c.entity := by
  unfold readDefault at h
  obtain ⟨source, hsource, h⟩ := Traced.liftM_bind_sets_iff.1 h
  obtain ⟨_, ⟨⟩, rfl⟩ := Node.require_eq_ok hsource
  rw [ConstraintSource.defaultAfter, ConstraintSource.defaultMarkers, ConstraintSource.condition]
  split at h
  · rename_i hfault
    obtain ⟨_, _, _, hmark, hrest, rfl⟩ := Traced.bind_sets_iff.1 h
    obtain ⟨rfl, rfl⟩ := Traced.pure_sets_iff.1 hrest
    obtain rfl := hmark.2
    rw [hfault]
    exact ⟨rfl, rfl⟩
  · cases h.1
  · rename_i hliteral
    obtain ⟨rfl, rfl⟩ := Traced.pure_sets_iff.1 h
    rw [hliteral]
    exact ⟨rfl, rfl⟩
  · rename_i computed hcomputed
    rw [hcomputed]
    dsimp only
    split at h
    · rename_i hmiss
      obtain ⟨_, _, _, hmark, hrest, rfl⟩ := Traced.bind_sets_iff.1 h
      obtain ⟨rfl, rfl⟩ := Traced.pure_sets_iff.1 hrest
      obtain rfl := hmark.2
      rw [if_pos hmiss]
      exact ⟨rfl, rfl⟩
    · rename_i hknown
      obtain ⟨rfl, rfl⟩ := Traced.pure_sets_iff.1 h
      rw [if_neg hknown]
      exact ⟨rfl, rfl⟩

/-! ### Cores -/

/-- The part of a column that its element decides alone. -/
structure ColumnCore where
  name : Json
  entity : String
  target : Target
  default : Option Default

def ColumnDraft.core (c : ColumnDraft) : ColumnCore := ⟨c.name, c.entity, c.target, c.default⟩

def TableDraft.cores (t : TableDraft) : List ColumnCore := t.columns.map ColumnDraft.core

namespace ColumnCore

/-- The core of a column after one more constraint behind it. -/
def constrain (c : ColumnCore) (k : ConstraintSource) : ColumnCore :=
  if k.isDefault then { c with default := k.defaultAfter c.default } else c

@[simp] theorem constrain_entity (c : ColumnCore) (k : ConstraintSource) :
    (c.constrain k).entity = c.entity := by
  rw [constrain]
  split <;> rfl

/-- Constraints behind a column reach its default at most. -/
theorem foldl_constrain (c : ColumnCore) (ks : List ConstraintSource) :
    ks.foldl constrain c = { c with
      default := (ks.filter ConstraintSource.isDefault).foldl
        ConstraintSource.defaultAfter c.default } := by
  induction ks generalizing c with
  | nil => rfl
  | cons k ks ih =>
    rw [List.foldl_cons, ih, List.filter_cons, constrain]
    split <;> rfl

end ColumnCore

section Behind

open Traced

variable {settings : Settings} {place : Place} {t t' : TableDraft} {c c' : ColumnDraft}
  {markers : List Marker}

theorem CheckDraft.onColumn_core {draft : CheckDraft} (h : draft.onColumn settings c = .ok c') :
    c'.core = c.core := by
  obtain ⟨_, _, _, _, rfl⟩ := draft.onColumn_eq_ok h
  rfl

/-- A constraint that is no default leaves the core alone. -/
theorem applyColumnConstraint_core_eq {body : Members} {kind : ColumnConstraintKind}
    (hkind : kind ≠ .default)
    (h : (applyColumnConstraint settings place t c body kind).outcome = .ok (t', c')) :
    c'.core = c.core := by
  cases kind with
  | default => exact absurd rfl hkind
  | primaryKey =>
    rw [applyColumnConstraint] at h
    split at h
    · cases h
    · cases h
      rfl
  | check =>
    obtain ⟨draft?, _, h⟩ := bind_eq_ok_iff.1 h
    cases draft? with
    | none =>
      cases h
      rfl
    | some draft =>
      dsimp only at h
      split at h
      · obtain ⟨changed, hchanged, h⟩ := bind_eq_ok_iff.1 h
        cases h
        exact CheckDraft.onColumn_core hchanged
      · obtain ⟨_, _, h⟩ := bind_eq_ok_iff.1 h
        cases h
        rfl
  | reference =>
    rw [applyColumnConstraint] at h
    split at h
    · cases h
      rfl
    · cases h
      rfl
    · cases h
  | nullable | required | unique | identity | generated | deferrable | immediate =>
    cases h
    rfl

theorem applyColumnConstraint_core {k : ConstraintSource} {kind : ColumnConstraintKind}
    (hdefault : k.isDefault = true ↔ kind = .default)
    (h : (applyColumnConstraint settings place t c k.body kind).Sets (t', c') markers) :
    c'.core = c.core.constrain k ∧
      (k.isDefault = true → k.defaultMarkers c.entity ⊆ markers) := by
  by_cases hkind : kind = .default
  · subst hkind
    obtain ⟨d, first, rest, hread, hrest, rfl⟩ := bind_sets_iff.1 h
    obtain ⟨heq, rfl⟩ := pure_sets_iff.1 hrest
    cases heq
    obtain ⟨rfl, rfl⟩ := readDefault_sets hread
    rw [ColumnCore.constrain, if_pos (hdefault.2 rfl)]
    exact ⟨rfl, fun _ => List.subset_append_left ..⟩
  · have hother : ¬ k.isDefault = true := fun hk => hkind (hdefault.1 hk)
    rw [ColumnCore.constrain, if_neg hother]
    exact ⟨applyColumnConstraint_core_eq hkind h.1, fun hk => absurd hk hother⟩

/-- What a constraint behind a column does to its core. -/
theorem columnConstraint_core {constraint : Json} {k : ConstraintSource}
    (hk : k.body = Node.content constraint)
    (h : (columnConstraint settings (t, c) constraint).Sets (t', c') markers) :
    c'.core = c.core.constrain k ∧
      (k.isDefault = true → k.defaultMarkers c.entity ⊆ markers) := by
  obtain ⟨kind?, first, hkind, hfirst, hread⟩ := columnConstraint_sets h
  rw [← hk] at hkind hread
  have hdefault : k.isDefault = true ↔ kind? = some .default :=
    ConstraintSource.isA_iff hkind (by decide) rfl
  cases kind? with
  | some kind =>
    rw [Option.some.injEq] at hdefault
    obtain ⟨hcore, hmarkers⟩ := applyColumnConstraint_core hdefault hread
    exact ⟨hcore, fun hk => List.Subset.trans (hmarkers hk) hfirst.sublist.subset⟩
  | none =>
    obtain ⟨rfl, rfl, _⟩ := hread
    have hother : ¬ k.isDefault = true := by simpa using hdefault
    rw [ColumnCore.constrain, if_neg hother]
    exact ⟨rfl, fun hk => absurd hk hother⟩

/-- What all constraints behind a column do to its core. -/
theorem columnConstraints_core {constraints : List Json} (behind : Option Json)
    (h : (constraints.foldlM (columnConstraint settings) (t, c)).Sets (t', c') markers) :
    c'.core = (constraints.map fun k => ⟨behind, Node.content k⟩).foldl ColumnCore.constrain
        c.core ∧
      ∀ k ∈ constraints.map fun k => (⟨behind, Node.content k⟩ : ConstraintSource),
        k.isDefault = true → k.defaultMarkers c.entity ⊆ markers := by
  induction constraints generalizing t c markers with
  | nil =>
    obtain ⟨heq, rfl⟩ := pure_sets_iff.1 h
    cases heq
    exact ⟨rfl, by simp⟩
  | cons constraint constraints ih =>
    rw [List.foldlM_cons] at h
    obtain ⟨⟨t₁, c₁⟩, first, rest, hfirst, hrest, rfl⟩ := bind_sets_iff.1 h
    obtain ⟨hcore, hmarkers⟩ :=
      columnConstraint_core (k := ⟨behind, Node.content constraint⟩) rfl hfirst
    obtain ⟨hcores, hlater⟩ := ih hrest
    have hentity : c₁.entity = c.entity :=
      (congrArg ColumnCore.entity hcore).trans (ColumnCore.constrain_entity ..)
    rw [hcore] at hcores
    rw [hentity] at hlater
    refine ⟨hcores, ?_⟩
    rw [List.map_cons, List.forall_mem_cons]
    exact ⟨fun hk => List.subset_append_of_subset_left _ (hmarkers hk),
      fun k hk hdefault => List.subset_append_of_subset_right _ (hlater k hk hdefault)⟩

end Behind

section Among

open Traced

variable {settings : Settings} {place : Place} {t t' : TableDraft} {body : Members}

theorem TableDraft.modifyColumn_cores {name : Json} {change : ColumnDraft → ColumnDraft}
    (h : t.modifyColumn name change = .ok t')
    (hchange : ∀ c, t.column? name = some c → (change c).core = c.core) : t'.cores = t.cores := by
  obtain ⟨before, c, after, hc, hcolumns, rfl⟩ := modifyColumn_eq_ok h
  simp only [cores, hcolumns, List.map_append, List.map_cons, hchange c hc]

theorem CheckDraft.onTable_cores {draft : CheckDraft} (h : draft.onTable t = .ok t') :
    t'.cores = t.cores := by
  rw [TableDraft.cores, (CheckDraft.onTable_sameColumns h).2.2.1, TableDraft.cores]

theorem applyKey_cores {isPrimary : Bool} {keys : List Json} {name : Json}
    {change : ColumnDraft → ColumnDraft} (h : applyKey t isPrimary keys name change = .ok t')
    (hchange : ∀ c, (change c).core = c.core) : t'.cores = t.cores := by
  unfold applyKey at h
  split at h
  · exact TableDraft.modifyColumn_cores h fun c _ => hchange c
  · obtain ⟨_, _, h⟩ := Read.bind_eq_ok_iff.1 h
    obtain ⟨_, _, h⟩ := Read.bind_eq_ok_iff.1 h
    cases h
    rfl

theorem applyTableConstraint_cores {kind : TableConstraintKind}
    (h : (applyTableConstraint settings place t body kind).outcome = .ok t') :
    t'.cores = t.cores := by
  cases kind with
  | primaryKey =>
    obtain ⟨keys, _, h⟩ := bind_eq_ok_iff.1 h
    split at h
    · cases h
    · exact applyKey_cores h fun _ => rfl
  | unique =>
    obtain ⟨keys, _, h⟩ := bind_eq_ok_iff.1 h
    exact applyKey_cores h fun _ => rfl
  | reference =>
    obtain ⟨attrs, _, h⟩ := bind_eq_ok_iff.1 h
    obtain ⟨sources, _, h⟩ := bind_eq_ok_iff.1 h
    dsimp only at h
    split at h
    · split at h
      · cases h
      · exact TableDraft.modifyColumn_cores h fun _ _ => rfl
    · obtain ⟨_, _, h⟩ := bind_eq_ok_iff.1 h
      obtain ⟨_, _, h⟩ := bind_eq_ok_iff.1 h
      cases h
      rfl
    · cases h
  | check =>
    obtain ⟨draft?, _, h⟩ := bind_eq_ok_iff.1 h
    cases draft? with
    | none =>
      cases h
      rfl
    | some draft =>
      dsimp only at h
      split at h
      · split at h
        · rename_i column hcolumn
          obtain ⟨changed, hchanged, h⟩ := bind_eq_ok_iff.1 h
          refine TableDraft.modifyColumn_cores h fun c hc => ?_
          rw [hcolumn] at hc
          cases hc
          exact CheckDraft.onColumn_core hchanged
        · exact CheckDraft.onTable_cores h
      · exact CheckDraft.onTable_cores h
  | exclusion =>
    obtain ⟨_, _, h⟩ := bind_eq_ok_iff.1 h
    cases h
    rfl

/-- A constraint among the columns leaves all cores alone. -/
theorem tableConstraint_cores (h : (tableConstraint settings t body).outcome = .ok t') :
    t'.cores = t.cores := by
  obtain ⟨kind?, _, _, _, hread⟩ := tableConstraint_sets ⟨h, rfl⟩
  cases kind? with
  | some kind => exact applyTableConstraint_cores hread.1
  | none => rw [hread.1]

theorem tableConstraints_cores {aside : List Members}
    (h : (aside.foldlM (tableConstraint settings) t).outcome = .ok t') :
    t'.cores = t.cores ∧ t'.name = t.name := by
  let P (t₁ : TableDraft) : Prop := t₁.cores = t.cores ∧ t₁.name = t.name
  have hstep : ∀ t₁ body t₂, body ∈ aside → P t₁ →
      (tableConstraint settings t₁ body).outcome = .ok t₂ → P t₂ := by
    rintro t₁ body t₂ _ ⟨hcores, hname⟩ hread
    exact ⟨(tableConstraint_cores hread).trans hcores,
      (tableConstraint_spec hread).same.1.trans hname⟩
  exact foldlM_invariant (P := P) hstep ⟨rfl, rfl⟩ h

end Among

/-! ### Elements -/

/-- The columns among the elements of the table that a statement creates. -/
def ParseTree.columnElements (statement : Json) : List Json :=
  ((Node.content statement).get "tableElts").listed.filter (Node.isA columnElement)

/-- The core is that of the element, and what is lost of its defaults is marked. -/
structure ColumnCore.ReadFrom (enums : EnumRegistry) (table : Json) (markers : List Marker)
    (element : Json) (c : ColumnCore) : Prop where
  name : c.name = (Node.content element).get "colname"
  entity : c.entity = table.display ++ "." ++ c.name.display
  target : Target.ofTypeName (.ofJson ((Node.content element).get "typeName")) enums
    (.str c.entity) = .ok c.target
  default : c.default =
    (ConstraintSource.defaultsOf element).foldl ConstraintSource.defaultAfter none
  marked : ∀ k ∈ ConstraintSource.defaultsOf element, k.defaultMarkers c.entity ⊆ markers

theorem ColumnCore.ReadFrom.mono {enums : EnumRegistry} {table : Json} {markers more : List Marker}
    {element : Json} {c : ColumnCore} (h : c.ReadFrom enums table markers element)
    (hsubset : markers ⊆ more) : c.ReadFrom enums table more element :=
  ⟨h.name, h.entity, h.target, h.default, fun k hk => List.Subset.trans (h.marked k hk) hsubset⟩

section Elements

open Traced

variable {settings : Settings} {enums : EnumRegistry} {t t' : TableDraft} {body : Members}
  {markers : List Marker}

theorem readColumn_core {element : Json} (hbody : Node.content element = body)
    (h : (readColumn settings enums t body).Sets t' markers) :
    t'.name = t.name ∧ ∃ c, t'.cores = t.cores ++ [c] ∧
      c.ReadFrom enums t.name markers element := by
  subst hbody
  obtain ⟨target, t₁, c, first, _, htarget, hread, hfirst, rfl⟩ := readColumn_sets h
  have hsame : t.SameColumns t₁ := by
    let P (draft : TableDraft × ColumnDraft) : Prop := t.SameColumns draft.1
    refine foldlM_invariant (P := P) ?_ (.refl t) hread.1
    rintro ⟨t₂, c₂⟩ constraint ⟨t₃, c₃⟩ _ ht₂ hstep
    exact TableDraft.SameColumns.trans ht₂ (columnConstraint_spec hstep).1
  obtain ⟨hname, _, hcolumns, _⟩ := hsame
  obtain ⟨hcore, hmarked⟩ :=
    columnConstraints_core (some ((Node.content element).get "colname")) hread
  rw [ColumnCore.foldl_constrain] at hcore
  refine ⟨hname, c.core, ?_, ?_⟩
  · simp only [TableDraft.cores, hcolumns, List.map_append, List.map_singleton]
  · rw [hcore]
    refine ⟨rfl, rfl, htarget, rfl, fun k hk => ?_⟩
    obtain ⟨hk, hdefault⟩ := List.mem_filter.1 hk
    exact List.Subset.trans (hmarked k hk hdefault) hfirst.sublist.subset

theorem readElement_cores {kind : String} {element : Json}
    (hunwrap : Node.unwrap element = .ok (kind, body))
    (h : (readElement settings enums t kind body).Sets t' markers) :
    t'.name = t.name ∧ ∃ cs, t'.cores = t.cores ++ cs ∧
      List.Forall₂ (ColumnCore.ReadFrom enums t.name markers)
        ([element].filter (Node.isA columnElement)) cs := by
  have hisA : Node.isA columnElement element = (kind = columnElement : Bool) :=
    (Node.unwrap_eq_ok hunwrap).2 columnElement
  unfold readElement at h
  rw [List.filter_singleton, hisA]
  split at h
  · rename_i hkind
    obtain ⟨hname, c, hcores, hc⟩ := readColumn_core (Node.content_of_unwrap hunwrap) h
    rw [decide_eq_true hkind]
    exact ⟨hname, [c], hcores, .cons hc .nil⟩
  · rename_i hkind
    obtain ⟨entity, _, h⟩ := liftM_bind_sets_iff.1 h
    obtain ⟨_, _, _, _, hrest, rfl⟩ := bind_sets_iff.1 h
    obtain ⟨rfl, rfl⟩ := pure_sets_iff.1 hrest
    rw [decide_eq_false hkind]
    exact ⟨rfl, [], (List.append_nil _).symm, .nil⟩

/-- Every column among the elements is read, in order. -/
theorem readElements_cores {aside aside' : List Members} {elements : List Json}
    (h : (readElements settings enums t aside elements).Sets (t', aside') markers) :
    t'.name = t.name ∧ ∃ cs, t'.cores = t.cores ++ cs ∧
      List.Forall₂ (ColumnCore.ReadFrom enums t.name markers)
        (elements.filter (Node.isA columnElement)) cs := by
  induction elements generalizing t aside markers with
  | nil =>
    obtain ⟨heq, rfl⟩ := pure_sets_iff.1 h
    cases heq
    exact ⟨rfl, [], (List.append_nil _).symm, .nil⟩
  | cons element elements ih =>
    unfold readElements at h
    obtain ⟨⟨kind, body⟩, hunwrap, h⟩ := liftM_bind_sets_iff.1 h
    dsimp only at h
    split at h
    · rename_i hkind
      have hother : Node.isA columnElement element = false := by
        rw [(Node.unwrap_eq_ok hunwrap).2, hkind]
        decide
      rw [List.filter_cons_of_neg (by simp [hother])]
      exact ih h
    · obtain ⟨t₁, first, rest, hfirst, hrest, rfl⟩ := bind_sets_iff.1 h
      obtain ⟨hname, cs, hcores, hcs⟩ := readElement_cores hunwrap hfirst
      obtain ⟨hname', cs', hcores', hcs'⟩ := ih hrest
      rw [hname] at hcs'
      refine ⟨hname'.trans hname, cs ++ cs', by rw [hcores', hcores, List.append_assoc], ?_⟩
      rw [← List.singleton_append, List.filter_append]
      refine List.rel_append (hcs.imp fun _ _ hc => hc.mono ?_) (hcs'.imp fun _ _ hc => hc.mono ?_)
      · exact List.subset_append_left ..
      · exact List.subset_append_right ..

theorem readParts_cores {name : Json} {position : Nat}
    (h : (readParts settings enums { name, position } body).Sets t' markers) :
    t'.name = name ∧ List.Forall₂ (ColumnCore.ReadFrom enums name markers)
      ((body.get "tableElts").listed.filter (Node.isA columnElement)) t'.cores := by
  obtain ⟨t₁, aside, first, second, helements, hconstraints, hpadded⟩ := readParts_sets h
  obtain ⟨hname, cs, hcores, hcs⟩ := readElements_cores helements
  obtain ⟨hcores', hname'⟩ := tableConstraints_cores hconstraints.1
  have hcores' : t'.cores = cs := hcores'.trans hcores
  rw [hcores']
  refine ⟨hname'.trans hname, hcs.imp fun _ _ hc => hc.mono ?_⟩
  exact List.Subset.trans (List.subset_append_left ..) hpadded.sublist.subset

end Elements

/-! ### Statements -/

/-- The table is called as the statement says, and its columns are those of its elements. -/
structure TableDraft.ColumnsFrom (enums : EnumRegistry) (statement : Json) (t : TableDraft) :
    Prop where
  name : t.name = ParseTree.relationName (Node.content statement)
  columns : List.Forall₂ (ColumnCore.ReadFrom enums t.name t.markers)
    (ParseTree.columnElements statement) t.cores

theorem TableDraft.ColumnsFrom.marked {enums : EnumRegistry} {statement : Json} {t t' : TableDraft}
    (h : t.ColumnsFrom enums statement) (hmarked : t.Marked t') :
    t'.ColumnsFrom enums statement := by
  obtain ⟨more, rfl⟩ := hmarked
  exact ⟨h.name, h.columns.imp fun _ _ hc => hc.mono (List.subset_append_left ..)⟩

section Statements

open Traced

variable {settings : Settings} {enums : EnumRegistry} {m m' : ModelDraft} {position : Nat}
  {statement : Json} {body : Members} {markers : List Marker}

theorem readTable_columns (hbody : Node.content statement = body)
    (h : (readTable settings enums m position body).Sets m' markers) :
    ∃ t, m'.tables = m.tables ++ [t] ∧ t.ColumnsFrom enums statement := by
  subst hbody
  obtain ⟨t, _, hparts, rfl⟩ := readTable_sets h
  obtain ⟨htable, hcolumns⟩ := readParts_cores hparts
  refine ⟨{ t with markers }, rfl, htable, ?_⟩
  rw [← htable] at hcolumns
  exact hcolumns

/-- The tables that a statement adds, and those that were there. -/
theorem readStatement_columns (h : (readStatement settings enums m position statement).Sets m' markers) :
    ∃ before added, m'.tables = before ++ added ∧
      List.Forall₂ TableDraft.Marked m.tables before ∧
      List.Forall₂ (TableDraft.ColumnsFrom enums) ([statement].filter (Node.isA "CreateStmt"))
        added := by
  rw [List.filter_singleton]
  cases hstatement : Node.isA "CreateStmt" statement with
  | true =>
    unfold readStatement at h
    obtain ⟨⟨kind, body⟩, hunwrap, h⟩ := liftM_bind_sets_iff.1 h
    have hkind : kind = "CreateStmt" := by
      rw [(Node.unwrap_eq_ok hunwrap).2] at hstatement
      exact of_decide_eq_true hstatement
    subst hkind
    obtain ⟨t, htables, ht⟩ := readTable_columns (Node.content_of_unwrap hunwrap) h
    exact ⟨m.tables, [t], htables, List.forall₂_same.2 fun t _ => .refl t, .cons ht .nil⟩
  | false =>
    have hgrows := readStatement_grows h
    cases hgrows with
    | table hcreate =>
      rw [hstatement] at hcreate
      cases hcreate
    | @index m₁ _ _ _ hmarked =>
      exact ⟨m₁.tables, [], (List.append_nil _).symm, hmarked.tables, .nil⟩
    | other _ htables =>
      exact ⟨m.tables, [], by rw [htables, List.append_nil],
        List.forall₂_same.2 fun t _ => .refl t, .nil⟩

/-- Every table has the columns of its statement. -/
theorem readStatements_columns {before statements : List Json}
    (hm : List.Forall₂ (TableDraft.ColumnsFrom enums) (before.filter (Node.isA "CreateStmt"))
      m.tables)
    (h : (readStatements settings enums m position statements).Sets m' markers) :
    List.Forall₂ (TableDraft.ColumnsFrom enums)
      ((before ++ statements).filter (Node.isA "CreateStmt")) m'.tables := by
  induction statements generalizing m before position markers with
  | nil =>
    obtain ⟨rfl, rfl⟩ := pure_sets_iff.1 h
    rwa [List.append_nil]
  | cons statement statements ih =>
    obtain ⟨m₁, first, rest, hfirst, hrest, rfl⟩ := bind_sets_iff.1 h
    obtain ⟨old, added, htables, hold, hadded⟩ := readStatement_columns hfirst
    have hm₁ : List.Forall₂ (TableDraft.ColumnsFrom enums)
        ((before ++ [statement]).filter (Node.isA "CreateStmt")) m₁.tables := by
      rw [List.filter_append, htables]
      refine List.rel_append ?_ hadded
      exact forall₂_comp hm hold fun _ _ _ _ _ ht hmarked => ht.marked hmarked
    have hreads := ih hm₁ hrest
    rwa [List.append_assoc] at hreads

end Statements

/-! ### The finished model -/

/-- The column keeps what became of its type. -/
structure Column.TypedBy (c : Column) (target : Target) : Prop where
  sourceType : c.sourceType = target.sourceName
  family : c.family = target.family
  enumName : c.enumName = target.enumName
  modifiers : c.modifiers = target.modifiers

/-- The column is that of the element, and what is lost of its defaults is among the markers of
its table. -/
structure Column.ReadFrom (enums : EnumRegistry) (t : Table) (element : Json) (c : Column) :
    Prop where
  target : ∃ target, Target.ofTypeName (.ofJson ((Node.content element).get "typeName")) enums
    (.str (Model.ColumnKey.label (t.name, c.name))) = .ok target ∧ c.TypedBy target
  default : c.default =
    (ConstraintSource.defaultsOf element).foldl ConstraintSource.defaultAfter none
  marked : ∀ k ∈ ConstraintSource.defaultsOf element,
    k.defaultMarkers (Model.ColumnKey.label (t.name, c.name)) ⊆ t.markers

/-- The tables of the model are those that the tree creates, their columns those of its elements,
all in order, and each column is in this relation to its element. -/
def Model.EachColumn (m : Model) (tree : Json) (R : Table → Json → Column → Prop) : Prop :=
  ∃ statements, ParseTree.statements tree = .ok statements ∧
    List.Forall₂ (fun statement t => ParseTree.relationName (Node.content statement) = .str t.name ∧
      List.Forall₂ (fun element c => (Node.content element).get "colname" = .str c.name ∧
        R t element c) (ParseTree.columnElements statement) t.columns)
      (statements.filter (Node.isA "CreateStmt")) m.tables

theorem Model.EachColumn.imp {m : Model} {tree : Json} {R S : Table → Json → Column → Prop}
    (h : m.EachColumn tree R)
    (hRS : ∀ t ∈ m.tables, ∀ c ∈ t.columns, ∀ element, R t element c → S t element c) :
    m.EachColumn tree S := by
  obtain ⟨statements, hstatements, htables⟩ := h
  refine ⟨statements, hstatements, forall₂_imp_of_mem htables ?_⟩
  rintro statement _ t ht ⟨hname, hcolumns⟩
  refine ⟨hname, forall₂_imp_of_mem hcolumns ?_⟩
  rintro element _ c hc ⟨hcname, hR⟩
  exact ⟨hcname, hRS t ht c hc element hR⟩

section Finish

variable {settings : Settings} {enums : EnumRegistry}

theorem ColumnDraft.finish_core {d : ColumnDraft} {found : Json} {c : Column}
    (h : d.finish found = .ok c) :
    d.name = .str c.name ∧ c.TypedBy d.target ∧ c.default = d.default := by
  unfold finish at h
  obtain ⟨key, _, h⟩ := Read.bind_eq_ok_iff.1 h
  obtain ⟨name, hname, h⟩ := Read.bind_eq_ok_iff.1 h
  cases h
  have hname := Lenient.eq_str_of_fullText
    (Lenient.under_eq_ok_iff.1 (Lenient.toRead_eq_ok_iff.1 hname))
  exact ⟨hname, ⟨rfl, rfl, rfl, rfl⟩, rfl⟩

theorem TableDraft.ColumnsFrom.finish {statement : Json} {d : TableDraft} {found : String → Json}
    {t : Table} (hd : d.ColumnsFrom enums statement) (h : d.finish found = .ok t) :
    ParseTree.relationName (Node.content statement) = .str t.name ∧
      List.Forall₂ (fun element c => (Node.content element).get "colname" = .str c.name ∧
        c.ReadFrom enums t element) (ParseTree.columnElements statement) t.columns := by
  have hfinishes := TableDraft.finishes h
  unfold TableDraft.finish at h
  obtain ⟨columns, hcolumns, h⟩ := Read.bind_eq_ok_iff.1 h
  obtain ⟨name, _, h⟩ := Read.bind_eq_ok_iff.1 h
  cases h
  refine ⟨hd.name.symm.trans hfinishes.name, ?_⟩
  refine forall₂_comp (List.forall₂_map_right_iff.1 hd.columns) (Read.mapM_eq_ok_iff.1 hcolumns) ?_
  intro element _ c _ c' hc hfinish
  obtain ⟨hname, htyped, hdefault⟩ := ColumnDraft.finish_core hfinish
  have hentity : c.entity = Model.ColumnKey.label (name, c'.name) := by
    have hentity : c.entity = d.name.display ++ "." ++ c.name.display := hc.entity
    rw [hentity, hfinishes.name, hname]
    rfl
  have htarget : Target.ofTypeName _ enums (.str c.entity) = .ok c.target := hc.target
  have hmarked : ∀ k ∈ ConstraintSource.defaultsOf element,
      k.defaultMarkers c.entity ⊆ d.markers := hc.marked
  rw [hentity] at htarget hmarked
  exact ⟨hc.name.symm.trans hname, ⟨c.target, htarget, htyped⟩, hdefault.trans hc.default, hmarked⟩

end Finish

namespace Model

variable {settings : Settings} {tree : Json} {m : Model}

theorem build_eq_ok_iff : (build settings tree).outcome = .ok m ↔
    ∃ statements draft, ParseTree.statements tree = .ok statements ∧
      (EnumRegistry.declared statements).outcome = .ok m.enums ∧
      (read settings m.enums statements).Sets (m.tables, draft) m.markers ∧
      draft.indexes = m.indexes ∧ draft.unsupported = m.unsupported := by
  unfold build
  constructor
  · intro h
    obtain ⟨statements, hstatements, h⟩ := Traced.bind_eq_ok_iff.1 h
    obtain ⟨enums, henums, h⟩ := Traced.bind_eq_ok_iff.1 h
    obtain ⟨⟨⟨tables, draft⟩, markers⟩, hread, h⟩ := Traced.bind_eq_ok_iff.1 h
    cases h
    exact ⟨statements, draft, hstatements, henums, Traced.collecting_eq_ok_iff.1 hread, rfl, rfl⟩
  · rintro ⟨statements, draft, hstatements, henums, hread, hindexes, hunsupported⟩
    refine Traced.bind_eq_ok_iff.2 ⟨statements, hstatements, ?_⟩
    refine Traced.bind_eq_ok_iff.2 ⟨m.enums, henums, ?_⟩
    refine Traced.bind_eq_ok_iff.2 ⟨((m.tables, draft), m.markers),
      Traced.collecting_eq_ok_iff.2 hread, ?_⟩
    rw [Traced.outcome_pure, hindexes, hunsupported]

/-- **Every column of a model is that of its element.** -/
theorem build_columns (h : (build settings tree).outcome = .ok m) :
    m.EachColumn tree fun t element c => c.ReadFrom m.enums t element := by
  obtain ⟨statements, draft, hstatements, _, hread, _, _⟩ := build_eq_ok_iff.1 h
  unfold read at hread
  obtain ⟨d, lost, rest, hd, hrest, hmarkers⟩ := Traced.bind_sets_iff.1 hread
  obtain ⟨⟨resolved, found⟩, unresolved, last, hresolved, hlast, rfl⟩ :=
    Traced.bind_sets_iff.1 hrest
  obtain ⟨tables, _, _, htables, hend, _⟩ := Traced.bind_sets_iff.1 hlast
  obtain ⟨heq, _⟩ := Traced.pure_sets_iff.1 hend
  cases heq
  have hcolumns : List.Forall₂ (TableDraft.ColumnsFrom m.enums)
      (([] ++ statements).filter (Node.isA "CreateStmt")) d.tables :=
    readStatements_columns .nil hd
  have hcolumns := forall₂_comp hcolumns (findAllReferences_marked hresolved).tables
    fun _ _ _ _ _ ht hmarked => ht.marked hmarked
  refine ⟨statements, hstatements, ?_⟩
  exact forall₂_comp hcolumns (Traced.mapM_eq_ok_iff.1 htables.1)
    fun _ _ _ _ _ ht hfinish => ht.finish hfinish

end Model

end StrictDdl
