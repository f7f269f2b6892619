import StrictDdl.Model.Build
import StrictDdl.Proofs.Expr.Layout

/-! Tables of parse trees in different layouts.

A table is read in the same way from trees that are alike: the same markers are set, the same fault
ends the reading, or the tables differ in nothing but the expressions behind their checks and
defaults, which nobody can tell apart (`readParts_agrees`). The position of the statement is only
carried along. Whatever is without a counterpart on the way has become a marker. -/
namespace StrictDdl

open Read Traced

/-! ### Drafts -/

/-- Checks that differ in the expression behind them at most. -/
inductive CheckDraft.Alike : CheckDraft → CheckDraft → Prop where
  | mk {c : CheckDraft} {e : Expr} : c.node.Alike e → Alike c { c with node := e }

inductive CheckConstraint.Alike : CheckConstraint → CheckConstraint → Prop where
  | mk {c : CheckConstraint} {e : Expr} : c.node.Alike e → Alike c { c with node := e }

/-- Columns that differ in the expressions behind their checks and defaults at most. -/
inductive ColumnDraft.Alike : ColumnDraft → ColumnDraft → Prop where
  | mk {c : ColumnDraft} {default : Option Default} {checks : List CheckConstraint} :
    Option.Rel Default.Alike c.default default →
    List.Forall₂ CheckConstraint.Alike c.checks checks → Alike c { c with default, checks }

/-- Tables that differ in such expressions and in their positions, which fit together. -/
inductive TableDraft.Alike (Q : Nat → Nat → Prop) : TableDraft → TableDraft → Prop where
  | mk {t : TableDraft} {position : Nat} {columns : List ColumnDraft}
      {checks : List CheckConstraint} : Q t.position position →
    List.Forall₂ ColumnDraft.Alike t.columns columns →
    List.Forall₂ CheckConstraint.Alike t.checks checks →
    Alike Q t { t with position, columns, checks }

namespace ColumnDraft.Alike

variable {c c' : ColumnDraft}

theorem name_eq (h : c.Alike c') : c'.name = c.name := by
  cases h
  rfl

theorem entity_eq (h : c.Alike c') : c'.entity = c.entity := by
  cases h
  rfl

theorem isPrimaryKey_eq (h : c.Alike c') : c'.isPrimaryKey = c.isPrimaryKey := by
  cases h
  rfl

end ColumnDraft.Alike

namespace TableDraft

variable {Q : Nat → Nat → Prop} {t t' : TableDraft}

theorem Alike.name_eq (h : t.Alike Q t') : t'.name = t.name := by
  cases h
  rfl

theorem Alike.column? (h : t.Alike Q t') (name : Json) :
    Option.Rel ColumnDraft.Alike (t.column? name) (t'.column? name) := by
  obtain ⟨_, hcolumns, _⟩ := h
  exact find?_rel_of_forall₂ hcolumns fun c c' hc => by rw [hc.name_eq]

theorem Alike.hasPrimaryKey_eq (h : t.Alike Q t') : t'.hasPrimaryKey = t.hasPrimaryKey := by
  obtain ⟨_, hcolumns, _⟩ := h
  have hkeys := map_eq_of_forall₂ hcolumns fun c _ c' hc => hc.isPrimaryKey_eq
  have hany : ∀ columns : List ColumnDraft, columns.any (fun c => c.isPrimaryKey) =
      (columns.map ColumnDraft.isPrimaryKey).any id := by
    intro columns
    rw [List.any_map]
    rfl
  rw [hasPrimaryKey, hasPrimaryKey, hany, hany, hkeys]

theorem modifyIn_forall₂ {columns columns' : List ColumnDraft}
    (h : List.Forall₂ ColumnDraft.Alike columns columns') (name : Json)
    {change change' : ColumnDraft → ColumnDraft}
    (hchange : ∀ c c', c.Alike c' → (change c).Alike (change' c')) :
    List.Forall₂ ColumnDraft.Alike (modifyIn name change columns)
      (modifyIn name change' columns') := by
  induction h with
  | nil => exact .nil
  | @cons c c' columns columns' hc hcolumns ih =>
    rw [modifyIn, modifyIn, hc.name_eq]
    split
    · exact .cons (hchange c c' hc) hcolumns
    · exact .cons hc ih

theorem modifyColumn_agrees (h : t.Alike Q t') (name : Json)
    {change change' : ColumnDraft → ColumnDraft}
    (hchange : ∀ c c', c.Alike c' → (change c).Alike (change' c')) :
    Read.Agrees True (TableDraft.Alike Q) (t.modifyColumn name change)
      (t'.modifyColumn name change') := by
  have hcolumn := h.column? name
  obtain ⟨hposition, hcolumns, hchecks⟩ := h
  unfold modifyColumn
  generalize t.column? name = column at hcolumn
  generalize TableDraft.column? _ name = column' at hcolumn
  cases hcolumn with
  | none => exact .error rfl rfl fun _ => rfl
  | some _ => exact .ok (.mk hposition (modifyIn_forall₂ hcolumns name hchange) hchecks)

end TableDraft

/-! ### Checks -/

theorem CheckDraft.ofConstraint_agrees {body body' : Members} (h : body.Alike body')
    (entity : Json) :
    AgreesOn Fault.Supported True CheckDraft.Alike (ofConstraint body entity)
      (ofConstraint body' entity) := by
  refine (Node.require_obj_agrees h (by decide) fun _ => rfl).mono
    (fun _ => Fault.supported_of_plain) |>.bind fun source source' hsource => ?_
  have hnode := Expr.Alike.ofJson hsource
  refine ((Expr.text_supported .postgres hnode.plain).agrees_of_eq (hnode.text_eq .postgres)).bind_eq
    fun text => ?_
  refine ((ParseTree.columns_plain source).supported.agrees_of_eq
    (ParseTree.columns_eq hsource)).bind_eq fun columns => ?_
  rw [h.get_eq (by decide) (by decide)]
  exact .ok (.mk hnode)

theorem readCheck_agrees (place : Place) (entity : Json) {body body' : Members}
    (h : body.Alike body') :
    Traced.Agrees True (Option.Rel CheckDraft.Alike) (readCheck place entity body)
      (readCheck place entity body') := by
  have hcheck := CheckDraft.ofConstraint_agrees h entity
  unfold readCheck
  generalize CheckDraft.ofConstraint body entity = check at hcheck
  generalize CheckDraft.ofConstraint body' entity = check' at hcheck
  cases hcheck with
  | ok hdraft => exact agrees_pure (.some hdraft)
  | @error fault fault' hsupported _ heq =>
    obtain rfl : fault = fault' := heq trivial
    cases fault with
    | unsupported construct detail => exact absurd rfl (hsupported construct detail)
    | unrenderable kind dialect =>
      exact (agrees_liftM (Lenient.toRead_plain _).agrees).bind_eq fun entity =>
        (agrees_mark fun _ => ⟨rfl, rfl⟩).bind_eq fun _ => agrees_pure .none
    | _ => exact agrees_error rfl

theorem CheckDraft.finish_agrees {c c' : CheckDraft} (h : c.Alike c') (classified : Bool) :
    Read.Agrees True CheckConstraint.Alike (c.finish classified) (c'.finish classified) := by
  obtain ⟨hnode⟩ := h
  unfold finish
  dsimp only
  generalize (Lenient.optional Lenient.text c.name).under "name" = name
  generalize (Lenient.each Lenient.text 0 c.columns).under "columns" = columns
  cases name with
  | ok name =>
    cases columns with
    | ok columns => exact .ok (.mk hnode)
    | refused problems => exact .error rfl rfl fun _ => rfl
  | refused problems => cases columns <;> exact .error rfl rfl fun _ => rfl

theorem CheckDraft.onColumn_agrees (settings : Settings) {c c' : CheckDraft} (h : c.Alike c')
    {column column' : ColumnDraft} (hcolumn : column.Alike column') :
    Read.Agrees True ColumnDraft.Alike (c.onColumn settings column)
      (c'.onColumn settings column') := by
  obtain ⟨hdefault, hchecks⟩ := hcolumn
  have hrules : c'.rules? settings column = c.rules? settings column := by
    obtain ⟨hnode⟩ := h
    exact hnode.check_eq _ _ _
  have hplain : (c.rules? settings column).Plain := by
    obtain ⟨hnode⟩ := h
    exact Check.classify_plain _ hnode.plain _ _
  refine (hplain.agrees_of_eq hrules).bind_eq fun rules => ?_
  refine (finish_agrees h rules.isSome).bind fun check check' hcheck => ?_
  exact .ok (.mk hdefault (List.rel_append hchecks (.cons hcheck .nil)))

theorem CheckDraft.onTable_agrees {Q : Nat → Nat → Prop} {c c' : CheckDraft} (h : c.Alike c')
    {t t' : TableDraft} (ht : t.Alike Q t') :
    Read.Agrees True (TableDraft.Alike Q) (c.onTable t) (c'.onTable t') := by
  obtain ⟨hposition, hcolumns, hchecks⟩ := ht
  refine (finish_agrees h false).bind fun check check' hcheck => ?_
  exact .ok (.mk hposition hcolumns (List.rel_append hchecks (.cons hcheck .nil)))

/-! ### Constraints of a column -/

theorem readDefault_agrees (place : Place) {column column' : ColumnDraft}
    (hcolumn : column.Alike column') {body body' : Members} (h : body.Alike body') :
    Traced.Agrees True (Option.Rel Default.Alike) (readDefault place column body)
      (readDefault place column' body') := by
  obtain ⟨hdefault, _⟩ := hcolumn
  refine (agrees_liftM (Node.require_obj_agrees h (by decide) fun _ => rfl)).bind
    fun source source' hsource => ?_
  have hclass := Default.classify_agrees (Expr.Alike.ofJson hsource)
  generalize Default.classify (.ofJson source) = kind at hclass
  generalize Default.classify (.ofJson source') = kind' at hclass
  cases hclass with
  | ok hvalue =>
    cases hvalue with
    | literal value => exact agrees_pure (.some (.literal value))
    | computed he =>
      exact .optional Iff.rfl (fun h => (agrees_mark fun _ => ⟨rfl, rfl⟩).bind_eq fun _ => h)
        (agrees_pure (.some (.computed he)))
  | @error fault fault' hsupported _ heq =>
    obtain rfl : fault = fault' := heq trivial
    cases fault with
    | unsupported construct detail => exact absurd rfl (hsupported construct detail)
    | unrenderable kind dialect =>
      exact (agrees_mark fun _ => ⟨rfl, rfl⟩).bind_eq fun _ => agrees_pure hdefault
    | _ => exact agrees_error rfl

theorem constraintKind?_eq {κ : Type} (codes : List (String × κ)) {code code' : Json}
    (h : code.Alike code') : constraintKind? codes code' = constraintKind? codes code := by
  rw [constraintKind?, constraintKind?, h.key_eq]

theorem constraintKind?_plain {κ : Type} (codes : List (String × κ)) (code : Json) :
    (constraintKind? codes code).Plain :=
  code.key_plain.bind fun _ => fails_ok _

theorem constraintLabel_agrees {code code' : Json} (h : code.Alike code') :
    Read.Agrees True Eq (constraintLabel code) (constraintLabel code') := by
  refine Fails.agrees_of_eq (code.text_plain.bind fun _ => fails_ok _) ?_
  rw [constraintLabel, constraintLabel, h.text_eq]

theorem markDeferrable_agrees (place : Place) (entity : Json) :
    Traced.Agrees True Eq (markDeferrable place entity) (markDeferrable place entity) :=
  (agrees_liftM (Lenient.toRead_plain _).agrees).bind_eq fun _ => agrees_mark fun _ => ⟨rfl, rfl⟩

theorem checkDeferrable_agrees (place : Place) (entity : Json) {body body' : Members}
    (h : body.Alike body') :
    Traced.Agrees True Eq (checkDeferrable place entity body) (checkDeferrable place entity body') := by
  have hdeferrable : (body.get "deferrable").Alike (body'.get "deferrable") := h.get (by decide)
  have hdeferred : (body.get "initdeferred").Alike (body'.get "initdeferred") := h.get (by decide)
  refine .ite ?_ (markDeferrable_agrees place entity) (agrees_pure rfl)
  rw [hdeferrable.truthy_eq, hdeferred.truthy_eq]

/-- A code that is no scalar is not shown: it is an empty one, or it is none. -/
theorem FkAction.ofCode_eq {code code' : Json} (h : code.Alike code') (entity : Json) :
    ofCode code' entity = ofCode code entity := by
  by_cases hcode : code.isScalar = true
  · cases h with
    | scalar _ => rfl
    | _ => cases hcode
  · have hkey : code.key = .error .mistyped := if_neg hcode
    unfold ofCode
    extract_lets rest' rest
    rw [h.truthy_eq, h.key_eq, hkey]
    rfl

/-- A reference is read in the same way in every layout. -/
theorem ForeignKey.Draft.ofConstraint_eq {body body' : Members} (h : body.Alike body')
    (entity : Json) : ofConstraint body' entity = ofConstraint body entity := by
  have htable : (body.get "pktable").Alike (body'.get "pktable") := h.get (by decide)
  have htargets := Node.strings_eq (h.get (by decide) : (body.get "pk_attrs").Alike _)
  have hsources := Node.strings_eq (h.get (by decide) : (body.get "fk_attrs").Alike _)
  have honDelete := FkAction.ofCode_eq (h.get (by decide) : (body.get "fk_del_action").Alike _) entity
  have honUpdate := FkAction.ofCode_eq (h.get (by decide) : (body.get "fk_upd_action").Alike _) entity
  have hname : Read.Agrees True Eq ((body.get "pktable").members.map (·.get "relname"))
      ((body'.get "pktable").members.map (·.get "relname")) :=
    htable.members.map fun ms ms' hms => (hms.get_eq (by decide) (by decide)).symm
  unfold ofConstraint
  dsimp only
  rw [htargets, hsources, honDelete, honUpdate, htable.truthy_eq, ← hname.eq]

variable (settings : Settings) {Q : Nat → Nat → Prop}

theorem applyColumnConstraint_agrees (place : Place) {table table' : TableDraft}
    (htable : table.Alike Q table') {column column' : ColumnDraft} (hcolumn : column.Alike column')
    {body body' : Members} (h : body.Alike body') (kind : ColumnConstraintKind) :
    Traced.Agrees True (fun a b => a.1.Alike Q b.1 ∧ a.2.Alike b.2)
      (applyColumnConstraint settings place table column body kind)
      (applyColumnConstraint settings place table' column' body' kind) := by
  have hkey := htable.hasPrimaryKey_eq
  have hdefault := readDefault_agrees place hcolumn h
  obtain ⟨hposition, hcolumns, htableChecks⟩ := htable
  have htable := TableDraft.Alike.mk hposition hcolumns htableChecks
  obtain ⟨hold, hchecks⟩ := hcolumn
  have hcolumn := ColumnDraft.Alike.mk hold hchecks
  cases kind with
  | nullable | required | unique | identity =>
    exact agrees_pure ⟨htable, .mk hold hchecks⟩
  | immediate => exact agrees_pure ⟨htable, hcolumn⟩
  | primaryKey =>
    refine .ite ?_ (agrees_error rfl) (agrees_pure ⟨htable, .mk hold hchecks⟩)
    rw [hkey]
  | default => exact hdefault.bind fun _ _ hnew => agrees_pure ⟨htable, .mk hnew hchecks⟩
  | check =>
    refine (readCheck_agrees place _ h).bind fun check? check?' hcheck => ?_
    cases hcheck with
    | none => exact agrees_pure ⟨htable, hcolumn⟩
    | some hcheck =>
      refine .ite ?_ ?_ ?_
      · cases hcheck
        rfl
      · exact (agrees_liftM (CheckDraft.onColumn_agrees settings hcheck hcolumn)).bind fun _ _ hc =>
          agrees_pure ⟨htable, hc⟩
      · exact (agrees_liftM (CheckDraft.onTable_agrees hcheck htable)).bind fun _ _ ht =>
          agrees_pure ⟨ht, hcolumn⟩
  | reference =>
    rw [applyColumnConstraint, applyColumnConstraint, ForeignKey.Draft.ofConstraint_eq h]
    have hfails := ForeignKey.Draft.ofConstraint_fails body (.str column.entity)
    generalize ForeignKey.Draft.ofConstraint body (.str column.entity) = draft at hfails
    cases draft with
    | ok draft => exact agrees_pure ⟨htable, .mk hold hchecks⟩
    | error fault =>
      cases fault with
      | unsupported construct detail =>
        exact (agrees_mark fun _ => ⟨rfl, rfl⟩).bind_eq fun _ => agrees_pure ⟨htable, hcolumn⟩
      | unrenderable kind dialect =>
        obtain ⟨_, heq⟩ := hfails _ rfl rfl
        cases heq
      | _ => exact agrees_error rfl
  | generated =>
    exact (agrees_mark fun _ => ⟨rfl, rfl⟩).bind_eq fun _ => agrees_pure ⟨htable, hcolumn⟩
  | deferrable =>
    exact (markDeferrable_agrees place _).bind_eq fun _ => agrees_pure ⟨htable, hcolumn⟩

theorem columnConstraint_agrees {draft draft' : TableDraft × ColumnDraft}
    (htable : draft.1.Alike Q draft'.1) (hcolumn : draft.2.Alike draft'.2)
    {constraint constraint' : Json} (h : constraint.Alike constraint') :
    Traced.Agrees True (fun a b => a.1.Alike Q b.1 ∧ a.2.Alike b.2)
      (columnConstraint settings draft constraint)
      (columnConstraint settings draft' constraint') := by
  obtain ⟨table, column⟩ := draft
  obtain ⟨table', column'⟩ := draft'
  have happly := fun place body body' (hbody : Members.Alike body body') kind =>
    applyColumnConstraint_agrees settings place htable hcolumn hbody kind
  obtain ⟨hposition, hcolumns, htableChecks⟩ := htable
  obtain ⟨hdefault, hchecks⟩ := hcolumn
  unfold columnConstraint
  dsimp only
  refine (agrees_liftM (Node.bodyAs_agrees h "Constraint")).bind fun body body' hbody => ?_
  refine (agrees_liftM (Node.require_obj_agrees hbody (by decide) fun _ => rfl)).bind
    fun code code' hcode => ?_
  refine (agrees_liftM ((constraintKind?_plain _ code).agrees_of_eq
    (constraintKind?_eq _ hcode))).bind_eq fun kind? => ?_
  have hrest : ∀ {drafts drafts' : Traced (TableDraft × ColumnDraft)},
      Traced.Agrees True (fun a b => a.1.Alike Q b.1 ∧ a.2.Alike b.2) drafts drafts' →
      Traced.Agrees True (fun a b => a.1.Alike Q b.1 ∧ a.2.Alike b.2)
        (do
          let draft ← drafts
          checkDeferrable ⟨table.name, column.name⟩ (.str column.entity) body
          return draft)
        (do
          let draft ← drafts'
          checkDeferrable ⟨table.name, column.name⟩ (.str column.entity) body'
          return draft) := fun h => h.bind fun _ _ hdraft =>
    (checkDeferrable_agrees _ _ hbody).bind_eq fun _ => agrees_pure hdraft
  cases kind? with
  | some kind => exact hrest (happly _ body body' hbody kind)
  | none =>
    refine (agrees_liftM (constraintLabel_agrees hcode)).bind_eq fun label => ?_
    exact (agrees_mark fun _ => ⟨rfl, rfl⟩).bind_eq fun _ =>
      hrest (agrees_pure ⟨.mk hposition hcolumns htableChecks, .mk hdefault hchecks⟩)

/-! ### Constraints of a table -/

theorem keyColumns_agrees {t t' : TableDraft} (ht : t.Alike Q t') {body body' : Members}
    (h : body.Alike body') : Read.Agrees True Eq (keyColumns t body) (keyColumns t' body') := by
  obtain ⟨_, _, _⟩ := ht
  exact (Node.require_obj_agrees h (by decide) fun _ => rfl).bind fun keys _ hkeys =>
    (Node.strings_plain keys).agrees_of_eq (Node.strings_eq hkeys)

theorem applyKey_agrees {t t' : TableDraft} (ht : t.Alike Q t') (isPrimary : Bool)
    (keys : List Json) (name : Json) {change : ColumnDraft → ColumnDraft}
    (hchange : ∀ c c', c.Alike c' → (change c).Alike (change c')) :
    Read.Agrees True (TableDraft.Alike Q) (applyKey t isPrimary keys name change)
      (applyKey t' isPrimary keys name change) := by
  have hmodify := fun name => TableDraft.modifyColumn_agrees ht name hchange
  have hrequire : ∀ name, Read.Agrees True Eq (t.requireColumn name) (t'.requireColumn name) :=
    fun name => (TableDraft.modifyColumn_agrees ht name fun _ _ hc => hc).bind fun _ _ _ => .ok rfl
  obtain ⟨hposition, hcolumns, hchecks⟩ := ht
  unfold applyKey
  split
  · exact hmodify _
  · refine (agrees_forM hrequire _).bind_eq fun _ => ?_
    exact (Lenient.toRead_plain _).agrees.bind_eq fun _ => .ok (.mk hposition hcolumns hchecks)

theorem applyTableConstraint_agrees (place : Place) {t t' : TableDraft} (ht : t.Alike Q t')
    {body body' : Members} (h : body.Alike body') (kind : TableConstraintKind) :
    Traced.Agrees True (TableDraft.Alike Q) (applyTableConstraint settings place t body kind)
      (applyTableConstraint settings place t' body' kind) := by
  have hkeys := keyColumns_agrees ht h
  have hconname : body'.get "conname" = body.get "conname" := h.get_eq (by decide) (by decide)
  cases kind with
  | primaryKey =>
    rw [applyTableConstraint, applyTableConstraint, hconname, ht.hasPrimaryKey_eq]
    refine (agrees_liftM hkeys).bind_eq fun keys => .ite Iff.rfl ?_ (agrees_liftM ?_)
    · rw [ht.name_eq]
      exact agrees_error rfl
    · exact applyKey_agrees ht true keys _ fun c c' ⟨hdefault, hchecks⟩ => .mk hdefault hchecks
  | unique =>
    rw [applyTableConstraint, applyTableConstraint, hconname]
    refine (agrees_liftM hkeys).bind_eq fun keys => agrees_liftM ?_
    exact applyKey_agrees ht false keys _ fun c c' ⟨hdefault, hchecks⟩ => .mk hdefault hchecks
  | reference =>
    rw [applyTableConstraint, applyTableConstraint, ht.name_eq, ForeignKey.Draft.ofConstraint_eq h]
    have hfails := ForeignKey.Draft.ofConstraint_fails body t.name
    generalize ForeignKey.Draft.ofConstraint body t.name = draft at hfails
    refine (agrees_liftM (Node.require_obj_agrees h (by decide) fun _ => rfl)).bind
      fun attributes _ hattributes => ?_
    refine (agrees_liftM ((Node.strings_plain attributes).agrees_of_eq
      (Node.strings_eq hattributes))).bind_eq fun sources => ?_
    cases draft with
    | ok draft =>
      cases sources with
      | nil => exact agrees_error rfl
      | cons source _ =>
        exact agrees_liftM (TableDraft.modifyColumn_agrees ht source
          fun c c' ⟨hdefault, hchecks⟩ => .mk hdefault hchecks)
    | error fault =>
      cases fault with
      | unsupported construct detail =>
        exact (agrees_liftM (Node.join_plain _ _).agrees).bind_eq fun _ =>
          (agrees_liftM (Lenient.toRead_plain _).agrees).bind_eq fun _ =>
            (agrees_mark fun _ => ⟨rfl, rfl⟩).bind_eq fun _ => agrees_pure ht
      | unrenderable kind dialect =>
        obtain ⟨_, heq⟩ := hfails _ rfl rfl
        cases heq
      | _ => exact agrees_error rfl
  | check =>
    rw [applyTableConstraint, applyTableConstraint, ht.name_eq]
    refine (readCheck_agrees place t.name h).bind fun check? check?' hcheck => ?_
    cases hcheck with
    | none => exact agrees_pure ht
    | @some check check' hcheck =>
      have htable := agrees_liftM (CheckDraft.onTable_agrees hcheck ht)
      have hcolumns : check'.columns = check.columns := by
        cases hcheck
        rfl
      dsimp only
      rw [hcolumns]
      split
      · rename_i only _
        have hcolumn := ht.column? only
        generalize t.column? only = column at hcolumn
        generalize t'.column? only = column' at hcolumn
        cases hcolumn with
        | none => exact htable
        | some hcolumn =>
          exact (agrees_liftM (CheckDraft.onColumn_agrees settings hcheck hcolumn)).bind
            fun _ _ hnew => agrees_liftM (TableDraft.modifyColumn_agrees ht only fun _ _ _ => hnew)
      · exact htable
  | exclusion =>
    rw [applyTableConstraint, applyTableConstraint, ht.name_eq, hconname]
    exact (agrees_liftM (Lenient.toRead_plain _).agrees).bind_eq fun _ =>
      (agrees_mark fun _ => ⟨rfl, rfl⟩).bind_eq fun _ => agrees_pure ht

theorem tableConstraint_agrees {t t' : TableDraft} (ht : t.Alike Q t') {body body' : Members}
    (h : body.Alike body') :
    Traced.Agrees True (TableDraft.Alike Q) (tableConstraint settings t body)
      (tableConstraint settings t' body') := by
  unfold tableConstraint
  rw [ht.name_eq, h.get_eq (by decide) (by decide)]
  refine (agrees_liftM (Node.require_obj_agrees h (by decide) fun _ => rfl)).bind
    fun code code' hcode => ?_
  refine (agrees_liftM ((constraintKind?_plain _ code).agrees_of_eq
    (constraintKind?_eq _ hcode))).bind_eq fun kind? => ?_
  have hrest : ∀ {drafts drafts' : Traced TableDraft},
      Traced.Agrees True (TableDraft.Alike Q) drafts drafts' →
      Traced.Agrees True (TableDraft.Alike Q)
        (do
          let table ← drafts
          checkDeferrable ⟨t.name, .null⟩ table.name body
          return table)
        (do
          let table ← drafts'
          checkDeferrable ⟨t.name, .null⟩ table.name body'
          return table) := by
    intro drafts drafts' hdrafts
    refine hdrafts.bind fun table table' htable => ?_
    rw [htable.name_eq]
    exact (checkDeferrable_agrees _ _ h).bind_eq fun _ => agrees_pure htable
  cases kind? with
  | some kind => exact hrest (applyTableConstraint_agrees settings _ ht h kind)
  | none =>
    exact (agrees_liftM (constraintLabel_agrees hcode)).bind_eq fun label =>
      (agrees_liftM (Lenient.toRead_plain _).agrees).bind_eq fun _ =>
        (agrees_mark fun _ => ⟨rfl, rfl⟩).bind_eq fun _ => hrest (agrees_pure ht)

/-! ### Columns and tables -/

theorem Target.ofTypeName_plain {t : TypeName} (h : t.Plain) (enums : EnumRegistry)
    (entity : Json) : (Target.ofTypeName t enums entity).Plain := by
  have hparts : (t.parts entity).Plain := by
    refine h.names.bind fun names => ?_
    split
    · exact fails_error rfl
    · exact fails_ok _
    · exact fails_ok _
  have hscale : ∀ (m : Modifiers) (family : Family), (m.admitScale family).Plain := by
    intro m family
    unfold Modifiers.admitScale
    split
    · exact .ite (fails_error rfl) (fails_ok _)
    · exact fails_ok _
  refine hparts.bind fun parts => (Json.text_plain _).bind fun name => ?_
  refine (h.modifiers.bind fun _ => h.depth.bind fun _ => fails_ok _).bind fun modifiers => ?_
  exact (hscale _ _).bind fun _ => fails_ok _

theorem readColumn_agrees (enums : EnumRegistry) {t t' : TableDraft} (ht : t.Alike Q t')
    {body body' : Members} (h : body.Alike body') :
    Traced.Agrees True (TableDraft.Alike Q) (readColumn settings enums t body)
      (readColumn settings enums t' body') := by
  have hrequired : (body.get "is_not_null").Alike (body'.get "is_not_null") := h.get (by decide)
  have hconstraints : (body.get "constraints").Alike (body'.get "constraints") := h.get (by decide)
  unfold readColumn
  rw [ht.name_eq, hrequired.truthy_eq]
  refine (agrees_liftM (Node.require_obj_agrees_eq h (by decide) (by decide) fun _ => rfl)).bind_eq
    fun name => ?_
  refine .ite ?_ (agrees_error rfl) ?_
  · have hcolumn := ht.column? name
    generalize t.column? name = column at hcolumn
    generalize t'.column? name = column' at hcolumn
    cases hcolumn <;> rfl
  · refine (agrees_liftM (Node.require_obj_agrees h (by decide) fun _ => rfl)).bind
      fun type type' htype => ?_
    rw [TypeName.ofJson_eq htype]
    refine (agrees_liftM (Target.ofTypeName_plain (TypeName.ofJson_plain type) enums _).agrees).bind_eq
      fun target => ?_
    refine .optional Iff.rfl (fun h => (agrees_mark fun _ => ⟨rfl, rfl⟩).bind_eq fun _ => h) ?_
    refine (agrees_liftM hconstraints.elementsOrNone).bind fun constraints constraints' hcs => ?_
    refine (agrees_foldlM hcs ⟨ht, .mk .none .nil⟩ fun draft draft' _ _ hdraft hc =>
      columnConstraint_agrees settings hdraft.1 hdraft.2 hc).bind fun draft draft' hdraft => ?_
    obtain ⟨table, column⟩ := draft
    obtain ⟨table', column'⟩ := draft'
    obtain ⟨⟨hposition, hcolumns, hchecks⟩, hcolumn⟩ := hdraft
    exact (agrees_record fun _ => ⟨rfl, rfl⟩).bind_eq fun _ =>
      agrees_pure (.mk hposition (List.rel_append hcolumns (.cons hcolumn .nil)) hchecks)

theorem readElement_agrees (enums : EnumRegistry) {t t' : TableDraft} (ht : t.Alike Q t')
    (kind : String) {body body' : Members} (h : body.Alike body') :
    Traced.Agrees True (TableDraft.Alike Q) (readElement settings enums t kind body)
      (readElement settings enums t' kind body') := by
  refine .ite Iff.rfl (readColumn_agrees settings enums ht h) ?_
  rw [ht.name_eq]
  exact (agrees_liftM (Lenient.toRead_plain _).agrees).bind_eq fun _ =>
    (agrees_mark fun _ => ⟨rfl, rfl⟩).bind_eq fun _ => agrees_pure ht

theorem readElements_agrees (enums : EnumRegistry) {t t' : TableDraft} (ht : t.Alike Q t')
    {aside aside' : List Members} (haside : List.Forall₂ Members.Alike aside aside')
    {elements elements' : List Json} (h : List.Forall₂ Json.Alike elements elements') :
    Traced.Agrees True (fun a b => a.1.Alike Q b.1 ∧ List.Forall₂ Members.Alike a.2 b.2)
      (readElements settings enums t aside elements)
      (readElements settings enums t' aside' elements') := by
  induction h generalizing t t' aside aside' with
  | nil => exact agrees_pure ⟨ht, haside⟩
  | cons helement _ ih =>
    rw [readElements, readElements]
    refine (agrees_liftM (Node.unwrap_agrees helement)).bind fun node node' hnode => ?_
    obtain ⟨kind, body⟩ := node
    obtain ⟨kind', body'⟩ := node'
    obtain ⟨hkind, hbody⟩ := hnode
    obtain rfl : kind' = kind := hkind
    refine .ite Iff.rfl (ih ht (List.rel_append haside (.cons hbody .nil))) ?_
    exact (readElement_agrees settings enums ht _ hbody).bind fun _ _ ht => ih ht haside

theorem parentNames_agrees {relations relations' : Json} (h : relations.Alike relations') :
    Read.Agrees True Eq (parentNames relations) (parentNames relations') := by
  have hname : ∀ r r' : Json, r.Alike r' → Read.Agrees True Eq
      (do
        let range := ((← r.members).find? "RangeVar").getD (.obj [])
        return ((← range.members).find? "relname").getD (.str "?") : Read Json)
      (do
        let range := ((← r'.members).find? "RangeVar").getD (.obj [])
        return ((← range.members).find? "relname").getD (.str "?")) := by
    intro r r' hr
    refine hr.members.bind fun ms ms' hms => ?_
    have hrange := Json.Alike.getD (hms.find "RangeVar" (by decide)) (.refl (.obj []))
    refine hrange.members.bind fun inner inner' hinner => .ok ?_
    rw [hinner.plain "relname" (by decide) (by decide)]
  refine h.elements.bind fun rs rs' hrs => ?_
  refine (agrees_mapM hrs hname).bind fun names names' hnames => ?_
  rw [List.forall₂_eq_eq_eq] at hnames
  subst hnames
  exact (Node.join_plain _ _).agrees

theorem markSerial_agrees {t t' : TableDraft} (ht : t.Alike Q t') :
    Traced.Agrees True Eq (markSerial t) (markSerial t') := by
  obtain ⟨_, hcolumns, _⟩ := ht
  refine agrees_forM hcolumns fun c c' hc => ?_
  obtain ⟨_, _⟩ := hc
  exact .ite Iff.rfl (agrees_mark fun _ => ⟨rfl, rfl⟩) (agrees_pure rfl)

/-- **A table is read in the same way in every layout.** -/
theorem readParts_agrees (enums : EnumRegistry) {t t' : TableDraft} (ht : t.Alike Q t')
    {body body' : Members} (h : body.Alike body') :
    Traced.Agrees True (TableDraft.Alike Q) (readParts settings enums t body)
      (readParts settings enums t' body') := by
  have hpartition : (body.get "partspec").Alike (body'.get "partspec") := h.get (by decide)
  have hparents : (body.get "inhRelations").Alike (body'.get "inhRelations") := h.get (by decide)
  have helements : (body.get "tableElts").Alike (body'.get "tableElts") := h.get (by decide)
  unfold readParts
  dsimp only
  rw [ht.name_eq, hpartition.truthy_eq, hparents.truthy_eq]
  refine .optional Iff.rfl (fun h => (agrees_liftM (Lenient.toRead_plain _).agrees).bind_eq fun _ =>
    (agrees_mark fun _ => ⟨rfl, rfl⟩).bind_eq fun _ => h) ?_
  refine .optional Iff.rfl (fun h => (agrees_liftM (parentNames_agrees hparents)).bind_eq fun _ =>
    (agrees_liftM (Lenient.toRead_plain _).agrees).bind_eq fun _ =>
      (agrees_mark fun _ => ⟨rfl, rfl⟩).bind_eq fun _ => h) ?_
  refine (agrees_liftM helements.elementsOrNone).bind fun elements elements' hes => ?_
  refine (readElements_agrees settings enums ht .nil hes).bind fun draft draft' hdraft => ?_
  refine (agrees_foldlM hdraft.2 hdraft.1 fun _ _ _ _ ht hbody =>
    tableConstraint_agrees settings ht hbody).bind fun table table' htable => ?_
  refine (markSerial_agrees htable).bind_eq fun _ => (agrees_record fun _ => ⟨rfl, ?_⟩).bind_eq
    fun _ => agrees_pure htable
  obtain ⟨_, hcolumns, _⟩ := htable
  rw [hcolumns.length_eq]

end StrictDdl
