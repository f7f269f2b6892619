import StrictDdl.Proofs.Layout

/-! Constructs without a counterpart never end a conversion.

Whoever reads or writes a part that has no counterpart keeps what there was and sets a marker
(`Traced.Recovers`), or passes a call on as it is. So whatever the tree, a conversion that fails
with an error of its own fails on the structure of the tree (`Convert.unsupported_handled`). -/
namespace StrictDdl

open Read Traced

namespace Fault

/-- Whether the input breaks a rule that every input has to keep. -/
def isStructural : Fault → Bool
  | .structural _ _ | .cyclic _ | .invalidDocument _ => true
  | _ => false

/-- Whether the fault is an error of a conversion, and not one of the data behind it. -/
def isTranslation (fault : Fault) : Bool := fault.isStructural || fault.isUnsupported

end Fault

/-- The reading meets a construct without a counterpart. -/
def Read.Raises {α : Type} (r : Read α) : Prop :=
  ∃ fault, r = .error fault ∧ fault.isUnsupported = true

/-- The value is a text, as every name has to be. -/
def Json.IsText (j : Json) : Prop := ∃ s, j = .str s

/-- The step keeps what there was and sets one marker for a construct without a counterpart. Only
where a name that the marker shows is no text it fails, and then on that name. -/
inductive Traced.Recovers {α : Type} (named : Prop) (kept : α) : Traced α → Prop where
  | marked (place : Place) {marker : Marker} : marker.kind = .unsupportedConstruct →
    Recovers named kept ⟨.ok kept, [⟨place, .marked marker⟩]⟩
  | dropped {marker : Marker} : marker.kind = .unsupportedConstruct →
    Recovers named kept ⟨.ok kept, [⟨{}, .dropped marker⟩]⟩
  | failed {fault : Fault} : ¬ named → fault.isTranslation = false →
    Recovers named kept ⟨.error fault, []⟩

theorem Traced.liftM_ok_bind {α β : Type} (a : α) (next : α → Traced β) :
    (liftM (.ok a : Read α) >>= next : Traced β) = next a := rfl

/-! ### Reading -/

section Reading

variable (place : Place) {entity : Json} {body : Members} {table : TableDraft}
  {column : ColumnDraft}

/-- A marker that shows a name is set if the name is a text. -/
theorem Traced.recovers_mark {α : Type} {named : Prop} (kept : α) {name : Read String}
    {marker : String → Marker}
    (hname : name.Fails fun fault => ¬ named ∧ fault.isTranslation = false)
    (hkind : ∀ s, (marker s).kind = .unsupportedConstruct) :
    Recovers named kept (do Traced.mark place (marker (← name)); return kept) := by
  cases name with
  | ok s => exact .marked place (hkind s)
  | error fault =>
    obtain ⟨hnamed, hfault⟩ := hname fault rfl
    exact .failed hnamed hfault

theorem Marker.readEntity_fails (j : Json) :
    (Marker.readEntity j).Fails fun fault => ¬ j.IsText ∧ fault.isTranslation = false := by
  cases j with
  | str s => exact fails_ok s
  | _ => exact fails_error ⟨by rintro ⟨s, ⟨⟩⟩, rfl⟩

theorem Node.join_fails (separator : String) (names : List Json) :
    (Node.join separator names).Fails fun fault =>
      (¬ ∀ j ∈ names, j.IsText) ∧ fault.isTranslation = false := by
  refine Fails.bind (fails_mapM_of_mem fun j hj => ?_) fun _ => fails_ok _
  cases j with
  | str s => exact fails_ok s
  | _ =>
    refine fails_error ⟨fun htexts => ?_, rfl⟩
    obtain ⟨s, hs⟩ := htexts _ hj
    cases hs

/-- A check that cannot be written in the source dialect. -/
theorem readCheck_recovers (h : (CheckDraft.ofConstraint body entity).Raises) :
    Recovers entity.IsText none (readCheck place entity body) := by
  obtain ⟨fault, hcheck, hfault⟩ := h
  have hsupported := (CheckDraft.ofConstraint_agrees (.refl body) entity).fails fault hcheck
  unfold readCheck
  rw [hcheck]
  cases fault with
  | unrenderable kind dialect =>
    exact recovers_mark place none (Marker.readEntity_fails entity) fun _ => rfl
  | unsupported construct detail => exact absurd rfl (hsupported construct detail)
  | _ => cases hfault

/-- A default that cannot be written in the source dialect. -/
theorem readDefault_recovers {source : Json}
    (hsource : Node.require (.obj body) "raw_expr" (.str column.entity) = .ok source)
    (h : (Default.classify (.ofJson source)).Raises) :
    Recovers True column.default (readDefault place column body) := by
  obtain ⟨fault, hclass, hfault⟩ := h
  have hsupported := Default.classify_supported (Expr.ofJson_plain source) fault hclass
  unfold readDefault
  rw [hsource, liftM_ok_bind, hclass]
  cases fault with
  | unrenderable kind dialect => exact .marked place rfl
  | unsupported construct detail => exact absurd rfl (hsupported construct detail)
  | _ => cases hfault

/-- A reference of several columns behind a column. -/
theorem columnReference_recovers (settings : Settings)
    (h : (ForeignKey.Draft.ofConstraint body (.str column.entity)).Raises) :
    Recovers True (table, column)
      (applyColumnConstraint settings place table column body .reference) := by
  obtain ⟨fault, hdraft, hfault⟩ := h
  obtain ⟨detail, rfl⟩ := ForeignKey.Draft.ofConstraint_fails body _ fault hdraft hfault
  rw [applyColumnConstraint, hdraft]
  exact .marked place rfl

/-- A reference of several columns among those of a table. -/
theorem tableReference_recovers (settings : Settings) {attributes : Json} {sources : List Json}
    (hattributes : Node.require (.obj body) "fk_attrs" table.name = .ok attributes)
    (hsources : Node.strings attributes = .ok sources)
    (h : (ForeignKey.Draft.ofConstraint body table.name).Raises) :
    Recovers (table.name.IsText ∧ ∀ j ∈ sources, j.IsText) table
      (applyTableConstraint settings place table body .reference) := by
  obtain ⟨fault, hdraft, hfault⟩ := h
  obtain ⟨detail, rfl⟩ := ForeignKey.Draft.ofConstraint_fails body _ fault hdraft hfault
  have hjoin := Node.join_fails ", " sources
  have hname : (Marker.readEntity table.name).Fails fun fault =>
      ¬ (table.name.IsText ∧ ∀ j ∈ sources, j.IsText) ∧ fault.isTranslation = false :=
    (Marker.readEntity_fails table.name).mono fun _ h => ⟨fun htexts => h.1 htexts.1, h.2⟩
  rw [applyTableConstraint, hattributes, liftM_ok_bind, hsources, liftM_ok_bind, hdraft]
  dsimp only
  generalize Node.join ", " sources = shown at hjoin
  cases shown with
  | error fault =>
    obtain ⟨hsource, hfault⟩ := hjoin fault rfl
    exact .failed (fun htexts => hsource htexts.2) hfault
  | ok shown => exact recovers_mark place table hname fun _ => rfl

end Reading

/-! ### Writing -/

section Writing

variable (entity : String)

/-- A check that cannot be written in the target dialect. -/
theorem CheckConstraint.clause_recovers {c : CheckConstraint} (hc : c.node.Plain)
    (h : (c.node.text .sqlite).Raises) : Recovers True none (c.clause entity) := by
  obtain ⟨fault, htext, hfault⟩ := h
  have hsupported := Expr.text_supported .sqlite hc fault htext
  unfold CheckConstraint.clause
  rw [htext]
  cases fault with
  | unrenderable kind dialect => exact .dropped rfl
  | unsupported construct detail => exact absurd rfl (hsupported construct detail)
  | _ => cases hfault

/-- A computed default that cannot be written in the target dialect: a call passes as it is. -/
theorem Column.defaultClause_recovers {c : Column} {d : Computed} {e : Expr}
    (hdefault : c.default = some (.computed d)) (hnode : d.node = some e) (he : e.Plain)
    (hunknown : d.function.bind Sql.computed? = none) (h : (e.text .sqlite).Raises) :
    Recovers True none (c.defaultClause entity) ∨
      c.defaultClause entity = pure (some (.computed d.expression)) := by
  obtain ⟨fault, htext, hfault⟩ := h
  have hsupported := Expr.text_supported .sqlite he fault htext
  cases fault with
  | unsupported construct detail => exact absurd rfl (hsupported construct detail)
  | unrenderable kind dialect =>
    have htarget : d.target? = .ok (if d.kind = .call then some d.expression else none) := by
      unfold Computed.target?
      rw [hunknown, hnode]
      dsimp only
      rw [htext]
    unfold Column.defaultClause
    rw [hdefault]
    dsimp only
    rw [htarget, liftM_ok_bind]
    by_cases hcall : d.kind = .call
    · rw [if_pos hcall]
      exact .inr rfl
    · rw [if_neg hcall]
      exact .inl (.dropped rfl)
  | _ => cases hfault

end Writing

/-! ### Conversions -/

theorem CheckConstraint.Alike.node_plain {c c' : CheckConstraint} (h : c.Alike c') :
    c.node.Plain := by
  obtain ⟨hnode⟩ := h
  exact hnode.plain

theorem Default.Alike.node_plain {d : Computed} {default : Default} {e : Expr}
    (h : Default.Alike (.computed d) default) (hnode : d.node = some e) : e.Plain := by
  cases h with
  | computed he =>
    cases hnode
    exact he.plain

/-- The expressions of a model that was read meet constructs without a counterpart only where a
dialect has no form for them. -/
theorem Model.alike_self_of_build {settings : Settings} {tree : Json} {m : Model}
    (h : (build settings tree).outcome = .ok m) : m.Alike Eq m := by
  have hagrees := (Convert.build_agrees_of_alike settings (.sameWrapping (.refl tree))).outcome
  rw [h] at hagrees
  cases hagrees with
  | ok hm => exact hm.alike

namespace Convert

/-- Whoever reads or writes a part that has no counterpart deals with it. -/
structure HandlesUnsupported (settings : Settings) (tree : Json) : Prop where
  check : ∀ (place : Place) (entity : Json) (body : Members),
    (CheckDraft.ofConstraint body entity).Raises →
    Recovers entity.IsText none (readCheck place entity body)
  default : ∀ (place : Place) (column : ColumnDraft) (body : Members) (source : Json),
    Node.require (.obj body) "raw_expr" (.str column.entity) = .ok source →
    (Default.classify (.ofJson source)).Raises →
    Recovers True column.default (readDefault place column body)
  columnReference : ∀ (place : Place) (table : TableDraft) (column : ColumnDraft) (body : Members),
    (ForeignKey.Draft.ofConstraint body (.str column.entity)).Raises →
    Recovers True (table, column)
      (applyColumnConstraint settings place table column body .reference)
  tableReference : ∀ (place : Place) (table : TableDraft) (body : Members) (attributes : Json)
    (sources : List Json), Node.require (.obj body) "fk_attrs" table.name = .ok attributes →
    Node.strings attributes = .ok sources →
    (ForeignKey.Draft.ofConstraint body table.name).Raises →
    Recovers (table.name.IsText ∧ ∀ j ∈ sources, j.IsText) table
      (applyTableConstraint settings place table body .reference)
  /-- The checks of a model, in the target dialect. -/
  clause : ∀ m : Model, (Model.build settings tree).outcome = .ok m → ∀ t ∈ m.tables,
    ∀ c ∈ t.checks ++ t.columns.flatMap Column.checks, ∀ entity : String,
      (c.node.text .sqlite).Raises → Recovers True none (c.clause entity)
  /-- The computed defaults of a model, in the target dialect. A call passes as it is. -/
  defaultClause : ∀ m : Model, (Model.build settings tree).outcome = .ok m → ∀ t ∈ m.tables,
    ∀ c ∈ t.columns, ∀ (entity : String) (d : Computed) (e : Expr),
      c.default = some (.computed d) → d.node = some e → d.function.bind Sql.computed? = none →
      (e.text .sqlite).Raises → Recovers True none (c.defaultClause entity) ∨
        c.defaultClause entity = pure (some (.computed d.expression))

theorem handlesUnsupported (settings : Settings) (tree : Json) :
    HandlesUnsupported settings tree where
  check place _ _ := readCheck_recovers place
  default place _ _ _ := readDefault_recovers place
  columnReference place _ _ _ := columnReference_recovers place settings
  tableReference place _ _ _ _ := tableReference_recovers place settings
  clause m hm t ht c hc entity := by
    have htable := List.forall₂_same.1 (Model.alike_self_of_build hm).tables t ht
    have hcheck : c.Alike c := by
      rcases List.mem_append.1 hc with hc | hc
      · exact List.forall₂_same.1 htable.checks c hc
      · obtain ⟨column, hcolumn, hc⟩ := List.mem_flatMap.1 hc
        exact List.forall₂_same.1 (List.forall₂_same.1 htable.columns column hcolumn).checks c hc
    exact CheckConstraint.clause_recovers entity hcheck.node_plain
  defaultClause m hm t ht c hc entity d e hdefault hnode := by
    have htable := List.forall₂_same.1 (Model.alike_self_of_build hm).tables t ht
    have halike := (List.forall₂_same.1 htable.columns c hc).default
    rw [hdefault] at halike
    obtain ⟨hd⟩ := halike
    exact Column.defaultClause_recovers entity hdefault hnode (hd.node_plain hnode)

/-- **No conversion ever fails for want of a counterpart**: of its own errors, only those about the
structure of the tree end it, and each of the others becomes a marker or is passed on. -/
theorem unsupported_handled (settings : Settings) (tree : Json) :
    (∀ fault, (toDdl settings tree).outcome = .error fault ∨
        (toDocument settings tree).outcome = .error fault →
      fault.isUnsupported = false ∧ (fault.isTranslation = true → fault.isStructural = true)) ∧
      HandlesUnsupported settings tree := by
  refine ⟨fun fault h => ?_, handlesUnsupported settings tree⟩
  have hmodels := build_agrees_of_alike settings (.sameWrapping (.refl tree))
  have hfault : fault.isUnsupported = false := by
    rcases h with h | h
    · refine (toDdl_agrees hmodels ?_).outcome.fails fault h
      rintro p q p' q' rfl rfl
      rfl
    · exact (toDocument_agrees hmodels).outcome.fails fault h
  refine ⟨hfault, fun htranslation => ?_⟩
  rwa [Fault.isTranslation, hfault, Bool.or_false] at htranslation

end Convert

namespace Sample

/-- A constraint whose condition is a query. -/
def queried : Members := [("raw_expr", .obj [("SubLink", .obj [])])]

/-- A table with a check by a query, a default without a counterpart, and a reference of two
columns. -/
def accounts : Json :=
  table "account" [
    column "holder" "text" [constraint "CONSTR_CHECK" queried, constraint "CONSTR_DEFAULT"
      [("raw_expr", .obj [("SQLValueFunction", .obj [("op", .str "SVFOP_CURRENT_USER")])])]],
    column "bank" "int4" [], column "branch" "int4" [],
    constraint "CONSTR_FOREIGN" [("pktable", .obj [("relname", .str "branch")]),
      ("fk_attrs", .arr [name "bank", name "branch"]),
      ("pk_attrs", .arr [name "bank", name "number"])]]

end Sample

/-- Three constructs without a counterpart become three markers. -/
theorem Convert.accounts_handled :
    (toDdl {} Sample.accounts).outcome.toOption.map (fun c => c.markers.map Marker.construct) =
        some ["CHECK", "COMPOSITE FOREIGN KEY", "DEFAULT CURRENT_USER"] ∧
      Recovers (Json.str "account.holder").IsText none
        (readCheck {} (.str "account.holder") Sample.queried) :=
  ⟨by decide +kernel, (unsupported_handled {} Sample.accounts).2.check _ _ _ ⟨_, rfl, rfl⟩⟩

end StrictDdl
