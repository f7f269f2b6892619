import StrictDdl.Proofs.Conversion
import StrictDdl.Proofs.Document.Resolution

/-! The referential actions of a script that is regenerated from a schema document.

A column refers to what its property refers to, and the actions of the property follow in upper
case, whatever they say (`Document.script_references`). Neither that there is a script nor its
markers nor anything else in it depends on the actions (`Document.script_withoutActions`). So a
script has known actions only exactly if every property that refers to a column has actions that
are known in upper case (`Convert.actions_known_iff`). -/
namespace StrictDdl

/-! ### Known actions -/

/-- The text is the keyword of an action. -/
def FkAction.IsKeyword (text : String) : Prop := ∃ a : FkAction, text = a.keyword

namespace Ddl

/-- The actions of the reference are actions that there are. -/
def Reference.ActionsKnown (r : Reference) : Prop :=
  ∀ text, r.onDelete = some text ∨ r.onUpdate = some text → FkAction.IsKeyword text

def ColumnDef.ActionsKnown (c : ColumnDef) : Prop :=
  ∀ r, c.references = some r → r.ActionsKnown

/-- The columns that a script defines. -/
def Script.columns (s : Script) : List ColumnDef :=
  s.blocks.flatMap fun b => (b.table.map CreateTable.columns).getD []

end Ddl

namespace Property

/-- The reference of a property to a column, with its actions as they are written. -/
def reference? (p : Property) : Option Ddl.Reference :=
  p.columnRef?.map fun (table, column) =>
    ⟨table, column, Document.writtenAction p.onDelete, Document.writtenAction p.onUpdate⟩

/-- The actions of the property are empty or, in upper case, actions that there are. -/
def ActionsKnown (p : Property) : Prop :=
  ∀ text, p.onDelete = some text ∨ p.onUpdate = some text →
    text = "" ∨ FkAction.IsKeyword (LetterCase.upper text)

end Property

/-- The properties of the columns of a document. -/
def Document.columns (d : Document) : List Property :=
  d.properties.flatMap fun (_, t) => t.properties.map Prod.snd

theorem Document.writtenAction_eq_some_iff {a : Option String} {text : String} :
    writtenAction a = some text ↔ ∃ s, a = some s ∧ s ≠ "" ∧ LetterCase.upper s = text := by
  simp only [writtenAction, Option.map_eq_some_iff, Option.filter_eq_some_iff, decide_eq_true_eq,
    and_assoc]

theorem Document.writtenAction_known_iff {a : Option String} :
    (∀ text, writtenAction a = some text → FkAction.IsKeyword text) ↔
      ∀ s, a = some s → s = "" ∨ FkAction.IsKeyword (LetterCase.upper s) := by
  constructor
  · intro hknown s hs
    by_cases hempty : s = ""
    · exact .inl hempty
    · exact .inr (hknown _ (writtenAction_eq_some_iff.2 ⟨s, hs, hempty, rfl⟩))
  · intro hknown text htext
    obtain ⟨s, hs, hne, rfl⟩ := writtenAction_eq_some_iff.1 htext
    exact (hknown s hs).resolve_left hne

/-- What is written is known exactly if what it is written from is. -/
theorem Property.actionsKnown_iff {p : Property} {column : Ddl.ColumnDef}
    (h : column.references = p.reference?) :
    (p.columnRef?.isSome → p.ActionsKnown) ↔ column.ActionsKnown := by
  rw [Ddl.ColumnDef.ActionsKnown, h, reference?]
  cases p.columnRef? with
  | none => simp
  | some key =>
    simp only [Option.isSome_some, Option.map_some, Option.some.injEq, forall_eq', true_imp_iff,
      Ddl.Reference.ActionsKnown, ActionsKnown, or_imp, forall_and,
      Document.writtenAction_known_iff]

/-! ### What is written -/

/-- A column whose clauses end with its reference. -/
theorem Ddl.ColumnDef.text_of_references {c : ColumnDef} {r : Reference}
    (hreferences : c.references = some r) (hguards : c.guards = []) (hchecks : c.checks = []) :
    c.text = { c with references := none }.text ++ " " ++ r.text := by
  have hclauses : c.clauses = { c with references := none }.clauses ++ [r.text] := by
    simp [clauses, hreferences, hguards, hchecks]
  show String.intercalate " " (_ :: _ :: c.clauses) = _
  rw [hclauses, ← List.cons_append, ← List.cons_append,
    String.intercalate_append_of_ne_nil (List.cons_ne_nil _ _) (List.cons_ne_nil _ _),
    String.intercalate_singleton]
  rfl

namespace Document

variable {settings : Settings} {d : Document}

/-- A property and the column that is written for it: the column refers to what the property
does, and its definition ends with that. -/
structure RefersAs (p : Property) (column : Ddl.ColumnDef) : Prop where
  references : column.references = p.reference?
  text : ∀ r, column.references = some r →
    column.text = { column with references := none }.text ++ " " ++ r.text

/-- What is said about a path of no known form. -/
def pathNote (table name : String) (p : Property) : Traced Unit :=
  match p.path? with
  | some path =>
    if (RefKey.ofPath? path).isNone then
      Traced.drop (.unresolved "$ref" (table ++ "." ++ name) ("unrecognised reference " ++ path))
    else pure ()
  | none => pure ()

/-- A column is its storage, its path and its clauses; only the last of these sees its actions. -/
theorem column_eq (d : Document) (table : String) (required : Bool) (name : String)
    (p : Property) : d.column table required name p = do
      let type ← d.storage table name
      pathNote table name p
      return {
        name
        type
        primaryKey := if p.primaryKey = some true then
          some (type = "INTEGER" && p.columnRef?.isNone) else none
        notNull := required
        references := p.reference? } := by
  unfold Document.column pathNote
  refine bind_congr fun type => ?_
  cases p.path? with
  | none => rfl
  | some path =>
    dsimp only
    split
    · rfl
    · rfl

theorem refersAs_of_column {table name : String} {required : Bool} {p : Property}
    {column : Ddl.ColumnDef} (h : (d.column table required name p).outcome = .ok column) :
    RefersAs p column := by
  rw [column_eq] at h
  obtain ⟨type, _, h⟩ := Traced.bind_eq_ok_iff.1 h
  obtain ⟨_, _, h⟩ := Traced.bind_eq_ok_iff.1 h
  obtain rfl := Except.ok.inj h
  exact ⟨rfl, fun r hr => Ddl.ColumnDef.text_of_references hr rfl rfl⟩

theorem refersAs_of_block {name : String} {t : TableSchema} {block : Ddl.Block}
    (h : (d.block name t).outcome = .ok block) :
    List.Forall₂ RefersAs (t.properties.map Prod.snd)
      ((block.table.map Ddl.CreateTable.columns).getD []) := by
  unfold Document.block at h
  dsimp only at h
  split at h
  · cases h
  · split at h
    · rename_i hempty
      obtain ⟨_, _, h⟩ := Traced.bind_eq_ok_iff.1 h
      obtain rfl := Except.ok.inj h
      rw [List.isEmpty_iff.1 hempty]
      exact .nil
    · obtain ⟨columns, hcolumns, h⟩ := Traced.bind_eq_ok_iff.1 h
      obtain rfl := Except.ok.inj h
      rw [List.forall₂_map_left_iff]
      exact (Traced.mapM_eq_ok_iff.1 hcolumns).imp fun _ _ => refersAs_of_column

/-- **The columns of a script refer to what the properties of the document do**, in order. -/
theorem script_references {script : Ddl.Script} (h : (d.script settings).outcome = .ok script) :
    List.Forall₂ RefersAs d.columns script.columns := by
  unfold Document.script at h
  obtain ⟨blocks, hblocks, h⟩ := Traced.bind_eq_ok_iff.1 h
  obtain ⟨_, _, h⟩ := Traced.bind_eq_ok_iff.1 h
  obtain rfl := Except.ok.inj h
  exact List.rel_flatMap (Traced.mapM_eq_ok_iff.1 hblocks) fun _ _ => refersAs_of_block

end Document

/-! ### Without actions -/

namespace Ddl

def Reference.withoutActions (r : Reference) : Reference := ⟨r.table, r.column, none, none⟩

def ColumnDef.withoutActions (c : ColumnDef) : ColumnDef :=
  { c with references := c.references.map Reference.withoutActions }

def CreateTable.withoutActions (t : CreateTable) : CreateTable :=
  { t with columns := t.columns.map ColumnDef.withoutActions }

def Block.withoutActions (b : Block) : Block :=
  { b with table := b.table.map CreateTable.withoutActions }

def Script.withoutActions (s : Script) : Script :=
  { s with blocks := s.blocks.map Block.withoutActions }

end Ddl

def Property.withoutActions (p : Property) : Property :=
  { p with onDelete := none, onUpdate := none }

def TableSchema.withoutActions (t : TableSchema) : TableSchema :=
  { t with properties := t.properties.map fun (name, p) => (name, p.withoutActions) }

def Document.withoutActions (d : Document) : Document :=
  { d with
    defs := d.defs.map fun defs => defs.map fun (name, p) => (name, p.withoutActions)
    properties := d.properties.map fun (name, t) => (name, t.withoutActions) }

namespace Traced

variable {α β γ δ : Type}

/-- Steps that are taken for changed items and end with changed values. -/
theorem mapM_map_eq {f : α → Traced β} {g : γ → Traced δ} {u : α → γ} {w : β → δ}
    (h : ∀ a, g (u a) = w <$> f a) (as : List α) :
    (as.map u).mapM g = List.map w <$> as.mapM f := by
  induction as with
  | nil => simp
  | cons a as ih => simp [ih, h, map_bind]

theorem map_sets_iff {step : Traced α} {f : α → β} {b : β} {markers : List Marker} :
    (f <$> step).Sets b markers ↔ ∃ a, step.Sets a markers ∧ f a = b := by
  rw [map_eq_pure_bind, bind_sets_iff]
  constructor
  · rintro ⟨a, first, rest, ha, hb, rfl⟩
    obtain ⟨rfl, rfl⟩ := pure_sets_iff.1 hb
    exact ⟨a, by rwa [List.append_nil], rfl⟩
  · rintro ⟨a, ha, rfl⟩
    exact ⟨a, markers, [], ha, ⟨rfl, rfl⟩, (List.append_nil _).symm⟩

end Traced

namespace Document

variable {settings : Settings} {d : Document}

theorem find?_withoutActions (d : Document) (k : RefKey) :
    d.withoutActions.find? k = (d.find? k).map Property.withoutActions := by
  cases k with
  | column table column =>
    rw [find?, find?, property?, property?, table?, table?, withoutActions, lookup_map_values,
      Option.map_bind, Option.bind_map]
    congr 1
    funext t
    exact lookup_map_values Property.withoutActions t.properties column
  | definition name =>
    rw [find?, find?, definition?, definition?, withoutActions]
    cases d.defs with
    | none => rfl
    | some defs => exact lookup_map_values Property.withoutActions defs name

/-- The end of a chain without its actions. -/
def ChainEnd.withoutActions : ChainEnd → ChainEnd
  | .property p => .property p.withoutActions
  | .missing => .missing
  | .unrecognised => .unrecognised

/-- The same key follows, or the same end without its actions. -/
theorem refStep_withoutActions (d : Document) (k : RefKey) :
    Walk.StepRel (fun e e' => e' = e.withoutActions) (d.refStep k)
      (d.withoutActions.refStep k) := by
  have hfind' := find?_withoutActions d k
  cases hfind : d.find? k with
  | none =>
    rw [hfind, Option.map_none] at hfind'
    rw [refStep_of_none hfind, refStep_of_none hfind']
    exact .stop rfl
  | some p =>
    rw [hfind, Option.map_some] at hfind'
    cases hpath : p.path? with
    | none =>
      rw [refStep_of_no_path hfind hpath, refStep_of_no_path hfind' hpath]
      exact .stop rfl
    | some path =>
      cases hkey : RefKey.ofPath? path with
      | none =>
        rw [refStep_of_unrecognised hfind hpath hkey, refStep_of_unrecognised hfind' hpath hkey]
        exact .stop rfl
      | some next =>
        rw [refStep_of_path hfind hpath hkey, refStep_of_path hfind' hpath hkey]
        exact .go next

theorem storage_withoutActions (d : Document) (table column : String) :
    d.withoutActions.storage table column = d.storage table column := by
  have hrun : Walk.ArrivalRel (fun e e' => e' = e.withoutActions)
      (d.references.run (.column table column))
      (d.withoutActions.references.run (.column table column)) :=
    Walk.run_rel (refStep_withoutActions d) _
  rw [storage, storage]
  generalize d.references.run (.column table column) = arrival at hrun
  generalize d.withoutActions.references.run (.column table column) = arrival' at hrun
  cases hrun with
  | cycle path => rfl
  | @arrived path e e' he =>
    subst he
    cases e <;> rfl

theorem column_withoutActions (d : Document) (table : String) (required : Bool) (name : String)
    (p : Property) : d.withoutActions.column table required name p.withoutActions =
      Ddl.ColumnDef.withoutActions <$> d.column table required name p := by
  have hreference : p.withoutActions.reference? =
      p.reference?.map Ddl.Reference.withoutActions := by
    rw [Property.reference?, Property.reference?, Option.map_map]
    rfl
  rw [column_eq, column_eq, storage_withoutActions, hreference]
  simp only [map_bind, map_pure]
  rfl

theorem block_withoutActions (d : Document) (name : String) (t : TableSchema) :
    d.withoutActions.block name t.withoutActions =
      Ddl.Block.withoutActions <$> d.block name t := by
  have hmissing : (t.withoutActions.required.filter fun column =>
      (t.withoutActions.properties.lookup column).isNone) =
        t.required.filter fun column => (t.properties.lookup column).isNone := by
    refine List.filter_congr fun column _ => ?_
    rw [TableSchema.withoutActions, lookup_map_values, Option.isNone_map]
  have hempty : t.withoutActions.properties.isEmpty = t.properties.isEmpty := List.isEmpty_map
  have hcolumns : (t.withoutActions.properties.mapM fun (column, p) =>
      d.withoutActions.column name (t.withoutActions.required.contains column) column p) =
        List.map Ddl.ColumnDef.withoutActions <$> t.properties.mapM fun (column, p) =>
          d.column name (t.required.contains column) column p :=
    Traced.mapM_map_eq (fun entry => column_withoutActions d name _ entry.1 entry.2) _
  unfold Document.block
  rw [hmissing, hempty, hcolumns]
  dsimp only
  split
  · rfl
  · split
    · rfl
    · simp only [map_bind, map_pure, bind_map_left]
      rfl

/-- **The script of a document without actions is that of the document without actions.** -/
theorem script_withoutActions (settings : Settings) (d : Document) :
    d.withoutActions.script settings = Ddl.Script.withoutActions <$> d.script settings := by
  have hblocks : (d.withoutActions.properties.mapM fun (name, t) => d.withoutActions.block name t) =
      List.map Ddl.Block.withoutActions <$> d.properties.mapM fun (name, t) => d.block name t :=
    Traced.mapM_map_eq (fun entry => block_withoutActions d entry.1 entry.2) _
  have hindexes : (d.withoutActions.properties.flatMap fun (name, t) => indexes settings name t) =
      d.properties.flatMap fun (name, t) => indexes settings name t := by
    rw [withoutActions, List.flatMap_map]
    refine congrArg (List.flatMap · d.properties) (funext fun entry => ?_)
    exact List.filterMap_map
  unfold Document.script
  rw [hblocks, hindexes]
  simp only [map_bind, map_pure, bind_map_left, List.length_map]
  rfl

/-- Documents that differ in their actions only have scripts that do, with the same markers. -/
theorem script_sets_of_withoutActions {d' : Document} {script : Ddl.Script}
    {markers : List Marker} (h : (d.script settings).Sets script markers)
    (hsame : d'.withoutActions = d.withoutActions) :
    ∃ script', (d'.script settings).Sets script' markers ∧
      script'.withoutActions = script.withoutActions := by
  have hwithout : (Ddl.Script.withoutActions <$> d.script settings).Sets script.withoutActions
      markers := Traced.map_sets_iff.2 ⟨script, h, rfl⟩
  rw [← script_withoutActions, ← hsame, script_withoutActions] at hwithout
  exact Traced.map_sets_iff.1 hwithout

end Document

namespace Convert

/-- **A script has known actions only exactly if its document asks for no others.** The columns
refer to what the properties do, with their actions in upper case. Other actions would leave
everything else in the script and its markers as they are, so no action is refused and none is
left out with a marker. -/
theorem actions_known_iff {settings : Settings} {source : Json} {r : Converted Ddl.Script}
    (h : (render settings source).outcome = .ok r) :
    ∃ d, Document.load source = .ok d ∧
      List.Forall₂ Document.RefersAs d.columns r.output.columns ∧
      ((∀ column ∈ r.output.columns, column.ActionsKnown) ↔
        ∀ p ∈ d.columns, p.columnRef?.isSome → p.ActionsKnown) ∧
      ∀ d' : Document, d'.withoutActions = d.withoutActions → ∃ script,
        (d'.script settings).Sets script r.markers ∧
          script.withoutActions = r.output.withoutActions := by
  obtain ⟨d, hd, hscript, hmarkers⟩ := render_eq_ok_iff.1 h
  have hcolumns := Document.script_references hscript
  refine ⟨d, hd, hcolumns, ?_, fun d' => Document.script_sets_of_withoutActions ⟨hscript, hmarkers⟩⟩
  exact (forall_mem_iff_of_forall₂ hcolumns fun p _ column hcolumn =>
    Property.actionsKnown_iff hcolumn.references).symm

end Convert

/-- A document whose visits refer to persons by an action that there is not. -/
def Sample.visits : Json :=
  .obj [("properties", .obj [
    ("person", .obj [("properties", .obj [
      ("id", .obj [("type", .str "integer"), ("$primaryKey", .bool true)])])]),
    ("visit", .obj [("properties", .obj [
      ("person", .obj [("$ref", .str "#/properties/person/properties/id"),
        ("$onDelete", .str "archive")])])])])]

/-- The action is written, and no marker tells. -/
theorem Convert.visits_unmarked : ∃ r, (render {} Sample.visits).outcome = .ok r ∧
    r.markers = [] ∧
    r.output.columns.map Ddl.ColumnDef.text = ["id INTEGER PRIMARY KEY AUTOINCREMENT",
      "person INTEGER REFERENCES person(id) ON DELETE ARCHIVE"] ∧
    ∃ d, Document.load Sample.visits = .ok d ∧
      List.Forall₂ Document.RefersAs d.columns r.output.columns ∧
      (¬ ∀ p ∈ d.columns, p.columnRef?.isSome → p.ActionsKnown) ∧
      ∀ d' : Document, d'.withoutActions = d.withoutActions → ∃ script,
        (d'.script {}).Sets script r.markers ∧
          script.withoutActions = r.output.withoutActions := by
  have hview : (do
      let r ← (render {} Sample.visits).outcome
      return (r.markers, r.output.columns.map Ddl.ColumnDef.text,
        r.output.columns.map Ddl.ColumnDef.references) : Read _).toOption =
          some ([], ["id INTEGER PRIMARY KEY AUTOINCREMENT",
            "person INTEGER REFERENCES person(id) ON DELETE ARCHIVE"],
            [none, some ⟨"person", "id", some "ARCHIVE", none⟩]) := by decide +kernel
  obtain ⟨r, hr, hparts⟩ := Read.bind_eq_ok_iff.1 (Read.eq_ok_of_toOption hview)
  have hparts := Except.ok.inj hparts
  simp only [Prod.mk.injEq] at hparts
  obtain ⟨hmarkers, htexts, hreferences⟩ := hparts
  have hunknown : ¬ ∀ column ∈ r.output.columns, column.ActionsKnown := by
    intro hknown
    have hmem : some ⟨"person", "id", some "ARCHIVE", none⟩ ∈
        r.output.columns.map Ddl.ColumnDef.references := by simp [hreferences]
    obtain ⟨column, hcolumn, heq⟩ := List.mem_map.1 hmem
    obtain ⟨a, ha⟩ := hknown column hcolumn _ heq "ARCHIVE" (.inl rfl)
    revert ha
    cases a <;> decide
  obtain ⟨d, hd, hcolumns, hiff, hothers⟩ := actions_known_iff hr
  exact ⟨r, hr, hmarkers, htexts, d, hd, hcolumns, mt hiff.2 hunknown, hothers⟩

end StrictDdl
