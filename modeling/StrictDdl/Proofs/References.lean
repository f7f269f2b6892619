import StrictDdl.Proofs.RoundTrip

/-! What the references of a schema document are read back as.

A document that is written without a marker for a reference has a path for every reference of
its model, and behind each path is what it was written for. Reading finds it there unless a
name on the path holds a slash, which is read as the start of another name
(`Convert.references_read_iff`). -/
namespace StrictDdl

/-! ### Paths -/

namespace Property

/-- The paths that a property and its items refer to. -/
def paths : Property → List String
  | ⟨keywords, none⟩ => keywords.ref.toList
  | ⟨keywords, some items⟩ => keywords.ref.toList ++ items.paths

theorem paths_eq (p : Property) : p.paths = p.ref.toList ++ (p.items.map paths).getD [] := by
  obtain ⟨keywords, _ | items⟩ := p
  · rw [paths, Option.map_none, Option.getD_none, List.append_nil]
  · rw [paths, Option.map_some, Option.getD_some]

@[simp] theorem written_paths (p : Property) : p.written.paths = p.paths := by
  induction p using paths.induct with
  | case1 keywords => rfl
  | case2 keywords items ih =>
    show keywords.ref.toList ++ items.written.paths = _
    rw [ih, paths]

end Property

namespace Document

/-- All paths of a document, those of its definitions last. -/
def paths (d : Document) : List String :=
  (d.properties.flatMap fun entry => entry.2.properties.flatMap fun entry => entry.2.paths) ++
    (d.defs.getD []).flatMap fun entry => entry.2.paths

theorem written_paths (d : Document) : d.written.paths = d.paths := by
  have hdefs : d.written.defs.getD [] =
      (d.defs.getD []).map fun entry => (entry.1, entry.2.written) := by
    rw [written]
    cases d.defs <;> rfl
  rw [paths, hdefs]
  simp only [written, TableSchema.written, List.flatMap_map, Property.written_paths]
  rfl

end Document

/-- Checks leave it as it is whether the elements of an array are arrays. -/
theorem RuleSet.innermost_withChecks (r : RuleSet) (rules : List ValueRules) :
    (r.withChecks rules).innermost.isArray = r.innermost.isArray := by
  induction rules generalizing r with
  | nil => rfl
  | cons values rules ih =>
    rw [withChecks, List.foldl_cons, ← withChecks, ih]
    obtain ⟨values', _ | _, _ | items⟩ := r <;> rfl

theorem RuleSet.innermost_arrayOf (r : ValueRules) (depth : Nat) :
    ((ofValues r).arrayOf depth).innermost = ofValues r := by
  induction depth with
  | zero => rfl
  | succ depth ih => rw [arrayOf, innermost, ih]

namespace Column

/-- What a column refers to: the column of its foreign key, or the definition of the
enumeration that its values share. -/
def refKey? (enums shared : EnumRegistry) (c : Column) : Option RefKey :=
  match c.foreignKey with
  | some fk => some (.column fk.table fk.column)
  | none => (c.sharedEnum? enums shared c.rules.innermost.values).map .definition

variable {enums shared : EnumRegistry} {c : Column}

/-- One value refers to the enumeration it shares, and it has no items. -/
theorem valueProperty_ref (r : ValueRules) :
    (c.valueProperty enums shared r).ref =
        (c.sharedEnum? enums shared r).map Property.definitionPath ∧
      (c.valueProperty enums shared r).items = none := by
  rw [valueProperty]
  split
  · rename_i name hname
    rw [hname]
    exact ⟨rfl, rfl⟩
  · rename_i hnone
    rw [hnone]
    exact ⟨rfl, rfl⟩

theorem valueProperty_paths (r : ValueRules) : (c.valueProperty enums shared r).paths =
    ((c.sharedEnum? enums shared r).map Property.definitionPath).toList := by
  obtain ⟨href, hitems⟩ := c.valueProperty_ref r
  rw [Property.paths_eq, href, hitems]
  exact List.append_nil _

theorem ruledProperty_paths {r : RuleSet} (h : r.innermost.isArray = false) :
    (c.ruledProperty enums shared r).paths =
      ((c.sharedEnum? enums shared r.innermost.values).map Property.definitionPath).toList := by
  induction r using RuleSet.innermost.induct with
  | case1 values r ih =>
    rw [ruledProperty, Property.paths_eq]
    exact ih h
  | case2 r hitems =>
    obtain ⟨values, _ | _, _ | items⟩ := r
    · exact valueProperty_paths values
    · exact valueProperty_paths values
    · cases h
    · exact absurd rfl (hitems values items)

/-- The paths of a column are those of what it refers to. -/
theorem baseProperty_paths (h : c.rules.innermost.isArray = false) :
    (c.baseProperty enums shared).paths = ((c.refKey? enums shared).map RefKey.path).toList := by
  rw [baseProperty, refKey?]
  cases c.foreignKey with
  | some fk => rfl
  | none =>
    show (c.ruledProperty enums shared c.rules).paths = _
    rw [ruledProperty_paths h, Option.map_map]
    rfl

theorem Sound.innermost_isArray {settings : Settings} (h : c.Sound settings enums) :
    c.rules.innermost.isArray = false := by
  obtain ⟨values, hvalues⟩ := c.target_rules_eq enums
  rw [h.rules, RuleSet.innermost_withChecks, hvalues, RuleSet.innermost_arrayOf]
  rfl

end Column

namespace Model

/-- What a column of a model refers to. -/
def refKey? (settings : Settings) (m : Model) (c : Column) : Option RefKey :=
  c.refKey? m.enums (m.sharedEnums settings.sharedEnumMinRefs)

/-- What the columns of a model refer to, one after another. -/
def refKeys (settings : Settings) (m : Model) : List RefKey :=
  m.tables.flatMap fun t => t.columns.flatMap fun c => (m.refKey? settings c).toList

theorem PropertyOf.paths_eq {m : Model} {shared : EnumRegistry} {table : String} {c : Column}
    {p : Property} (h : m.PropertyOf shared table c p) :
    p.paths = (c.baseProperty m.enums shared).paths := by
  have href : p.ref = (c.baseProperty m.enums shared).ref := congrArg (·.ref) h.eq
  have hitems : p.items = (c.baseProperty m.enums shared).items := congrArg (·.items) h.eq
  rw [Property.paths_eq, href, hitems, ← Property.paths_eq]

variable {settings : Settings} {m : Model} {d : Document}

/-- **A document has the paths of all that its model refers to, and no other.** -/
theorem DocumentOf.paths_eq (h : m.DocumentOf settings d) (hsound : m.Sound settings) :
    d.paths = (m.refKeys settings).map RefKey.path := by
  have hdefs : (d.defs.getD []).flatMap (fun entry => entry.2.paths) = [] := by
    rw [h.defs, List.flatMap_map, List.flatMap_eq_nil_iff]
    intro e _
    rfl
  rw [Document.paths, hdefs, List.append_nil, refKeys, List.map_flatMap, List.flatMap_def,
    List.flatMap_def]
  congr 1
  refine map_eq_of_forall₂ h.tables fun t ht entry hentry => ?_
  rw [List.map_flatMap, List.flatMap_def, List.flatMap_def]
  congr 1
  refine map_eq_of_forall₂ hentry.2.properties fun c hc entry hentry => ?_
  have harray := ((hsound.tables t ht).columns c hc).innermost_isArray
  rw [hentry.2.paths_eq, Column.baseProperty_paths harray, Option.toList_map, refKey?]

end Model

/-! ### What is referred to -/

theorem Traced.not_drop_unresolved {construct entity message : String} :
    ¬ (drop (.unresolved construct entity message)).Without Marker.isUnresolved () := by
  intro h
  cases drop_without_iff.1 h

namespace Model

/-- The references of every column lead to a column that refers to nothing. -/
def Resolved (m : Model) : Prop :=
  ∀ t ∈ m.tables, ∀ c ∈ t.columns, ∃ owner, m.owner t.name c.name = .ok (some owner)

variable {settings : Settings} {m : Model} {d : Document} {shared : EnumRegistry}
  {table : String}

theorem owner_of_referenceProperty {c : Column} {fk : ForeignKey} {p : Property}
    (h : (c.referenceProperty m table fk).Without Marker.isUnresolved p) :
    ∃ owner, m.owner table c.name = .ok (some owner) := by
  unfold Column.referenceProperty at h
  obtain ⟨owner?, howner, h⟩ := Traced.bind_without_iff.1 h
  dsimp only at h
  split at h
  · obtain ⟨_, hdrop, _⟩ := Traced.bind_without_iff.1 h
    exact absurd hdrop Traced.not_drop_unresolved
  · rename_i hsome
    cases owner? with
    | none => exact absurd rfl hsome
    | some owner => exact ⟨owner, howner.1⟩

theorem owner_of_property {c : Column} {p : Property}
    (h : (m.property shared table c).Without Marker.isUnresolved p) (hkey : c.foreignKey.isSome) :
    ∃ owner, m.owner table c.name = .ok (some owner) := by
  obtain ⟨fk, hfk⟩ := Option.isSome_iff_exists.1 hkey
  unfold property at h
  simp only [hfk] at h
  obtain ⟨p', hp', _⟩ := Traced.bind_without_iff.1 h
  exact owner_of_referenceProperty hp'

theorem owner_of_columnProperties {columns : List Column} {properties : List (String × Property)}
    (h : (m.columnProperties shared table columns).Without Marker.isUnresolved properties) :
    ∀ c ∈ columns, c.foreignKey.isSome → ∃ owner, m.owner table c.name = .ok (some owner) := by
  induction columns generalizing properties with
  | nil => simp
  | cons c columns ih =>
    unfold columnProperties at h
    obtain ⟨_, _, h⟩ := Traced.bind_without_iff.1 h
    obtain ⟨p, hp, h⟩ := Traced.bind_without_iff.1 h
    obtain ⟨rest, hrest, _⟩ := Traced.bind_without_iff.1 h
    exact List.forall_mem_cons.2 ⟨owner_of_property hp, ih hrest⟩

/-- **Without a marker for a reference, every reference leads to a column.** -/
theorem resolved_of_document (h : (m.document settings).Without Marker.isUnresolved d)
    (hsound : m.Sound settings) : m.Resolved := by
  unfold document at h
  obtain ⟨_, _, h⟩ := Traced.bind_without_iff.1 h
  obtain ⟨tables, htables, _⟩ := Traced.bind_without_iff.1 h
  intro t ht c hc
  cases hkey : c.foreignKey with
  | none => exact ⟨c, hsound.owner_eq_self ht hc hkey⟩
  | some fk =>
    have hentries := (Traced.withoutEnding _).mapM_iff.1 htables
    obtain ⟨entry, _, hentry⟩ := exists_of_forall₂ hentries ht
    obtain ⟨s, hs, _⟩ := Traced.bind_without_iff.1 hentry
    unfold tableSchema at hs
    obtain ⟨_, _, hs⟩ := Traced.bind_without_iff.1 hs
    obtain ⟨_, _, hs⟩ := Traced.bind_without_iff.1 hs
    obtain ⟨properties, hproperties, _⟩ := Traced.bind_without_iff.1 hs
    exact owner_of_columnProperties hproperties c hc (by rw [hkey]; rfl)

/-- The column that a resolved reference names is there. -/
theorem Resolved.column?_of_key (h : m.Resolved) (hsound : m.Sound settings) {t : Table}
    (ht : t ∈ m.tables) {c : Column} (hc : c ∈ t.columns) {fk : ForeignKey}
    (hkey : c.foreignKey = some fk) : ∃ target, m.column? fk.table fk.column = some target := by
  have hgo : m.referenceStep (t.name, c.name) = .go (fk.table, fk.column) := by
    rw [referenceStep, hsound.column?_eq ht hc]
    simp only [hkey]
  refine Option.ne_none_iff_exists'.1 fun hnone => ?_
  have hstop : m.referenceStep (fk.table, fk.column) = .stop none := by
    rw [referenceStep, hnone]
  have hrun : m.references.run (t.name, c.name) = _ := Walk.run_of_go_stop hgo hstop
  obtain ⟨owner, howner⟩ := h t ht c hc
  rw [Model.owner, hrun] at howner
  cases howner

theorem mem_refKeys {k : RefKey} : k ∈ m.refKeys settings ↔
    ∃ t ∈ m.tables, ∃ c ∈ t.columns, m.refKey? settings c = some k := by
  simp only [refKeys, List.mem_flatMap, Option.mem_toList]

/-- What a column refers to is in the document, under names that are not empty. -/
theorem DocumentOf.find?_of_refKey (h : m.DocumentOf settings d) (hsound : m.Sound settings)
    (hresolved : m.Resolved) {k : RefKey} (hk : k ∈ m.refKeys settings) :
    (∃ p, d.written.find? k = some p) ∧ ∀ name ∈ k.names, name ≠ "" := by
  obtain ⟨t, ht, c, hc, hk⟩ := mem_refKeys.1 hk
  rw [refKey?, Column.refKey?] at hk
  cases hkey : c.foreignKey with
  | some fk =>
    rw [hkey] at hk
    cases hk
    obtain ⟨target, htarget⟩ := hresolved.column?_of_key hsound ht hc hkey
    constructor
    · rcases h.property?_spec fk.table fk.column with ⟨hnone, _⟩ | ⟨_, p, _, hp, _⟩
      · rw [htarget] at hnone
        cases hnone
      · exact ⟨p.written, by rw [Document.find?, Document.written_property?, hp, Option.map_some]⟩
    · simpa [RefKey.names] using ((hsound.tables t ht).columns c hc).foreignKey fk hkey
  | none =>
    rw [hkey] at hk
    obtain ⟨name, hname, rfl⟩ := Option.map_eq_some_iff.1 hk
    obtain ⟨e, he⟩ := Option.isSome_iff_exists.1 (Column.sharedEnum?_eq_some hname).2.1
    constructor
    · refine ⟨(Property.ofEnum e).written, ?_⟩
      rw [Document.find?, Document.written_definition?, h.definition?_eq, he]
      rfl
    · have henum := enum_of_shared he
      have hne := hsound.enums e (List.mem_of_find?_eq_some henum)
      have hename : e.name = name := by simpa using List.find?_some henum
      simpa [RefKey.names, ← hename] using hne

end Model

/-! ### What is read back -/

namespace Property

/-- The path of the property is of a known form, if it has one. -/
def IsKnown (p : Property) : Prop := ∀ path, p.path? = some path → (RefKey.ofPath? path).isSome

end Property

/-- A column is read without a marker for a reference if its property has a known path. -/
theorem Document.exists_column_without_iff {d : Document} {table name : String} {required : Bool}
    {p : Property} (hstorage : ∃ type, (d.storage table name).Without Marker.isUnresolved type) :
    (∃ column, (d.column table required name p).Without Marker.isUnresolved column) ↔
      p.IsKnown := by
  have hending := Traced.withoutEnding Marker.isUnresolved
  unfold Document.column
  rw [hending.exists_bind_iff, and_iff_right hstorage]
  intro type
  dsimp only
  cases hpath : p.path? with
  | none => exact iff_of_true ⟨_, hending.pure_iff.2 rfl⟩ (by simp [Property.IsKnown, hpath])
  | some path =>
    dsimp only
    split
    · rename_i hnone
      rw [hending.exists_map_iff]
      refine iff_of_false (fun ⟨_, hdrop⟩ => Traced.not_drop_unresolved hdrop) fun hknown => ?_
      have hsome := hknown path hpath
      rw [Option.isNone_iff_eq_none.1 hnone] at hsome
      cases hsome
    · rename_i hsome
      refine iff_of_true ⟨_, hending.pure_iff.2 rfl⟩ fun path' hpath' => ?_
      cases hpath.symm.trans hpath'
      exact Option.isSome_iff_ne_none.2 fun hnone => hsome (by rw [hnone]; rfl)

namespace Model

variable {settings settings' : Settings} {m : Model} {d : Document}

/-- A column whose references lead to a column has a storage without a marker. -/
theorem DocumentOf.storage_without (h : m.DocumentOf settings d) {table column : String}
    {owner : Column} (howner : m.owner table column = .ok (some owner)) :
    ∃ type, (d.written.storage table column).Without Marker.isUnresolved type := by
  obtain ⟨owner', path, e, howner', hrun, hend⟩ := h.run table column
  rw [howner] at howner'
  cases howner'
  rw [Document.storage, hrun]
  cases hend with
  | unrecognised => exact ⟨_, Traced.pure_without_iff.2 rfl⟩
  | property hstorage => exact ⟨_, Traced.pure_without_iff.2 rfl⟩

theorem DocumentOf.exists_block_without_iff (h : m.DocumentOf settings d) {t : Table}
    {s : TableSchema} (hs : m.SchemaOf (m.sharedEnums settings.sharedEnumMinRefs) t s)
    (howners : ∀ c ∈ t.columns, ∃ owner, m.owner t.name c.name = .ok (some owner)) :
    (∃ block, (d.written.block t.name s.written).Without Marker.isUnresolved block) ↔
      ∀ entry ∈ s.properties, entry.2.IsKnown := by
  have hending := Traced.withoutEnding Marker.isUnresolved
  have hcolumn : ∀ entry ∈ s.properties, (∃ column, (d.written.column t.name
      (s.required.contains entry.1) entry.1 entry.2.written).Without Marker.isUnresolved column) ↔
        entry.2.IsKnown := by
    intro entry hentry
    obtain ⟨c, hc, hname, _⟩ := hs.properties.exists_of_mem hentry
    obtain ⟨owner, howner⟩ := howners c hc
    rw [← hname] at howner
    rw [Document.exists_column_without_iff (h.storage_without howner), Property.IsKnown,
      Property.IsKnown, Property.written_path?]
  rw [Document.block, hs.missing_eq_nil]
  by_cases hempty : s.written.properties.isEmpty
  · have hnone : s.properties = [] := List.map_eq_nil_iff.1 (List.isEmpty_iff.1 hempty)
    simp only [hempty, if_true]
    refine iff_of_true (hending.exists_map_iff.2 ⟨(), Traced.drop_without_iff.2 rfl⟩) ?_
    simp [hnone]
  · simp only [hempty]
    refine hending.exists_map_iff.trans (hending.exists_mapM_iff.trans ?_)
    rw [TableSchema.written, List.forall_mem_map]
    exact forall₂_congr hcolumn

/-- A document whose references are resolved is read without a marker for one exactly if the
properties of all columns have known paths. -/
theorem DocumentOf.exists_script_without_iff (h : m.DocumentOf settings d)
    (hresolved : m.Resolved) :
    (∃ script, (d.written.script settings').Without Marker.isUnresolved script) ↔
      ∀ t ∈ m.tables, ∀ c ∈ t.columns,
        (c.baseProperty m.enums (m.sharedEnums settings.sharedEnumMinRefs)).IsKnown := by
  have hending := Traced.withoutEnding Marker.isUnresolved
  have hblocks : (∃ blocks, (d.written.properties.mapM fun (name, t) =>
      d.written.block name t).Without Marker.isUnresolved blocks) ↔
        ∀ entry ∈ d.properties, ∃ block,
          (d.written.block entry.1 entry.2.written).Without Marker.isUnresolved block := by
    refine hending.exists_mapM_iff.trans ?_
    rw [Document.written, List.forall_mem_map]
  unfold Document.script
  rw [hending.exists_bind_iff (p := True), and_true, hblocks]
  · symm
    refine forall_mem_iff_of_forall₂ h.tables fun t ht entry hentry => ?_
    obtain ⟨hname, hs⟩ := hentry
    rw [hname, h.exists_block_without_iff hs (hresolved t ht)]
    refine forall_mem_iff_of_forall₂ hs.properties fun c _ entry hentry => ?_
    rw [Property.IsKnown, Property.IsKnown, hentry.2.path?_eq]
  · intro blocks
    exact iff_of_true ⟨_, rfl, rfl⟩ trivial

end Model

namespace Column

variable {settings : Settings} {enums shared : EnumRegistry} {c : Column}

theorem valueProperty_path? (r : ValueRules) : (c.valueProperty enums shared r).path? =
    ((c.sharedEnum? enums shared r).map .definition).map RefKey.path := by
  rw [Property.path?, (c.valueProperty_ref r).1]
  cases c.sharedEnum? enums shared r with
  | none => rfl
  | some name => simp [RefKey.path, RefKey.definitionPath_ne_empty]

/-- The path of a column itself is that of what it refers to; of an array only the items refer
to anything. -/
theorem Sound.baseProperty_path? (h : c.Sound settings enums) :
    (c.baseProperty enums shared).path? = if c.foreignKey.isSome ∨ c.isArray = false then
      (c.refKey? enums shared).map RefKey.path else none := by
  rw [← h.rules_isArray]
  cases hkey : c.foreignKey with
  | some fk =>
    rw [baseProperty_path?_of_key hkey, refKey?, hkey]
    rfl
  | none =>
    rw [baseProperty, refKey?, hkey]
    obtain ⟨values, _ | _, _ | items⟩ := c.rules
    · exact valueProperty_path? values
    · exact valueProperty_path? values
    · rfl
    · rfl

end Column

/-- The path of a column is of a known form exactly if no name on it holds a slash. -/
theorem Model.DocumentOf.isKnown_iff {settings : Settings} {m : Model} {d : Document}
    (h : m.DocumentOf settings d) (hsound : m.Sound settings) (hresolved : m.Resolved)
    {t : Table} (ht : t ∈ m.tables) {c : Column} (hc : c ∈ t.columns) :
    (c.baseProperty m.enums (m.sharedEnums settings.sharedEnumMinRefs)).IsKnown ↔
      (c.foreignKey.isSome ∨ c.isArray = false →
        ∀ k, m.refKey? settings c = some k → k.IsPlain) := by
  have hread : ∀ k, m.refKey? settings c = some k →
      ((RefKey.ofPath? k.path).isSome ↔ k.IsPlain) := by
    intro k hk
    have hnames := (h.find?_of_refKey hsound hresolved (mem_refKeys.2 ⟨t, ht, c, hc, hk⟩)).2
    refine ⟨RefKey.isPlain_of_ofPath?, fun hplain => ?_⟩
    rw [RefKey.ofPath?_of_isPlain hnames hplain]
    rfl
  rw [Property.IsKnown, ((hsound.tables t ht).columns c hc).baseProperty_path?, ← refKey?]
  split
  · rename_i hown
    rw [imp_iff_right hown]
    constructor
    · intro hknown k hk
      exact (hread k hk).1 (hknown k.path (by rw [hk, Option.map_some]))
    · intro hplain path hpath
      obtain ⟨k, hk, rfl⟩ := Option.map_eq_some_iff.1 hpath
      exact (hread k hk).2 (hplain k hk)
  · rename_i hown
    exact iff_of_true (by simp) fun h => absurd h hown

namespace Convert

variable {settings settings' : Settings} {tree : Json} {c : Converted Document}

/-- **What a document refers to is there, and it is found again exactly if no name on its path
holds a slash.** The items of an array refer too, but nothing is marked if their paths are not
read back. -/
theorem references_read_iff (h : (toDocument settings tree).outcome = .ok c)
    (hmarkers : c.markersOf .unresolvedReference = []) :
    ∃ m d r, (Model.build settings tree).outcome = .ok m ∧
      Document.load c.output.toJson = .ok d ∧
      (render settings' c.output.toJson).outcome = .ok r ∧
      d.paths = (m.refKeys settings).map RefKey.path ∧
      (∀ k ∈ m.refKeys settings, (∃ p, d.find? k = some p) ∧
        RefKey.ofPath? k.path = if k.IsPlain then some k else none) ∧
      (r.markersOf .unresolvedReference = [] ↔ ∀ t ∈ m.tables, ∀ column ∈ t.columns,
        column.foreignKey.isSome ∨ column.isArray = false →
          ∀ k, m.refKey? settings column = some k → k.IsPlain) := by
  obtain ⟨m, dropped, hm, hd, heq⟩ := toDocument_sets h
  have hsound := Model.build_sound hm
  have hof := Model.document_spec hd.1
  have hdropped : (m.document settings).Avoids Marker.isUnresolved := by
    rw [Converted.markersOf, heq, List.filter_append, List.append_eq_nil_iff] at hmarkers
    rw [Traced.Avoids, hd.2]
    exact hmarkers.2
  have hresolved : m.Resolved := Model.resolved_of_document ⟨hd.1, hdropped⟩ hsound
  obtain ⟨j, hwrite⟩ := hof.writable
  have hload := Document.load_toJson hwrite
  obtain ⟨script, hscript⟩ := hof.script_ok
  refine ⟨m, c.output.written, ⟨script, _⟩, hm, hload,
    render_eq_ok_iff.2 ⟨_, hload, hscript, rfl⟩, ?_, ?_, ?_⟩
  · rw [Document.written_paths, hof.paths_eq hsound]
  · intro k hk
    obtain ⟨hfound, hnames⟩ := hof.find?_of_refKey hsound hresolved hk
    exact ⟨hfound, RefKey.ofPath?_eq hnames⟩
  · have havoids : (c.output.written.script settings').Avoids Marker.isUnresolved ↔
        ∃ script, (c.output.written.script settings').Without Marker.isUnresolved script := by
      constructor
      · exact fun h => ⟨script, hscript, h⟩
      · rintro ⟨_, hwithout⟩
        exact hwithout.2
    refine havoids.trans ((hof.exists_script_without_iff hresolved).trans ?_)
    exact forall₂_congr fun t ht => forall₂_congr fun column hc =>
      hof.isKnown_iff hsound hresolved ht hc

end Convert

/-- Books on shelves, the table of which has a slash in its name. -/
def Sample.shelves : Json :=
  .arr [table "room/shelf" [column "id" "int4" [constraint "CONSTR_PRIMARY" []]],
    table "book" [column "shelf" "int4" [constraint "CONSTR_FOREIGN"
      [("pktable", .obj [("relname", .str "room/shelf")]), ("pk_attrs", .arr [name "id"])]]]]

/-- The shelf of a book is in the document, but its path is not read back. -/
theorem Convert.shelves_unread : ∃ c r, (toDocument {} Sample.shelves).outcome = .ok c ∧
    c.markersOf .unresolvedReference = [] ∧ (render {} c.output.toJson).outcome = .ok r ∧
    r.markersOf .unresolvedReference = [.unresolved "$ref" "book.shelf"
      "unrecognised reference #/properties/room/shelf/properties/id"] ∧
    ∃ m d r, (Model.build {} Sample.shelves).outcome = .ok m ∧
      Document.load c.output.toJson = .ok d ∧
      (render {} c.output.toJson).outcome = .ok r ∧
      d.paths = (m.refKeys {}).map RefKey.path ∧
      (∀ k ∈ m.refKeys {}, (∃ p, d.find? k = some p) ∧
        RefKey.ofPath? k.path = if k.IsPlain then some k else none) ∧
      (r.markersOf .unresolvedReference = [] ↔ ∀ t ∈ m.tables, ∀ column ∈ t.columns,
        column.foreignKey.isSome ∨ column.isArray = false →
          ∀ k, m.refKey? {} column = some k → k.IsPlain) := by
  have hview : (do
      let c ← (toDocument {} Sample.shelves).outcome
      let r ← (render {} c.output.toJson).outcome
      return (c.markersOf .unresolvedReference, r.markersOf .unresolvedReference) :
        Read _).toOption = some ([], [.unresolved "$ref" "book.shelf"
          "unrecognised reference #/properties/room/shelf/properties/id"]) := by decide +kernel
  have h := Read.eq_ok_of_toOption hview
  obtain ⟨c, hc, h⟩ := Read.bind_eq_ok_iff.1 h
  obtain ⟨r, hr, h⟩ := Read.bind_eq_ok_iff.1 h
  have h := Except.ok.inj h
  simp only [Prod.mk.injEq] at h
  obtain ⟨hmarkers, hunresolved⟩ := h
  exact ⟨c, r, hc, hmarkers, hr, hunresolved, references_read_iff hc hmarkers⟩

end StrictDdl
