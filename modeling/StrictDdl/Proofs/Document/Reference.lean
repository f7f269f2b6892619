import StrictDdl.Document.OfModel
import StrictDdl.Document.Reference

/-! What the paths of a document point at.

A name may hold a slash, and then its path is of no known form. A path that is of a known
form points at what it was written for and at nothing else. So a path of names that are not
empty is read back exactly if none of them holds a slash (`RefKey.ofPath?_eq`). -/
namespace StrictDdl.RefKey

theorem segments_ne_nil (cs : List Char) : segments cs ≠ [] := by
  cases cs with
  | nil => simp [segments]
  | cons c cs =>
    rw [segments]
    split
    · simp
    · split <;> simp

theorem segments_append (a b : List Char) :
    segments (a ++ '/' :: b) = segments a ++ segments b := by
  induction a with
  | nil =>
    obtain ⟨first, more, h⟩ := List.exists_cons_of_ne_nil (segments_ne_nil b)
    simp [segments, h]
  | cons c a ih =>
    obtain ⟨first, more, h⟩ := List.exists_cons_of_ne_nil (segments_ne_nil a)
    rw [List.cons_append, segments, segments, ih, h]
    simp only [List.cons_append]
    split <;> rfl

/-- A text of one part is that part. -/
theorem eq_of_segments_eq_singleton {cs part : List Char} (h : segments cs = [part]) :
    part = cs := by
  induction cs generalizing part with
  | nil =>
    cases h
    rfl
  | cons c cs ih =>
    obtain ⟨first, more, hcs⟩ := List.exists_cons_of_ne_nil (segments_ne_nil cs)
    rw [segments, hcs] at h
    simp only at h
    split at h
    · cases h
    · obtain ⟨rfl, rfl⟩ := List.cons.inj h
      rw [ih hcs]

/-- There is one part more than there are slashes. -/
theorem length_segments (cs : List Char) : (segments cs).length = cs.count '/' + 1 := by
  induction cs with
  | nil => rfl
  | cons c cs ih =>
    obtain ⟨first, more, h⟩ := List.exists_cons_of_ne_nil (segments_ne_nil cs)
    rw [h, List.length_cons] at ih
    rw [segments, h]
    by_cases hc : c = '/'
    · simp [hc, ih]
    · simp [hc, ih]

theorem segments_eq_self {cs : List Char} (h : '/' ∉ cs) : segments cs = [cs] := by
  have hlength : (segments cs).length = 1 := by rw [length_segments, List.count_eq_zero.2 h]
  obtain ⟨part, hpart⟩ := List.length_eq_one_iff.1 hlength
  rw [hpart, eq_of_segments_eq_singleton hpart]

theorem segments_path (fk : ForeignKey) :
    segments fk.path.toList = "#".toList :: "properties".toList ::
      (segments fk.table.toList ++ "properties".toList :: segments fk.column.toList) := by
  have hpath : fk.path.toList = "#".toList ++ '/' :: ("properties".toList ++ '/' ::
      (fk.table.toList ++ '/' :: ("properties".toList ++ '/' :: fk.column.toList))) := by
    -- Texts are only taken apart as variables: rewriting looks into the letters of a literal.
    have happend : ∀ root table middle column : String, (root ++ table ++ middle ++ column).toList =
        root.toList ++ (table.toList ++ (middle.toList ++ column.toList)) := by simp
    exact happend "#/properties/" fk.table "/properties/" fk.column
  rw [hpath, segments_append, segments_append, segments_append, segments_append]
  rfl

theorem path_ne_empty (fk : ForeignKey) : fk.path ≠ "" := by
  intro hempty
  have hlength := congrArg List.length (segments_path fk)
  rw [hempty, length_segments] at hlength
  simp only [List.length_cons] at hlength
  exact absurd hlength (by simp)

/-- The path of a reference points at its column, or at nothing. -/
theorem column?_path (fk : ForeignKey) :
    column? fk.path = none ∨ column? fk.path = some (fk.table, fk.column) := by
  unfold column?
  split
  · rename_i root tables t columns c h
    split
    · right
      rw [segments_path] at h
      have hlen := congrArg List.length h
      have ht := List.length_pos_iff.2 (segments_ne_nil fk.table.toList)
      have hc := List.length_pos_iff.2 (segments_ne_nil fk.column.toList)
      simp only [List.length_cons, List.length_append, List.length_nil] at hlen
      obtain ⟨table, htable⟩ := List.length_eq_one_iff.1
        (show (segments fk.table.toList).length = 1 by omega)
      obtain ⟨column, hcolumn⟩ := List.length_eq_one_iff.1
        (show (segments fk.column.toList).length = 1 by omega)
      rw [htable, hcolumn] at h
      simp only [List.cons_append, List.nil_append, List.cons.injEq, and_true] at h
      obtain ⟨_, _, rfl, _, rfl⟩ := h
      rw [eq_of_segments_eq_singleton htable, eq_of_segments_eq_singleton hcolumn,
        String.ofList_toList, String.ofList_toList]
    · exact .inl rfl
  · exact .inl rfl

theorem definition?_path (fk : ForeignKey) : definition? fk.path = none := by
  unfold definition?
  split
  · rename_i root definitions name h
    have hlen := congrArg List.length (segments_path fk)
    have ht := List.length_pos_iff.2 (segments_ne_nil fk.table.toList)
    rw [h] at hlen
    simp only [List.length_cons, List.length_append, List.length_nil] at hlen
    omega
  · rfl

/-- Where the path of a reference leads. -/
theorem ofPath?_path (fk : ForeignKey) :
    ofPath? fk.path = none ∨ ofPath? fk.path = some (.column fk.table fk.column) := by
  rw [ofPath?, definition?_path]
  rcases column?_path fk with h | h
  · rw [h]
    exact .inl rfl
  · rw [h]
    exact .inr rfl

theorem segments_definitionPath (name : String) :
    segments (Property.definitionPath name).toList =
      "#".toList :: "$defs".toList :: segments name.toList := by
  have hpath : (Property.definitionPath name).toList =
      "#".toList ++ '/' :: ("$defs".toList ++ '/' :: name.toList) := by
    simp [Property.definitionPath]
  rw [hpath, segments_append, segments_append]
  rfl

theorem definitionPath_ne_empty (name : String) : Property.definitionPath name ≠ "" := by
  simp [Property.definitionPath]

theorem column?_definitionPath (name : String) : column? (Property.definitionPath name) = none := by
  unfold column?
  split
  · rename_i root tables t columns c h
    rw [segments_definitionPath] at h
    obtain ⟨_, htables, _⟩ : _ ∧ _ ∧ _ := by simpa using h
    rw [if_neg]
    rintro ⟨_, hproperties, _⟩
    rw [← htables] at hproperties
    exact absurd hproperties (by decide)
  · rfl

theorem definition?_definitionPath (name : String) :
    definition? (Property.definitionPath name) = none ∨
      definition? (Property.definitionPath name) = some name := by
  unfold definition?
  split
  · rename_i root definitions part h
    rw [segments_definitionPath] at h
    have hname : segments name.toList = [part] := (List.cons.inj (List.cons.inj h).2).2
    split
    · rw [eq_of_segments_eq_singleton hname, String.ofList_toList]
      exact .inr rfl
    · exact .inl rfl
  · exact .inl rfl

/-- Where the path of a definition leads. -/
theorem ofPath?_definitionPath (name : String) :
    ofPath? (Property.definitionPath name) = none ∨
      ofPath? (Property.definitionPath name) = some (.definition name) := by
  rw [ofPath?, column?_definitionPath]
  rcases definition?_definitionPath name with h | h
  · rw [h]
    exact .inl rfl
  · rw [h]
    exact .inr rfl

/-! ### Reading back -/

/-- The names on a path. -/
def names : RefKey → List String
  | .column t c => [t, c]
  | .definition name => [name]

/-- The path that is written for a reference. -/
def path : RefKey → String
  | .column t c => ForeignKey.path ⟨t, c, .noAction, .noAction⟩
  | .definition name => Property.definitionPath name

/-- No name holds a slash. -/
def IsPlain (k : RefKey) : Prop := ∀ name ∈ k.names, '/' ∉ name.toList

instance (k : RefKey) : Decidable k.IsPlain :=
  inferInstanceAs (Decidable (∀ name ∈ k.names, '/' ∉ name.toList))

theorem isPlain_column {table column : String} :
    (RefKey.column table column).IsPlain ↔ '/' ∉ table.toList ∧ '/' ∉ column.toList := by
  simp [IsPlain, names]

theorem isPlain_definition {name : String} :
    (RefKey.definition name).IsPlain ↔ '/' ∉ name.toList := by
  simp [IsPlain, names]

/-- A path of a known form has as many slashes as the form has. -/
theorem isPlain_of_column? {fk : ForeignKey} (h : (column? fk.path).isSome) :
    (RefKey.column fk.table fk.column).IsPlain := by
  unfold column? at h
  split at h
  · rename_i hparts
    have hlength := congrArg List.length hparts
    rw [segments_path] at hlength
    simp only [List.length_cons, List.length_append, length_segments, List.length_nil] at hlength
    rw [isPlain_column, ← List.count_eq_zero, ← List.count_eq_zero]
    omega
  · cases h

theorem isPlain_of_definition? {name : String}
    (h : (definition? (Property.definitionPath name)).isSome) :
    (RefKey.definition name).IsPlain := by
  unfold definition? at h
  split at h
  · rename_i hparts
    have hlength := congrArg List.length hparts
    rw [segments_definitionPath] at hlength
    simp only [List.length_cons, length_segments, List.length_nil] at hlength
    rw [isPlain_definition, ← List.count_eq_zero]
    omega
  · cases h

/-- What is read back from a path was written for a reference without slashes. -/
theorem isPlain_of_ofPath? {k : RefKey} (h : (ofPath? k.path).isSome) : k.IsPlain := by
  cases k with
  | column table column =>
    rw [path, ofPath?, definition?_path] at h
    have hsome : (column? (ForeignKey.path ⟨table, column, .noAction, .noAction⟩)).isSome := by
      split at h
      · rename_i hfound
        rw [hfound]
        rfl
      · cases h
    exact isPlain_of_column? hsome
  | definition name =>
    rw [path, ofPath?, column?_definitionPath] at h
    exact isPlain_of_definition? (by simpa using h)

theorem column?_of_isPlain {fk : ForeignKey} (htable : fk.table ≠ "") (hcolumn : fk.column ≠ "")
    (h : (RefKey.column fk.table fk.column).IsPlain) :
    column? fk.path = some (fk.table, fk.column) := by
  obtain ⟨htable', hcolumn'⟩ := isPlain_column.1 h
  rw [column?, segments_path, segments_eq_self htable', segments_eq_self hcolumn']
  simp [htable, hcolumn]

theorem definition?_of_isPlain {name : String} (hname : name ≠ "")
    (h : (RefKey.definition name).IsPlain) :
    definition? (Property.definitionPath name) = some name := by
  rw [definition?, segments_definitionPath, segments_eq_self (isPlain_definition.1 h)]
  simp [hname]

/-- A path without slashes in its names is read back. -/
theorem ofPath?_of_isPlain {k : RefKey} (hnames : ∀ name ∈ k.names, name ≠ "") (h : k.IsPlain) :
    ofPath? k.path = some k := by
  cases k with
  | column table column =>
    have hnames : table ≠ "" ∧ column ≠ "" := by simpa [names] using hnames
    rw [ofPath?, path, column?_of_isPlain hnames.1 hnames.2 h]
  | definition name =>
    have hnames : name ≠ "" := by simpa [names] using hnames
    rw [ofPath?, path, column?_definitionPath, definition?_of_isPlain hnames h, Option.map_some]

/-- **The path of a reference is read back as that reference exactly if no name on it holds a
slash, and otherwise as nothing.** -/
theorem ofPath?_eq {k : RefKey} (hnames : ∀ name ∈ k.names, name ≠ "") :
    ofPath? k.path = if k.IsPlain then some k else none := by
  by_cases h : k.IsPlain
  · rw [if_pos h, ofPath?_of_isPlain hnames h]
  · rw [if_neg h, ← Option.not_isSome_iff_eq_none]
    exact fun hsome => h (isPlain_of_ofPath? hsome)

end StrictDdl.RefKey
