import StrictDdl.Model.Build
import StrictDdl.Proofs.Outcome

/-! What a parse tree says about its tables.

Names and constraints are taken from the tree as they stand there, and constraints come in
the order in which they take effect: those behind the columns first, then those among the
columns. What becomes of them is said in terms of these lists and not in terms of the way a
tree is read. A part that is malformed counts as empty; no such tree has a model. -/
namespace StrictDdl

/-- The body of a node. -/
def Node.content (node : Json) : Members :=
  match Node.body node with
  | .ok ms => ms
  | .error _ => []

/-- The items of a list that may be left out. -/
def Json.listed (j : Json) : List Json :=
  match j.elementsOrNone with
  | .ok items => items
  | .error _ => []

/-- A constraint of a table. -/
structure ConstraintSource where
  /-- The column that it stands behind, unless it stands among the columns. -/
  behind : Option Json
  body : Members

namespace ConstraintSource

/-- Whether the constraint is of the kind with this code. -/
def isA (k : ConstraintSource) (code : String) : Bool := (k.body.get "contype").str? = some code

def isCheck (k : ConstraintSource) : Bool := k.isA "CONSTR_CHECK"

def isReference (k : ConstraintSource) : Bool := k.isA "CONSTR_FOREIGN"

/-- The condition of a check. -/
def condition (k : ConstraintSource) : Expr := .ofJson (k.body.get "raw_expr")

/-- What a reference refers to; nothing if it is one of several columns together. -/
def reference? (k : ConstraintSource) : Option ForeignKey.Draft :=
  (ForeignKey.Draft.ofConstraint k.body .null).toOption

/-- The column that a reference is one of. -/
def referencing (k : ConstraintSource) : Json :=
  match k.behind with
  | some column => column
  | none =>
    match Node.strings (k.body.get "fk_attrs") with
    | .ok sources => sources.head?.getD .null
    | .error _ => .null

/-- Whether it is a reference of several columns together. -/
def isComposite (k : ConstraintSource) : Bool := k.isReference && k.reference?.isNone

/-- What the column refers to by the constraint, if it does. -/
def referenceOn? (column : String) (k : ConstraintSource) : Option ForeignKey.Draft :=
  if k.isReference && k.referencing.str? = some column then k.reference? else none

/-- How markers name the place where the constraint stands. -/
def place (table : Json) (k : ConstraintSource) : String :=
  match k.behind with
  | some column => table.display ++ "." ++ column.display
  | none => table.display

/-- The constraints behind a column. -/
def ofColumn (element : Json) : List ConstraintSource :=
  let body := Node.content element
  (body.get "constraints").listed.map fun k => ⟨some (body.get "colname"), Node.content k⟩

end ConstraintSource

/-- The name of the relation that a statement is about. -/
def ParseTree.relationName (body : Members) : Json :=
  match body.get "relation" with
  | .obj ms => Members.get ms "relname"
  | _ => .null

/-- A table as its statement has it. -/
structure TableSource where
  name : Json
  columns : List Json
  constraints : List ConstraintSource

namespace TableSource

/-- How markers name a column. -/
def label (source : TableSource) (column : Json) : String :=
  source.name.display ++ "." ++ column.display

/-- The references of a column, in the order in which they take effect. -/
def referencesOf (source : TableSource) (column : String) : List ForeignKey.Draft :=
  source.constraints.filterMap (·.referenceOn? column)

/-- The table with more constraints. -/
def constrain (source : TableSource) (ks : List ConstraintSource) : TableSource :=
  { source with constraints := source.constraints ++ ks }

/-- The table with one more column. -/
def addColumn (source : TableSource) (column : Json) : TableSource :=
  { source with columns := source.columns ++ [column] }

/-- The names of the columns among the elements of a table. -/
def columnsOf (elements : List Json) : List Json :=
  (elements.filter (Node.isA columnElement)).map fun e => (Node.content e).get "colname"

/-- The constraints behind the columns among the elements of a table. -/
def behindColumns (elements : List Json) : List ConstraintSource :=
  (elements.filter (Node.isA columnElement)).flatMap ConstraintSource.ofColumn

/-- The table with the columns among more elements. -/
def extend (source : TableSource) (elements : List Json) : TableSource :=
  ⟨source.name, source.columns ++ columnsOf elements, source.constraints ++ behindColumns elements⟩

/-- The constraints that are elements of a table themselves. -/
def amongColumns (elements : List Json) : List ConstraintSource :=
  (elements.filter (Node.isA constraintElement)).map fun e => ⟨none, Node.content e⟩

/-- The table that is called so and has these elements. -/
def ofParts (name : Json) (elements : List Json) : TableSource :=
  ⟨name, columnsOf elements, behindColumns elements ++ amongColumns elements⟩

def ofBody (body : Members) : TableSource :=
  ofParts (ParseTree.relationName body) (body.get "tableElts").listed

def ofStatement (statement : Json) : TableSource := ofBody (Node.content statement)

end TableSource

/-- An index as its statement has it. -/
structure IndexSource where
  /-- The name that it is given, if any. -/
  given : Option String
  table : Json
  columns : List Json

/-- The index that is asked for; an empty name counts as none. -/
def IndexSource.ofStatement (statement : Json) : IndexSource :=
  let body := Node.content statement
  let given := body.get "idxname"
  ⟨if given.truthy then given.str? else none, ParseTree.relationName body,
    (body.get "indexParams").listed.map fun param => (Node.content param).get "name"⟩

namespace ParseTree

/-- The tables that statements create, in order. -/
def tables (statements : List Json) : List TableSource :=
  (statements.filter (Node.isA "CreateStmt")).map .ofStatement

end ParseTree

/-! ### Parts that are not malformed -/

theorem Json.str?_eq_some_iff {j : Json} {s : String} : j.str? = some s ↔ j = .str s := by
  cases j <;> simp [str?]

theorem Node.content_eq {node : Json} {ms : Members} (h : Node.body node = .ok ms) :
    Node.content node = ms := by
  unfold content
  rw [h]

theorem Node.content_of_unwrap {node : Json} {kind : String} {ms : Members}
    (h : Node.unwrap node = .ok (kind, ms)) : Node.content node = ms := by
  unfold unwrap at h
  obtain ⟨kind', _, h⟩ := Read.bind_eq_ok_iff.1 h
  obtain ⟨body, hbody, h⟩ := Read.bind_eq_ok_iff.1 h
  cases h
  exact content_eq hbody

theorem Node.content_of_bodyAs {tag : String} {node : Json} {ms : Members}
    (h : Node.bodyAs tag node = .ok ms) : Node.content node = ms := by
  apply content_eq
  unfold bodyAs at h
  split at h
  · rename_i found b
    split at h
    · rename_i hfound
      subst hfound
      exact h
    · cases h
  · cases h

theorem Node.require_eq_ok {j : Json} {key : String} {entity value : Json}
    (h : Node.require j key entity = .ok value) :
    ∃ ms, j = .obj ms ∧ value = Members.get ms key := by
  unfold require at h
  obtain ⟨ms, hms, h⟩ := Read.bind_eq_ok_iff.1 h
  extract_lets found absent at h
  split at h
  · cases h
  · refine ⟨ms, ?_, (Except.ok.inj h).symm⟩
    cases j <;> cases hms
    rfl

theorem Json.listed_eq {j : Json} {items : List Json} (h : j.elementsOrNone = .ok items) :
    j.listed = items := by
  unfold listed
  rw [h]

/-- A list that is there has the items that it has anyway. -/
theorem Json.listed_of_elements {j : Json} {items : List Json} (h : j.elements = .ok items) :
    j.listed = items := by
  apply listed_eq
  unfold elementsOrNone
  split
  · exact h
  · rename_i hempty
    cases j with
    | null | bool _ | int _ | float _ => cases h
    | str s =>
      have hs : s = "" := by simpa [truthy] using hempty
      subst hs
      exact h
    | arr items' =>
      have hitems : items' = [] := by simpa [truthy] using hempty
      subst hitems
      exact h
    | obj ms =>
      have hms : ms = [] := by simpa [truthy] using hempty
      subst hms
      exact h

end StrictDdl
