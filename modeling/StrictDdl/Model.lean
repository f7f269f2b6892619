import StrictDdl.Default
import StrictDdl.ForeignKey
import StrictDdl.Journal
import StrictDdl.SqlType
import StrictDdl.Walk

/-! The tables, indexes and enumerations of a document, independent of any output.

Every sequence is in the order of the source. A column that references another has
the type of the column its references lead to; `Model.owner` follows them. -/
namespace StrictDdl

/-- A check as the source has it. -/
structure CheckConstraint where
  name : Option String
  /-- The text in the source dialect. -/
  expression : String
  /-- The columns it mentions. -/
  columns : List String
  /-- Whether it amounts to rules on one column. -/
  classified : Bool
  node : Expr

structure Column where
  name : String
  sourceType : String
  family : Family
  enumName : Option String
  modifiers : Modifiers
  isPrimaryKey : Bool
  isRequired : Bool
  isUnique : Bool
  /-- Whether it counts up by itself. -/
  isSerial : Bool
  default : Option Default
  rules : RuleSet
  foreignKey : Option ForeignKey
  checks : List CheckConstraint

namespace Column

def isArray (c : Column) : Bool := c.modifiers.arrayDepth > 0

/-- What becomes of the column's type. -/
def target (c : Column) (enums : EnumRegistry) : Target :=
  match c.enumName with
  | some name => Target.ofName name c.modifiers enums .null
  | none => Target.ofName c.sourceType c.modifiers [] (.str Sql.builtinSchema)

end Column

/-- A primary key or a uniqueness constraint over several columns. -/
structure TableConstraint where
  isPrimary : Bool
  columns : List String
  name : Option String
  deriving DecidableEq

structure Table where
  name : String
  /-- The position of its statement. -/
  position : Nat
  columns : List Column
  constraints : List TableConstraint
  checks : List CheckConstraint
  /-- What was lost of it when it was read. -/
  markers : List Marker

namespace Table

def column? (t : Table) (name : String) : Option Column :=
  t.columns.find? fun c => c.name = name

/-- The columns of the primary key. -/
def primaryKey (t : Table) : List String :=
  match t.constraints.find? fun c => c.isPrimary with
  | some key => key.columns
  | none => (t.columns.filter fun c => c.isPrimaryKey).map Column.name

end Table

/-- An index over plain columns. -/
structure Index where
  name : String
  table : String
  columns : List String
  unique : Bool
  position : Nat
  deriving DecidableEq

/-- A statement without a counterpart in any output. -/
structure UnsupportedStatement where
  kind : String
  name : Option String
  position : Nat
  deriving DecidableEq

namespace UnsupportedStatement

def label (s : UnsupportedStatement) : String :=
  match s.name with
  | some name => if name = "" then s.kind else s.kind ++ " " ++ name
  | none => s.kind

end UnsupportedStatement

structure Model where
  enums : EnumRegistry
  tables : List Table
  indexes : List Index
  unsupported : List UnsupportedStatement
  markers : List Marker

namespace Model

def table? (m : Model) (name : String) : Option Table :=
  m.tables.find? fun t => t.name = name

def column? (m : Model) (table column : String) : Option Column :=
  (m.table? table).bind fun t => t.column? column

/-! ### References -/

/-- A column by the names of its table and itself. -/
abbrev ColumnKey := String × String

def ColumnKey.label (k : ColumnKey) : String := k.1 ++ "." ++ k.2

def columnKeys (m : Model) : List ColumnKey :=
  m.tables.flatMap fun t => t.columns.map fun c => (t.name, c.name)

theorem mem_columnKeys {m : Model} {table column : String} {c : Column}
    (h : m.column? table column = some c) : (table, column) ∈ m.columnKeys := by
  simp only [column?, table?, Table.column?, Option.bind_eq_some_iff] at h
  obtain ⟨t, ht, hc⟩ := h
  have htable := List.find?_some ht
  have hcolumn := List.find?_some hc
  simp only [decide_eq_true_eq] at htable hcolumn
  subst htable hcolumn
  exact List.mem_flatMap.2
    ⟨t, List.mem_of_find?_eq_some ht, List.mem_map.2 ⟨c, List.mem_of_find?_eq_some hc, rfl⟩⟩

/-- One reference: to the referenced column, or an end at a column without one or at
no column at all. -/
def referenceStep (m : Model) (k : ColumnKey) : Step ColumnKey (Option Column) :=
  match m.column? k.1 k.2 with
  | none => .stop none
  | some c =>
    match c.foreignKey with
    | none => .stop (some c)
    | some fk => .go (fk.table, fk.column)

/-- The walk along the references of the model. -/
def references (m : Model) : Walk ColumnKey (Option Column) where
  step := m.referenceStep
  domain := m.columnKeys
  covers := by
    intro k next h
    unfold referenceStep at h
    split at h
    · simp at h
    · rename_i c hc
      exact mem_columnKeys hc

/-- The column that a column's references lead to; none if one of them leads
nowhere. -/
def owner (m : Model) (table column : String) : Read (Option Column) :=
  match m.references.run (table, column) with
  | .arrived _ result => .ok result
  | .cycle path => .error (.cyclic (path.map ColumnKey.label))

/-! ### Enumerations -/

/-- The number of columns with this enumeration. -/
def enumRefs (m : Model) (name : String) : Nat :=
  (m.tables.flatMap Table.columns).countP fun c => c.enumName = some name

/-- The enumerations that enough columns share. -/
def sharedEnums (m : Model) (minRefs : Int) : List EnumType :=
  m.enums.filter fun e => (m.enumRefs e.name : Int) ≥ minRefs

end Model

end StrictDdl
