import StrictDdl.ForeignKey
import StrictDdl.Sql.Literal
import StrictDdl.Text.Blank

/-! Statements of the target dialect, and their text.

A script is a sequence of blocks and a list of indexes after them. A block is a
table or stands for one, with a comment above it for every construct that has no
counterpart. All tables are strict, so what a source type enforces beyond the storage
class is written as a guard: a condition on the column that admits no value at all
or a value of the type. -/
namespace StrictDdl.Ddl

/-- A comment line; runs of blanks count as one. -/
def comment (text : String) : String := "-- " ++ String.intercalate " " (Text.words text)

/-- The comment that stands for a construct without a counterpart. -/
def notSupported (label : String) : String := comment (label ++ ": not supported")

/-! ### Guards -/

/-- What a type asks of a value, the absent value apart. -/
inductive Guard where
  /-- A serialized array; its elements are not looked at. -/
  | array
  | oneOf (labels : List String)
  | boolean
  /-- A text that the function for the type can read. -/
  | temporal (function : String)
  | maxLength (n : Int)
  /-- A number below the bound with so many places behind the point, up to a rounding
  error. -/
  | decimal (bound : Nat) (scale : Int) (epsilon : String)
  | json

namespace Guard

/-- The condition on the column, whose name is given as SQL text. -/
def condition (column : String) : Guard → String
  | .array => "(json_valid(" ++ column ++ ") AND json_type(" ++ column ++ ") = 'array')"
  | .oneOf labels =>
    column ++ " IN (" ++ String.intercalate ", " (labels.map Sql.textLiteral) ++ ")"
  | .boolean => column ++ " IN (0, 1)"
  | .temporal function => function ++ "(" ++ column ++ ") IS NOT NULL"
  | .maxLength n => "length(" ++ column ++ ") <= " ++ writeInt n
  | .decimal bound scale epsilon =>
    let rounded :=
      if scale > 0 then "round(" ++ column ++ ", " ++ writeInt scale ++ ")"
      else "round(" ++ column ++ ")"
    "(abs(" ++ column ++ ") < " ++ writeNat bound ++ " AND abs(" ++ column ++ " - " ++ rounded ++
      ") < " ++ epsilon ++ ")"
  | .json => "json_valid(" ++ column ++ ")"

def text (column : String) (g : Guard) : String :=
  "CHECK (" ++ column ++ " IS NULL OR " ++ g.condition column ++ ")"

end Guard

/-! ### Columns -/

/-- The column a reference points at, and the actions that are written out. -/
structure Reference where
  table : String
  column : String
  onDelete : Option String := none
  onUpdate : Option String := none
  deriving DecidableEq

namespace Reference

def text (r : Reference) : String :=
  let action (words : String) (a : Option String) : String :=
    match a with
    | some keyword => words ++ keyword
    | none => ""
  "REFERENCES " ++ Sql.identifier r.table ++ "(" ++ Sql.identifier r.column ++ ")" ++
    action " ON DELETE " r.onDelete ++ action " ON UPDATE " r.onUpdate

/-- The action as it is written; no action is left out. -/
def action? (a : FkAction) : Option String := if a = .noAction then none else some a.keyword

def ofForeignKey (fk : ForeignKey) : Reference :=
  ⟨fk.table, fk.column, action? fk.onDelete, action? fk.onUpdate⟩

end Reference

/-- The words that name a constraint. -/
def constraintName (name : Option String) : String :=
  match name with
  | some name => if name = "" then "" else "CONSTRAINT " ++ Sql.identifier name ++ " "
  | none => ""

/-- A check taken from the source. -/
structure SourceCheck where
  name : Option String
  condition : String
  deriving DecidableEq

namespace SourceCheck

def text (c : SourceCheck) : String :=
  constraintName c.name ++ "CHECK (" ++ c.condition ++ ")"

end SourceCheck

inductive DefaultClause where
  | literal (value : Scalar)
  | computed (expression : String)

namespace DefaultClause

def text : DefaultClause → String
  | .literal value => "DEFAULT " ++ value.sqlLiteral
  | .computed expression => "DEFAULT (" ++ expression ++ ")"

end DefaultClause

/-- A column and its clauses, which are always written in this order. -/
structure ColumnDef where
  name : String
  type : String
  /-- The primary key clause, if any, and whether it counts up. -/
  primaryKey : Option Bool := none
  notNull : Bool := false
  unique : Bool := false
  default : Option DefaultClause := none
  references : Option Reference := none
  guards : List Guard := []
  checks : List SourceCheck := []

namespace ColumnDef

/-- The clauses in order. -/
def clauses (c : ColumnDef) : List String :=
  (match c.primaryKey with
    | some true => ["PRIMARY KEY AUTOINCREMENT"]
    | some false => ["PRIMARY KEY"]
    | none => []) ++
  (if c.notNull then ["NOT NULL"] else []) ++
  (if c.unique then ["UNIQUE"] else []) ++
  (c.default.map DefaultClause.text).toList ++
  (c.references.map Reference.text).toList ++
  c.guards.map (Guard.text (Sql.identifier c.name)) ++
  c.checks.map SourceCheck.text

def text (c : ColumnDef) : String :=
  String.intercalate " " (Sql.identifier c.name :: c.type :: c.clauses)

end ColumnDef

/-! ### Tables -/

/-- A key over several columns. -/
structure KeyDef where
  name : Option String
  isPrimary : Bool
  columns : List String
  deriving DecidableEq

namespace KeyDef

def text (k : KeyDef) : String :=
  constraintName k.name ++ (if k.isPrimary then "PRIMARY KEY" else "UNIQUE") ++
    " (" ++ Sql.identifiers k.columns ++ ")"

end KeyDef

structure CreateTable where
  name : String
  columns : List ColumnDef
  keys : List KeyDef := []
  checks : List SourceCheck := []

namespace CreateTable

/-- The definitions in order: columns, keys, checks. -/
def definitions (t : CreateTable) : List String :=
  t.columns.map ColumnDef.text ++ t.keys.map KeyDef.text ++ t.checks.map SourceCheck.text

def text (t : CreateTable) : String :=
  "CREATE TABLE " ++ Sql.identifier t.name ++ " (\n" ++
    String.intercalate ",\n" (t.definitions.map ("  " ++ ·)) ++ "\n) STRICT;"

end CreateTable

structure CreateIndex where
  name : String
  table : String
  columns : List String
  unique : Bool
  deriving DecidableEq

namespace CreateIndex

def text (i : CreateIndex) : String :=
  (if i.unique then "CREATE UNIQUE INDEX " else "CREATE INDEX ") ++ Sql.identifier i.name ++
    " ON " ++ Sql.identifier i.table ++ "(" ++ Sql.identifiers i.columns ++ ");"

end CreateIndex

/-! ### Scripts -/

/-- Constructs that are only named in a comment, and the table that follows them, if
there is one. -/
structure Block where
  unsupported : List String
  table : Option CreateTable

namespace Block

def text (b : Block) : String :=
  String.intercalate "\n" (b.unsupported.map notSupported ++ (b.table.map CreateTable.text).toList)

end Block

structure Script where
  blocks : List Block
  indexes : List CreateIndex

namespace Script

def text (s : Script) : String :=
  let indexes :=
    if s.indexes.isEmpty then []
    else [String.intercalate "\n" (s.indexes.map CreateIndex.text)]
  let whole := String.intercalate "\n\n" (s.blocks.map Block.text ++ indexes)
  if whole = "" then "" else whole ++ "\n"

end Script

end StrictDdl.Ddl
