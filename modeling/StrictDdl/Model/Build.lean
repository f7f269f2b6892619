import StrictDdl.EnumRegistry.Declared
import StrictDdl.Model.Constraint
import StrictDdl.ParseTree.Statement

/-! From a parse tree to a model.

Enumerations are read first, then the statements in order, then the references that
name no column are given the primary key of their table. A statement or table
element without a counterpart is marked and passed over; a malformed one ends the
reading. -/
namespace StrictDdl

/-! ### Tables -/

/-- The kind of table element that is a column. -/
def columnElement : String := "ColumnDef"

/-- The kind of table element that is a constraint; no other has a counterpart. -/
def constraintElement : String := "Constraint"

/-- How a table element of another kind is called. -/
def elementLabel (kind : String) : String := if kind = "TableLikeClause" then "LIKE" else kind

/-- Reads a column and adds it to its table. -/
def readColumn (settings : Settings) (enums : EnumRegistry) (table : TableDraft) (body : Members) :
    Traced TableDraft := do
  let name ← Node.require (.obj body) "colname" table.name
  let entity := table.name.display ++ "." ++ name.display
  if (table.column? name).isSome then
    Traced.ofRead (.error (.structural table.name ("duplicate column '" ++ name.display ++ "'")))
  else
    let type ← Node.require (.obj body) "typeName" (.str entity)
    let target ← Target.ofTypeName (.ofJson type) enums (.str entity)
    if !target.isKnown then
      Traced.mark ⟨table.name, .null⟩
        (.miss ("type " ++ target.sourceName) entity "unknown type mapped to ANY")
    let column : ColumnDraft :=
      { name, entity, target
        isRequired := (body.get "is_not_null").truthy
        isSerial := target.family = .serial
        rules := target.rules }
    let constraints ← (body.get "constraints").elementsOrNone
    let (table, column) ← constraints.foldlM (columnConstraint settings) (table, column)
    Traced.record ⟨table.name, name⟩ (.columnRead entity target.sourceName target.storage)
    return { table with columns := table.columns ++ [column] }

/-- Reads an element that is no constraint. -/
def readElement (settings : Settings) (enums : EnumRegistry) (table : TableDraft) (kind : String)
    (body : Members) : Traced TableDraft := do
  if kind = columnElement then readColumn settings enums table body
  else
    Traced.mark ⟨table.name, .null⟩
      (.unsupported (elementLabel kind) (← Marker.readEntity table.name) "")
    return table

/-- Reads the elements of a table and puts the constraints aside, since they may name
columns that come after them. -/
def readElements (settings : Settings) (enums : EnumRegistry) (table : TableDraft)
    (aside : List Members) : List Json → Traced (TableDraft × List Members)
  | [] => pure (table, aside)
  | element :: rest => do
    let (kind, body) ← Node.unwrap element
    if kind = constraintElement then readElements settings enums table (aside ++ [body]) rest
    else readElements settings enums (← readElement settings enums table kind body) aside rest

/-- The names of the tables that a table inherits from. -/
def parentNames (relations : Json) : Read String := do
  let names ← (← relations.elements).mapM fun r => do
    let range := ((← r.members).find? "RangeVar").getD (.obj [])
    return ((← range.members).find? "relname").getD (.str "?")
  Node.join ", " names

/-- Marks the columns that count up outside of a primary key. -/
def markSerial (table : TableDraft) : Traced Unit :=
  table.columns.forM fun c =>
    if c.isSerial && !c.isPrimaryKey then
      Traced.mark ⟨table.name, .null⟩ (.unsupported "AUTO INCREMENT" c.entity
        "auto-increment outside a single-column primary key is stored as a plain INTEGER")
    else pure ()

/-- Reads what a table consists of. -/
def readParts (settings : Settings) (enums : EnumRegistry) (table : TableDraft) (body : Members) :
    Traced TableDraft := do
  let place : Place := ⟨table.name, .null⟩
  if (body.get "partspec").truthy then
    Traced.mark place
      (.unsupported "PARTITION BY" (← Marker.readEntity table.name) "partitioning dropped")
  let relations := body.get "inhRelations"
  if relations.truthy then
    let parents ← parentNames relations
    Traced.mark place
      (.unsupported "INHERITS" (← Marker.readEntity table.name) ("inherits from " ++ parents))
  let elements ← (body.get "tableElts").elementsOrNone
  let (table, aside) ← readElements settings enums table [] elements
  let table ← aside.foldlM (tableConstraint settings) table
  markSerial table
  Traced.record place (.tableRead table.name table.columns.length)
  return table

/-! ### Statements -/

/-- Tables, indexes and statements found so far. -/
structure ModelDraft where
  tables : List TableDraft := []
  indexes : List Index := []
  unsupported : List UnsupportedStatement := []

namespace ModelDraft

def table? (m : ModelDraft) (name : Json) : Option TableDraft :=
  m.tables.find? fun t => t.name.same name

/-- Adds a marker to the first table of a list that has this name. -/
def markIn (name : Json) (marker : Marker) : List TableDraft → List TableDraft
  | [] => []
  | t :: rest =>
    if t.name.same name then { t with markers := t.markers ++ [marker] } :: rest
    else t :: markIn name marker rest

/-- Sets a marker on a table. -/
def markTable (m : ModelDraft) (name : Json) (marker : Marker) : Traced ModelDraft := do
  Traced.mark {} marker
  return { m with tables := markIn name marker m.tables }

/-- Passes over a statement without a counterpart. -/
def passOver (m : ModelDraft) (label : String) (name : Json) (position : Nat) :
    Traced ModelDraft := do
  let name ← ((Lenient.optional Lenient.text name).under "name").toRead
  let entity := match name with
    | some s => if s = "" then statementEntity position else s
    | none => statementEntity position
  Traced.mark {} (.unsupported label entity "")
  return { m with unsupported := m.unsupported ++ [⟨label, name, position⟩] }

end ModelDraft

/-- The statements that are called by other words than their kind. -/
def statementLabels : List (String × String) :=
  [("CreateSeqStmt", "SEQUENCE"),
   ("AlterSeqStmt", "ALTER SEQUENCE"),
   ("CompositeTypeStmt", "COMPOSITE TYPE"),
   ("CreateDomainStmt", "DOMAIN"),
   ("CreateRangeStmt", "RANGE TYPE"),
   ("ViewStmt", "VIEW"),
   ("CreateTableAsStmt", "CREATE TABLE AS"),
   ("CreateFunctionStmt", "FUNCTION"),
   ("CreateTrigStmt", "TRIGGER"),
   ("CreatePolicyStmt", "POLICY"),
   ("AlterTableStmt", "ALTER TABLE"),
   ("CreateSchemaStmt", "SCHEMA"),
   ("CreateExtensionStmt", "EXTENSION"),
   ("CommentStmt", "COMMENT"),
   ("GrantStmt", "GRANT"),
   ("DropStmt", "DROP"),
   ("RuleStmt", "RULE"),
   ("DoStmt", "DO"),
   ("VariableSetStmt", "SET"),
   ("TransactionStmt", "TRANSACTION")]

def statementLabel (kind : String) : String := (statementLabels.lookup kind).getD kind

/-- The name a relation member gives. -/
def relationName? (relation : Json) : Option Json :=
  match relation with
  | .obj ms =>
    match (Members.find? ms "rel").getD (.obj ms) with
    | .obj inner =>
      let name := Members.get inner "relname"
      if name.truthy then some name else none
    | _ => none
  | _ => none

/-- The first name that one of these members gives. -/
def firstName (body : Members) (name? : Json → Option Json) (keys : List String) : Option Json :=
  keys.findSome? fun key => name? (body.get key)

/-- The name of a statement without a counterpart, as well as it can be told. -/
def statementName (body : Members) : Read Json := do
  let plain? (j : Json) : Option Json := if j.truthy then some j else none
  let list? (j : Json) : Option Json := match j with
    | .arr [] => none
    | .arr names => some (.arr names)
    | _ => none
  match firstName body plain?
      ["trigname", "policy_name", "extname", "schemaname", "idxname", "rulename"] with
  | some name => return name
  | none =>
    match firstName body relationName? ["relation", "view", "sequence", "typevar", "into"] with
    | some name => return name
    | none =>
      match firstName body list? ["funcname", "domainname", "typeName"] with
      | none => return .null
      | some names =>
        match Node.strings names with
        | .ok names => return .str (← Node.join "." names)
        | .error (.structural _ _) => return .null
        | .error fault => .error fault

/-- Reads a table. -/
def readTable (settings : Settings) (enums : EnumRegistry) (m : ModelDraft) (position : Nat)
    (body : Members) : Traced ModelDraft := do
  let entity := Json.str (statementEntity position)
  let relation ← Node.require (.obj body) "relation" entity
  let name ← Node.require relation "relname" entity
  if (m.table? name).isSome then
    Traced.ofRead (.error (.structural entity ("duplicate table '" ++ name.display ++ "'")))
  else
    let (table, markers) ← (readParts settings enums { name, position } body).collecting
    return { m with tables := m.tables ++ [{ table with markers }] }

namespace Index

/-- The index with these parts, if they are texts. -/
def ofParts (name table : Json) (columns : List Json) (unique : Bool) (position : Nat) :
    Read Index :=
  ((((Lenient.text name).under "name").map fun name table columns =>
    Index.mk name table columns unique position).and
    ((Lenient.text table).under "table") |>.and
    ((Lenient.each Lenient.text 0 columns).under "columns")).toRead

def columnNames (columns : List Json) : Read (List String) := columns.mapM Json.text

/-- The plain columns of an index; none if one of them is an expression. -/
def plainColumns? : List Json → Read (Option (List Json))
  | [] => .ok (some [])
  | param :: rest => do
    let element ← Node.bodyAs "IndexElem" param
    let name := element.get "name"
    if !(element.get "expr").isNull || !name.truthy then return none
    else return (← plainColumns? rest).map (name :: ·)

end Index

/-- Reads an index. -/
def readIndex (settings : Settings) (m : ModelDraft) (position : Nat) (body : Members) :
    Traced ModelDraft := do
  let entity := Json.str (statementEntity position)
  let relation ← Node.require (.obj body) "relation" entity
  let table ← Node.require relation "relname" entity
  let params ← Node.require (.obj body) "indexParams" entity
  let given := body.get "idxname"
  let named := if given.truthy then given else table
  match ← Index.plainColumns? (← params.elements) with
  | none => m.passOver "EXPRESSION INDEX" named position
  | some columns =>
    if !(body.get "whereClause").isNull then m.passOver "PARTIAL INDEX" named position
    else if (m.table? table).isNone then
      Traced.mark {} (.unresolved "INDEX" (← Marker.readEntity named)
        ("index on unknown table '" ++ table.display ++ "' skipped"))
      return m
    else
      let method := body.get "accessMethod"
      let m ← if method.truthy && !method.same (.str "btree") then do
          let entity ← Marker.readEntity named
          m.markTable table
            (.unsupported ("USING " ++ method.display) entity "emitted as a plain index")
        else pure m
      let name ← if given.truthy then pure given
        else do
          let names ← Index.columnNames columns
          pure (.str (Sql.indexName settings.indexStem table.display names))
      let index ← Index.ofParts name table columns (body.get "unique").truthy position
      return { m with indexes := m.indexes ++ [index] }

/-- The statements with a meaning of their own. -/
inductive StatementKind where
  | table
  | index
  /-- Declares an enumeration, which is registered already. -/
  | enum
  /-- An object without a counterpart. -/
  | object
  deriving DecidableEq

namespace StatementKind

def codes : List (String × StatementKind) :=
  [("CompositeTypeStmt", .object),
   ("CreateEnumStmt", .enum),
   ("CreateSeqStmt", .object),
   ("CreateStmt", .table),
   ("IndexStmt", .index)]

end StatementKind

/-- Reads one statement. -/
def readStatement (settings : Settings) (enums : EnumRegistry) (m : ModelDraft) (position : Nat)
    (statement : Json) : Traced ModelDraft := do
  let (kind, body) ← Node.unwrap statement
  match StatementKind.codes.lookup kind with
  | some .table => readTable settings enums m position body
  | some .index => readIndex settings m position body
  | some .enum =>
    Traced.record {} (.enumPassed position)
    return m
  | _ => m.passOver (statementLabel kind) (← statementName body) position

/-- Reads the statements from a position on. -/
def readStatements (settings : Settings) (enums : EnumRegistry) (m : ModelDraft)
    (position : Nat) : List Json → Traced ModelDraft
  | [] => pure m
  | statement :: rest => do
    readStatements settings enums (← readStatement settings enums m position statement)
      (position + 1) rest

/-! ### References -/

/-- Columns of references by the referencing column, the last one winning. -/
abbrev FoundColumns := List (String × Json)

def FoundColumns.get (found : FoundColumns) (entity : String) : Json :=
  (found.lookup entity).getD .null

/-- Looks up the column of a reference that names none: the only column of the
referenced table's primary key. -/
def findReference (m : ModelDraft) (column : ColumnDraft) : Option (Except String Json) :=
  match column.foreignKey with
  | none => none
  | some draft =>
    if !draft.column.isNull then none
    else
      let shown := "table '" ++ draft.table.display ++ "' "
      match m.table? draft.table with
      | none => some (.error (shown ++ "not found"))
      | some target =>
        match target.primaryKey with
        | [key] => some (.ok key)
        | _ => some (.error (shown ++ "has no single-column primary key"))

/-- Looks up the references of the columns of a table. -/
def findReferences (table : Json) (m : ModelDraft) (found : FoundColumns) :
    List ColumnDraft → Traced (ModelDraft × FoundColumns)
  | [] => pure (m, found)
  | column :: rest => do
    match findReference m column with
    | none => findReferences table m found rest
    | some (.ok key) => findReferences table m ((column.entity, key) :: found) rest
    | some (.error reason) =>
      let m ← m.markTable table (.unresolved "REFERENCES" column.entity reason)
      findReferences table m found rest

/-- Looks up the references of all tables. -/
def findAllReferences (m : ModelDraft) (found : FoundColumns) :
    List TableDraft → Traced (ModelDraft × FoundColumns)
  | [] => pure (m, found)
  | table :: rest => do
    let (m, found) ← findReferences table.name m found table.columns
    findAllReferences m found rest

namespace Model

/-- Everything but the markers of the whole. -/
def read (settings : Settings) (enums : EnumRegistry) (statements : List Json) :
    Traced (List Table × ModelDraft) := do
  let m ← readStatements settings enums {} 0 statements
  let (m, found) ← findAllReferences m [] m.tables
  let tables ← m.tables.mapM fun t => t.finish found.get
  return (tables, m)

/-- The model of a parse tree. -/
def build (settings : Settings) (tree : Json) : Traced Model := do
  let statements ← ParseTree.statements tree
  let enums ← EnumRegistry.declared statements
  let ((tables, m), markers) ← (read settings enums statements).collecting
  return { enums, tables, indexes := m.indexes, unsupported := m.unsupported, markers }

end Model

end StrictDdl
