import StrictDdl.Model.Draft
import StrictDdl.Settings

/-! Constraints of tables and columns.

A check that mentions one column only belongs to that column, wherever it stands;
a check over several belongs to the table. A constraint without a counterpart is
marked and left out, and so is one that can only be checked later. -/
namespace StrictDdl

/-! ### Kinds -/

/-- The constraints that stand behind a column. -/
inductive ColumnConstraintKind where
  | nullable
  | required
  | primaryKey
  | unique
  | identity
  | default
  | check
  | reference
  | generated
  | deferrable
  | immediate
  deriving DecidableEq

namespace ColumnConstraintKind

/-- The kinds by the parser's codes. -/
def codes : List (String × ColumnConstraintKind) :=
  [("CONSTR_ATTR_DEFERRABLE", .deferrable),
   ("CONSTR_ATTR_DEFERRED", .deferrable),
   ("CONSTR_ATTR_IMMEDIATE", .immediate),
   ("CONSTR_ATTR_NOT_DEFERRABLE", .immediate),
   ("CONSTR_CHECK", .check),
   ("CONSTR_DEFAULT", .default),
   ("CONSTR_FOREIGN", .reference),
   ("CONSTR_GENERATED", .generated),
   ("CONSTR_IDENTITY", .identity),
   ("CONSTR_NOTNULL", .required),
   ("CONSTR_NULL", .nullable),
   ("CONSTR_PRIMARY", .primaryKey),
   ("CONSTR_UNIQUE", .unique)]

end ColumnConstraintKind

/-- The constraints that stand among the columns of a table. -/
inductive TableConstraintKind where
  | check
  | exclusion
  | reference
  | primaryKey
  | unique
  deriving DecidableEq

namespace TableConstraintKind

def codes : List (String × TableConstraintKind) :=
  [("CONSTR_CHECK", .check),
   ("CONSTR_EXCLUSION", .exclusion),
   ("CONSTR_FOREIGN", .reference),
   ("CONSTR_PRIMARY", .primaryKey),
   ("CONSTR_UNIQUE", .unique)]

end TableConstraintKind

/-- What the parser's codes start with. -/
def codeStem : List Char := "CONSTR_".toList

/-- A text without any occurrence of the stem. -/
def withoutStem : List Char → List Char
  | [] => []
  | c :: rest =>
    if codeStem.isPrefixOf (c :: rest) then withoutStem (rest.drop (codeStem.length - 1))
    else c :: withoutStem rest
termination_by cs => cs.length
decreasing_by
  · simp only [List.length_drop, List.length_cons]; omega
  · simp

/-- How a constraint of an unknown kind is called. -/
def constraintLabel (code : Json) : Read String := do
  return String.ofList (withoutStem (← code.text).toList)

/-- The kind of a constraint, if it is a known one. -/
def constraintKind? {κ : Type} (codes : List (String × κ)) (code : Json) : Read (Option κ) := do
  return (← code.key).str?.bind fun s => codes.lookup s

/-! ### Checks -/

/-- A check that has not yet found its column. -/
structure CheckDraft where
  name : Json
  expression : String
  columns : List Json
  node : Expr

namespace CheckDraft

/-- The check of a constraint. -/
def ofConstraint (body : Members) (entity : Json) : Read CheckDraft := do
  let source ← Node.require (.obj body) "raw_expr" entity
  let node := Expr.ofJson source
  let expression ← node.text .postgres
  let columns ← ParseTree.columns source
  return ⟨body.get "conname", expression, columns, node⟩

/-- Whether the check mentions no column but this one. -/
def isOn (c : CheckDraft) (column : Json) : Bool :=
  match c.columns with
  | [] => true
  | [only] => only.same column
  | _ => false

/-- The rules the check amounts to on a column. -/
def rules? (c : CheckDraft) (settings : Settings) (column : ColumnDraft) :
    Read (Option ValueRules) :=
  Check.classify c.columns c.node column.name
    (column.target.family.isWhole && settings.adjustStrictBounds)

def finish (c : CheckDraft) (classified : Bool) : Read CheckConstraint :=
  (((((Lenient.optional Lenient.text c.name).under "name").map fun name columns =>
    CheckConstraint.mk name c.expression columns classified c.node)).and
    ((Lenient.each Lenient.text 0 c.columns).under "columns")).toRead

/-- The check as one of the column's own. -/
def onColumn (c : CheckDraft) (settings : Settings) (column : ColumnDraft) :
    Read ColumnDraft := do
  let rules ← c.rules? settings column
  let check ← c.finish rules.isSome
  return { column with
    checks := column.checks ++ [check]
    rules := match rules with
      | some r => column.rules.merge (.ofValues r)
      | none => column.rules }

/-- The check as one of the table's. -/
def onTable (c : CheckDraft) (table : TableDraft) : Read TableDraft := do
  return { table with checks := table.checks ++ [← c.finish false] }

end CheckDraft

/-- The check of a constraint; one that cannot be written is marked. -/
def readCheck (place : Place) (entity : Json) (body : Members) : Traced (Option CheckDraft) := do
  match CheckDraft.ofConstraint body entity with
  | .ok check => return some check
  | .error (.unrenderable kind dialect) =>
    let message := (Fault.unrenderable kind dialect).message
    Traced.mark place (.unsupported "CHECK" (← Marker.readEntity entity) message)
    return none
  | .error fault => Traced.ofRead (.error fault)

/-! ### Constraints of a column -/

/-- The default of a constraint, after the marks it needs; a default that cannot be
written leaves the old one. -/
def readDefault (place : Place) (column : ColumnDraft) (body : Members) :
    Traced (Option Default) := do
  let source ← Node.require (.obj body) "raw_expr" (.str column.entity)
  match Default.classify (.ofJson source) with
  | .error (.unrenderable kind dialect) =>
    let message := (Fault.unrenderable kind dialect).message
    Traced.mark place (.unsupported "DEFAULT" column.entity message)
    return column.default
  | .error fault => Traced.ofRead (.error fault)
  | .ok (.literal value) => return some (.literal value)
  | .ok (.computed c) =>
    if c.kind = .call && !c.isKnown then
      Traced.mark place (.miss ("DEFAULT " ++ c.function.getD "" ++ "()") column.entity
        ("no SQLite equivalent for " ++ c.expression ++ "; passed through unchanged"))
    return some (.computed c)

/-- Marks a constraint that the target checks at once. -/
def markDeferrable (place : Place) (entity : Json) : Traced Unit := do
  Traced.mark place
    (.unsupported "DEFERRABLE" (← Marker.readEntity entity) "constraint is checked immediately")

/-- Marks a constraint with one of the attributes of a deferred one. -/
def checkDeferrable (place : Place) (entity : Json) (body : Members) : Traced Unit :=
  if (body.get "deferrable").truthy || (body.get "initdeferred").truthy then
    markDeferrable place entity
  else pure ()

/-- Applies a constraint of a known kind to the column it stands behind. -/
def applyColumnConstraint (settings : Settings) (place : Place) (table : TableDraft)
    (column : ColumnDraft) (body : Members) :
    ColumnConstraintKind → Traced (TableDraft × ColumnDraft)
  | .nullable => return (table, { column with isRequired := false })
  | .required => return (table, { column with isRequired := true })
  | .primaryKey =>
    if table.hasPrimaryKey && !column.isPrimaryKey then
      Traced.ofRead (.error (.structural table.name "multiple primary keys"))
    else return (table, { column with isPrimaryKey := true })
  | .unique => return (table, { column with isUnique := true })
  | .identity => return (table, { column with isSerial := true })
  | .default => do
    return (table, { column with default := ← readDefault place column body })
  | .check => do
    match ← readCheck place (.str column.entity) body with
    | none => return (table, column)
    | some check =>
      if check.isOn column.name then return (table, ← check.onColumn settings column)
      else return (← check.onTable table, column)
  | .reference => do
    match ForeignKey.Draft.ofConstraint body (.str column.entity) with
    | .ok draft => return (table, { column with foreignKey := some draft })
    | .error (.unsupported construct detail) =>
      Traced.mark place (.unsupported (LetterCase.upper construct) column.entity detail)
      return (table, column)
    | .error fault => Traced.ofRead (.error fault)
  | .generated => do
    Traced.mark place
      (.unsupported "GENERATED" column.entity "generated column stored as a plain column")
    return (table, column)
  | .deferrable => do
    markDeferrable place (.str column.entity)
    return (table, column)
  | .immediate => return (table, column)

/-- Applies a constraint to the column it stands behind. -/
def columnConstraint (settings : Settings) (draft : TableDraft × ColumnDraft) (constraint : Json) :
    Traced (TableDraft × ColumnDraft) := do
  let (table, column) := draft
  let place : Place := ⟨table.name, column.name⟩
  let body ← Node.bodyAs "Constraint" constraint
  let code ← Node.require (.obj body) "contype" (.str column.entity)
  let draft ← match ← constraintKind? ColumnConstraintKind.codes code with
    | some kind => applyColumnConstraint settings place table column body kind
    | none => do
      Traced.mark place (.unsupported (← constraintLabel code) column.entity "")
      pure (table, column)
  checkDeferrable place (.str column.entity) body
  return draft

/-! ### Constraints of a table -/

namespace TableConstraint

/-- The constraint with these parts, if they are texts. -/
def ofParts (isPrimary : Bool) (columns : List Json) (name : Json) : Read TableConstraint :=
  ((((Lenient.each Lenient.text 0 columns).under "columns").map (TableConstraint.mk isPrimary)).and
    ((Lenient.optional Lenient.text name).under "name")).toRead

end TableConstraint

/-- What is said about a constraint that is left out. -/
def constraintMessage (name : Json) : String :=
  if name.truthy then "constraint " ++ name.display else ""

/-- The columns a key is made of. -/
def keyColumns (table : TableDraft) (body : Members) : Read (List Json) := do
  Node.strings (← Node.require (.obj body) "keys" table.name)

/-- A key: on the column itself if there is one, on the table otherwise. -/
def applyKey (table : TableDraft) (isPrimary : Bool) (keys : List Json) (name : Json)
    (change : ColumnDraft → ColumnDraft) : Read TableDraft := do
  match keys with
  | [key] => table.modifyColumn key change
  | keys =>
    keys.forM table.requireColumn
    let constraint ← TableConstraint.ofParts isPrimary keys name
    return { table with constraints := table.constraints ++ [constraint] }

/-- Applies a constraint of a known kind to its table. -/
def applyTableConstraint (settings : Settings) (place : Place) (table : TableDraft)
    (body : Members) : TableConstraintKind → Traced TableDraft
  | .primaryKey => do
    let keys ← keyColumns table body
    if table.hasPrimaryKey then
      Traced.ofRead (.error (.structural table.name "multiple primary keys"))
    else applyKey table true keys (body.get "conname") fun c => { c with isPrimaryKey := true }
  | .unique => do
    let keys ← keyColumns table body
    applyKey table false keys (body.get "conname") fun c => { c with isUnique := true }
  | .reference => do
    let sources ← Node.strings (← Node.require (.obj body) "fk_attrs" table.name)
    match ForeignKey.Draft.ofConstraint body table.name with
    | .ok draft =>
      match sources with
      | [] => Traced.ofRead (.error .mistyped)
      | source :: _ => table.modifyColumn source fun c => { c with foreignKey := some draft }
    | .error (.unsupported _ detail) =>
      let message := "(" ++ (← Node.join ", " sources) ++ ") -> " ++ detail
      Traced.mark place (.unsupported (LetterCase.upper ForeignKey.composite)
        (← Marker.readEntity table.name) message)
      return table
    | .error fault => Traced.ofRead (.error fault)
  | .check => do
    match ← readCheck place table.name body with
    | none => return table
    | some check =>
      match check.columns with
      | [only] =>
        match table.column? only with
        | some column =>
          let column ← check.onColumn settings column
          table.modifyColumn only fun _ => column
        | none => check.onTable table
      | _ => check.onTable table
  | .exclusion => do
    Traced.mark place (.unsupported "EXCLUDE" (← Marker.readEntity table.name)
      (constraintMessage (body.get "conname")))
    return table

/-- Applies a constraint to its table. -/
def tableConstraint (settings : Settings) (table : TableDraft) (body : Members) :
    Traced TableDraft := do
  let place : Place := ⟨table.name, .null⟩
  let code ← Node.require (.obj body) "contype" table.name
  let table ← match ← constraintKind? TableConstraintKind.codes code with
    | some kind => applyTableConstraint settings place table body kind
    | none => do
      let label ← constraintLabel code
      Traced.mark place (.unsupported label (← Marker.readEntity table.name)
        (constraintMessage (body.get "conname")))
      pure table
  checkDeferrable place table.name body
  return table

end StrictDdl
