import StrictDdl.EnumRegistry
import StrictDdl.Journal
import StrictDdl.ParseTree.Node

/-! The enumerations that the statements of a document declare. They are read before
anything else, so a column may use an enumeration that is declared after it. -/
namespace StrictDdl

/-- How a statement is named by its position. -/
def statementEntity (position : Nat) : String := "statement[" ++ writeNat position ++ "]"

namespace EnumType

/-- The enumeration with these parts, if they are texts. -/
def ofParts (name : Json) (labels : List Json) : Read EnumType :=
  ((((Lenient.fullText name).under "name").map EnumType.mk).and
    ((Lenient.each Lenient.text 0 labels).under "values")).toRead

/-- The enumeration a statement declares; `enums` are those before it. -/
def ofStatement (enums : EnumRegistry) (position : Nat) (statement : Json) : Read EnumType := do
  let entity := Json.str (statementEntity position)
  let body ← Node.body statement
  let names ← Node.strings (← Node.require (.obj body) "typeName" entity)
  match names.getLast? with
  | none => .error (.structural entity "enum has no name")
  | some name =>
    let key ← name.key
    let known := match key with
      | .str s => enums.contains s
      | _ => false
    if known then .error (.structural entity ("duplicate enum '" ++ name.display ++ "'"))
    else ofParts name (← Node.strings (body.get "vals"))

end EnumType

namespace EnumRegistry

/-- The enumerations found so far and those of the statements from a position on. -/
def declaredFrom (enums : EnumRegistry) (position : Nat) : List Json → Traced EnumRegistry
  | [] => pure enums
  | statement :: rest =>
    if Node.isA "CreateEnumStmt" statement then do
      let e ← EnumType.ofStatement enums position statement
      Traced.record {} (.enumRegistered e.name e.labels.length)
      declaredFrom (enums ++ [e]) (position + 1) rest
    else declaredFrom enums (position + 1) rest

/-- The enumerations the statements declare. -/
def declared (statements : List Json) : Traced EnumRegistry := declaredFrom [] 0 statements

end EnumRegistry

end StrictDdl
