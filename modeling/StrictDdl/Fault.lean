import StrictDdl.Json.Display

/-! What can go wrong, by cause, and what is said about it.

A structural fault ends a whole conversion. An unsupported construct, and in
particular an expression without a form in a dialect, ends only the reading of
one part; whoever reads the part turns it into a marker. The remaining faults
come from data of the wrong kind: a text that spells no number, an infinity where
a whole number is wanted, a value a record does not admit, or a value used in a
way its type does not allow. -/
namespace StrictDdl

/-- The two ways of writing an expression. -/
inductive Dialect where
  /-- The source dialect, for messages and computed defaults. -/
  | postgres
  /-- The target dialect, for the clauses of emitted tables. -/
  | sqlite
  deriving DecidableEq

namespace Dialect

def name : Dialect → String
  | .postgres => "postgres"
  | .sqlite => "sqlite"

def ofName? (s : String) : Option Dialect :=
  [postgres, sqlite].find? fun d => d.name = s

end Dialect

/-- A rejected part of a value: where it stands and what is wrong with it. -/
structure Problem where
  path : List String
  code : String
  deriving DecidableEq

namespace Problem

/-- The same problem seen from an enclosing value. -/
def under (step : String) (p : Problem) : Problem := ⟨step :: p.path, p.code⟩

def location (p : Problem) : String := String.intercalate "/" p.path

end Problem

inductive Fault where
  /-- A required property of the input does not hold. The entity is the table,
  column or statement concerned; it is named in front of the reason if set. -/
  | structural (entity : Json) (reason : String)
  /-- A walk along references comes back to where it has been. -/
  | cyclic (chain : List String)
  /-- A recognised construct without a counterpart. -/
  | unsupported (construct detail : String)
  /-- An expression node without a form in the dialect. -/
  | unrenderable (kind : String) (dialect : Dialect)
  /-- A schema document with parts of the wrong shape. -/
  | invalidDocument (problems : List Problem)
  /-- Other data with parts of the wrong shape. -/
  | invalid (problems : List Problem)
  /-- A value outside the domain of an operation. -/
  | badValue (reason : String)
  /-- An infinity where a whole number is wanted. -/
  | overflow (reason : String)
  /-- A power of ten with an exponent that decimals do not have. -/
  | exponentRange
  /-- A value of a type that the operation on it does not have. -/
  | mistyped

/-- A result of reading input. -/
abbrev Read (α : Type) := Except Fault α

namespace Fault

/-- The construct an unsupported part is about. -/
def construct : Fault → String
  | .unsupported construct _ => construct
  | .unrenderable kind _ => "expression " ++ kind
  | _ => ""

/-- What more is known about an unsupported part. -/
def detail : Fault → String
  | .unsupported _ detail => detail
  | .unrenderable _ dialect => "no " ++ dialect.name ++ " rendering"
  | _ => ""

def unsupportedMessage (construct detail : String) : String :=
  "Unsupported: " ++ construct ++ (if detail = "" then "" else " (" ++ detail ++ ")")

/-- The first line said about a fault; faults of data have none. -/
def message : Fault → String
  | .structural entity reason => if entity.truthy then entity.display ++ ": " ++ reason else reason
  | .cyclic chain => "Cyclic reference: " ++ String.intercalate " -> " chain
  | .unsupported construct detail => unsupportedMessage construct detail
  | .unrenderable kind dialect =>
    unsupportedMessage (unrenderable kind dialect).construct (unrenderable kind dialect).detail
  | .invalidDocument problems =>
    "document: invalid schema document: " ++ writeNat problems.length ++ " errors"
  | .badValue reason => reason
  | .overflow reason => reason
  | .exponentRange => "[<class 'decimal.InvalidOperation'>]"
  | .invalid _ => ""
  | .mistyped => ""

/-- The entity a structural fault names. -/
def entity? : Fault → Option String
  | .structural (.str s) _ => if s = "" then none else some s
  | .invalidDocument _ => some "document"
  | _ => none

end Fault

/-- The dialect a value names. -/
def Dialect.read (j : Json) : Read Dialect :=
  match j.str?.bind Dialect.ofName? with
  | some d => .ok d
  | none => .error (.badValue ("Unknown dialect: " ++ j.display))

/-- A structural fault about no entity in particular. -/
def malformed {α : Type} (reason : String) : Read α := .error (.structural .null reason)

end StrictDdl
