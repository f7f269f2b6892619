import StrictDdl.Fault

/-! The enumerations of a document, in the order of their declarations. -/
namespace StrictDdl

structure EnumType where
  name : String
  labels : List String
  deriving DecidableEq

abbrev EnumRegistry := List EnumType

namespace EnumRegistry

def find? (enums : EnumRegistry) (name : String) : Option EnumType :=
  List.find? (fun e => e.name = name) enums

def contains (enums : EnumRegistry) (name : String) : Bool := (enums.find? name).isSome

/-- The labels of an enumeration; an unknown one has none. -/
def labels (enums : EnumRegistry) (name : String) : List String :=
  match enums.find? name with
  | some e => e.labels
  | none => []

end EnumRegistry

end StrictDdl
