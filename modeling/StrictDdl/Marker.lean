import StrictDdl.Lenient

/-! Markers: the record of what a conversion could not carry over.

A marker accompanies the output and never replaces it. It is bound to the table,
column or statement that lost something. -/
namespace StrictDdl

inductive MarkerKind where
  | unsupportedConstruct
  | classificationMiss
  | unresolvedReference
  deriving DecidableEq

namespace MarkerKind

def name : MarkerKind → String
  | .unsupportedConstruct => "unsupported_construct"
  | .classificationMiss => "classification_miss"
  | .unresolvedReference => "unresolved_reference"

end MarkerKind

structure Marker where
  kind : MarkerKind
  construct : String
  entity : String
  message : String
  deriving DecidableEq

namespace Marker

/-- Marks a construct without a counterpart. -/
def unsupported (construct entity message : String) : Marker :=
  ⟨.unsupportedConstruct, construct, entity,
    if message = "" then construct ++ " is not supported" else message⟩

/-- Marks something that is of no known shape. -/
def miss (construct entity message : String) : Marker :=
  ⟨.classificationMiss, construct, entity, message⟩

/-- Marks a reference to nothing. -/
def unresolved (construct entity message : String) : Marker :=
  ⟨.unresolvedReference, construct, entity, message⟩

/-- An entity that is named in a tree, which has to be a text. -/
def readEntity (j : Json) : Read String := ((Lenient.text j).under "entity").toRead

def toJson (m : Marker) : Json :=
  .obj [("kind", .str m.kind.name), ("construct", .str m.construct), ("entity", .str m.entity),
    ("message", .str m.message)]

end Marker

end StrictDdl
