import StrictDdl.Ddl.OfModel
import StrictDdl.Document.Load
import StrictDdl.Document.OfModel
import StrictDdl.Document.ToDdl
import StrictDdl.Model.Build

/-! The three conversions: a parse tree to a script, a parse tree to a schema document,
and a schema document back to a script of its structure. Each result comes with the
markers of everything that was lost on the way. -/
namespace StrictDdl

/-- A result and what it lacks. -/
structure Converted (α : Type) where
  output : α
  markers : List Marker

namespace Converted

variable {α : Type}

def isLossless (c : Converted α) : Bool := c.markers.isEmpty

/-- The markers of one kind. -/
def markersOf (c : Converted α) (kind : MarkerKind) : List Marker :=
  c.markers.filter fun m => m.kind = kind

/-- Tells the journal that the result is there. -/
def announce (c : Converted α) : Traced (Converted α) := do
  Traced.record {} (.outputEmitted c.markers.length)
  Traced.record {} (.completed c.markers.length)
  return c

end Converted

namespace Convert

/-- The model of a parse tree, told to the journal. -/
def model (settings : Settings) (tree : Json) : Traced Model := do
  let m ← Model.build settings tree
  Traced.record {} (.modelBuilt m.tables.length m.markers.length)
  return m

/-- A parse tree as a script. -/
def toDdl (settings : Settings) (tree : Json) : Traced (Converted Ddl.Script) := do
  let m ← model settings tree
  let (script, dropped) ← (m.script settings).collecting
  Converted.announce ⟨script, m.markers ++ dropped⟩

/-- A parse tree as a schema document. -/
def toDocument (settings : Settings) (tree : Json) : Traced (Converted Document) := do
  let m ← model settings tree
  let (document, dropped) ← (m.document settings).collecting
  Converted.announce ⟨document, m.markers ++ dropped⟩

/-- The structure of a schema document as a script. -/
def render (settings : Settings) (source : Json) : Traced (Converted Ddl.Script) := do
  let document ← Document.load source
  let (script, dropped) ← (document.script settings).collecting
  Converted.announce ⟨script, dropped⟩

end Convert

end StrictDdl
