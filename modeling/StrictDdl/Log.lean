import StrictDdl.Json.Display
import StrictDdl.Json.Same
import StrictDdl.Json.Writer
import StrictDdl.Lenient
import StrictDdl.ParseTree.Node
import StrictDdl.Text.LetterCase

/-! Log records, the context they are written in, and their two layouts.

A context says which run, table and column a record belongs to. Contexts are nested:
an inner one takes over what it does not set. -/
namespace StrictDdl

/-! ### Levels -/

namespace LogLevel

def debug : Nat := 10

def info : Nat := 20

def warning : Nat := 30

def names : List (Nat × String) :=
  [(50, "CRITICAL"), (40, "ERROR"), (30, "WARNING"), (20, "INFO"), (10, "DEBUG"), (0, "NOTSET")]

/-- The name of a level; a level between the named ones is told by its number. -/
def name (level : Json) : String :=
  match names.find? fun entry => level.same (.int entry.1) with
  | some (_, name) => name
  | none => "Level " ++ level.display

/-- The levels by name, with the short ones. -/
def byName : List (String × Nat) :=
  names.map (fun entry => (entry.2, entry.1)) ++ [("FATAL", 50), ("WARN", 30)]

/-- The level a setting asks for. A text is a name in any case; an unknown one means
the usual level. -/
def ofSetting : Json → Read Json
  | .str s => .ok (.int ((byName.lookup (LetterCase.upper s)).getD info))
  | .int n => .ok (.int n)
  | .bool b => .ok (.bool b)
  | _ => .error .mistyped

end LogLevel

/-! ### Contexts -/

/-- What the records of a run have in common; `null` is not set. -/
structure LogContext where
  run : Json := .null
  target : Json := .null
  table : Json := .null
  column : Json := .null
  component : Json := .null
  operation : Json := .null
  /-- Anything else, in order. -/
  extra : Members := []

namespace LogContext

/-- The key of the run. -/
def runKey : String := "translation_id"

/-- Sets members one after another. -/
def setAll (into values : Members) : Members :=
  values.foldl (fun ms entry => ms.set entry.1 entry.2) into

/-- The parts of a value: items, the keys of an object, or the characters of a text. -/
def parts : Json → Read (List Json)
  | .arr js => .ok js
  | .obj ms => .ok (ms.map fun entry => .str entry.1)
  | .str s => .ok (s.toList.map fun c => .str (String.ofList [c]))
  | _ => .error .mistyped

/-- A member from its key and value; `index` is its place among the others. -/
def pair (index : Nat) (j : Json) : Read (String × Json) := do
  match ← parts j with
  | [.arr _, _] | [.obj _, _] => .error .mistyped
  | [.str key, value] => return (key, value)
  | [key, value] => return (key.write, value)
  | js => .error (.badValue ("dictionary update sequence element #" ++ writeNat index ++
      " has length " ++ writeNat js.length ++ "; 2 is required"))

def pairs : Nat → List Json → Read Members
  | _, [] => .ok []
  | index, j :: js => do return (← pair index j) :: (← pairs (index + 1) js)

/-- Extra values: an object or a list of pairs, of which a later one replaces an
earlier one with its key. What is not set holds none. -/
def readExtra : Json → Read Members
  | .obj ms => .ok ms
  | j =>
    if j.truthy then do return setAll [] (← pairs 0 (← parts j)) else .ok []

/-- Sets one value: a field, or one of the extra values. -/
def set (c : LogContext) (key : String) (value : Json) : LogContext :=
  if key = runKey then { c with run := value }
  else match key with
    | "target" => { c with target := value }
    | "table" => { c with table := value }
    | "column" => { c with column := value }
    | "component" => { c with component := value }
    | "operation" => { c with operation := value }
    | "extra" => c
    | key => { c with extra := c.extra.set key value }

/-- The one key that no context can set. -/
def reservedKey : String := "self"

/-- The context inside this one that sets the given values. More extra values may come
as a value of their own. -/
def inner (c : LogContext) (values : Members) : Read LogContext := do
  if values.has reservedKey then .error .mistyped
  let c := values.foldl (fun c entry => c.set entry.1 entry.2) c
  return { c with extra := setAll c.extra (← readExtra (values.get "extra")) }

/-- The fields that are set. -/
def fields (c : LogContext) : Members :=
  [(runKey, c.run), ("target", c.target), ("table", c.table), ("column", c.column),
    ("component", c.component), ("operation", c.operation)].filter fun entry => !entry.2.isNull

/-- Everything that is set. -/
def toMembers (c : LogContext) : Members := setAll c.fields c.extra

/-- The table, or the table and its column. -/
def location (c : LogContext) : Json :=
  if c.table.isNull then .null
  else if c.column.truthy then .str (c.table.display ++ "." ++ c.column.display)
  else c.table

end LogContext

/-- The contexts that are open, the innermost first. -/
abbrev LogStack := List LogContext

namespace LogStack

def current (s : LogStack) : LogContext := s.head?.getD {}

def push (s : LogStack) (values : Members) : Read LogStack := do
  return (← s.current.inner values) :: s

def pop : LogStack → Read LogStack
  | [] => .error .mistyped
  | _ :: outer => .ok outer

end LogStack

/-! ### Records -/

structure LogRecord where
  level : Json := .int LogLevel.info
  logger : String
  message : String
  data : Json := .null
  /-- The text of an error that goes with the record. -/
  error : Option String := none

namespace LogRecord

/-- An error as it is shown; an empty text is left out. -/
def errorText (text : String) : String :=
  if text = "" then "ValueError" else "ValueError: " ++ text

/-- Which optional parts a record is written with. -/
structure Layout where
  level : Bool := true
  logger : Bool := true
  context : Bool := true

/-- Where every record says it comes from. -/
structure Source where
  file : String
  line : Nat
  function : String

/-- The record as one JSON object. -/
def structured (layout : Layout) (source : Source) (context : LogContext) (r : LogRecord) :
    String :=
  let shown := context.toMembers
  Json.write (.obj (
    (if layout.level then [("level", .str (LogLevel.name r.level))] else []) ++
    (if layout.logger then [("logger", .str r.logger)] else []) ++
    [("message", .str r.message)] ++
    (if layout.context && !shown.isEmpty then [("context", .obj shown)] else []) ++
    (if r.data.truthy then [("data", r.data)] else []) ++
    Members.given "exception" (r.error.map fun text => .str (errorText text)) ++
    [("source", .obj [("file", .str source.file), ("line", .int source.line),
      ("function", .str source.function)])]))

/-- A text filled up with blanks on the right. -/
def padRight (width : Nat) (s : String) : String :=
  s ++ String.ofList (List.replicate (width - s.length) ' ')

/-- The record as a line to read. -/
def line (context : LogContext) (r : LogRecord) : String :=
  let tag (label : String) (value : Json) : List String :=
    if value.truthy then [label ++ "=" ++ value.display] else []
  let tags := tag "tr" context.run ++ tag "target" context.target ++ tag "at" context.location
  padRight 8 (LogLevel.name r.level) ++ " " ++ r.logger ++
    (if tags.isEmpty then "" else " [" ++ String.intercalate ", " tags ++ "]") ++
    ": " ++ r.message ++
    (if r.data.truthy then " " ++ r.data.display else "") ++
    (match r.error with
      | some text => "\n" ++ errorText text
      | none => "")

/-- A milestone of a run. -/
def checkpoint (context : LogContext) (name data : Json) : LogRecord where
  logger := "checkpoint"
  message := "CHECKPOINT: " ++ name.display
  data := .obj ([("checkpoint", name)] ++
    (if context.run.truthy then [(LogContext.runKey, context.run)] else []) ++
    (if context.target.truthy then [("target", context.target)] else []) ++
    (if data.truthy then [("data", data)] else []))

/-- The data of a record whose logger adds the context to it; what the context sets
wins, and the logger's own component fills a gap. -/
def contextual (context : LogContext) (component : Option String) (data : Members) : Members :=
  let data := LogContext.setAll data context.toMembers
  match component with
  | some name => if data.has "component" then data else data ++ [("component", .str name)]
  | none => data

end LogRecord

/-! ### Loggers and components -/

/-- The logger a value names; the one above all others has no name of its own. -/
def readLogger (j : Json) : Read String :=
  match j with
  | .str s => .ok (if s = "" then "root" else s)
  | j => if j.truthy then .error .mistyped else .ok "root"

/-- The parts of the program that write records. -/
def componentNames : List String := ["builder", "classifier", "emitter", "service", "api"]

/-- The component a value names. -/
def readComponent (j : Json) : Read (Option String) :=
  match j with
  | .null => .ok none
  | .str s => if componentNames.contains s then .ok (some s) else unknown j
  | j => unknown j
where
  unknown (j : Json) : Read (Option String) :=
    .error (.badValue (j.literal ++ " is not a valid ComponentType"))

end StrictDdl
