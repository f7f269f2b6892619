import StrictDdl.Journal
import StrictDdl.Log

/-! The log records that a journal amounts to. -/
namespace StrictDdl

/-- The loggers of a run. -/
inductive Logger where
  | enums
  | builder
  | ddl
  | document
  | regeneration
  | checkpoint
  | service
  deriving DecidableEq

namespace Logger

def name : Logger → String
  | .enums => "core.schema.enum_registry"
  | .builder => "core.schema.model_builder"
  | .ddl => "core.schema.ddl_emitter"
  | .document => "core.schema.json_schema_emitter"
  | .regeneration => "core.schema.reverse_emitter"
  | .checkpoint => "checkpoint"
  | .service => "services.translation_service"

end Logger

namespace Marker

def logMessage (m : Marker) : String :=
  m.kind.name ++ ": " ++ m.construct ++ " at " ++ m.entity ++ ": " ++ m.message

end Marker

namespace Place

/-- The context of a run with this target, at the place. -/
def context (target : String) (p : Place) : LogContext :=
  { target := .str target
    table := p.table
    column := p.column
    operation := if p.table.isNull then .null else .str "build_table" }

end Place

namespace Event

/-- How many of something. -/
def amount (n : Nat) : Json := .int n

/-- The record of an event; what the output drops is only marked. -/
def record? (context : LogContext) : Event → Option LogRecord
  | .enumRegistered name labels =>
    debug .enums ("Registered enum " ++ name ++ " with " ++ writeNat labels ++ " values")
  | .enumPassed position =>
    debug .builder ("Enum at statement[" ++ writeNat position ++ "] already registered")
  | .marked m =>
    some { level := .int LogLevel.warning, logger := Logger.builder.name, message := m.logMessage }
  | .dropped _ => none
  | .columnRead entity source storage =>
    debug .builder ("Column " ++ entity ++ ": " ++ source ++ " -> " ++ storage)
  | .tableRead table columns =>
    debug .builder
      ("Built table " ++ table.display ++ " with " ++ writeNat columns ++ " columns")
  | .modelBuilt tables markers =>
    some (LogRecord.checkpoint context (.str "model_built")
      (.obj [("tables", amount tables), ("markers", amount markers)]))
  | .tableWritten table => debug .ddl ("Generating table " ++ table)
  | .ddlWritten tables indexes =>
    info .ddl ("Generated SQLite DDL for " ++ writeNat tables ++ " tables, " ++
      writeNat indexes ++ " indexes")
  | .documentWritten tables definitions =>
    info .document ("Generated declarative schema for " ++ writeNat tables ++ " tables, " ++
      writeNat definitions ++ " shared enums")
  | .ddlRegenerated tables indexes =>
    info .regeneration ("Regenerated DDL for " ++ writeNat tables ++ " tables, " ++
      writeNat indexes ++ " indexes")
  | .outputEmitted markers =>
    some (LogRecord.checkpoint context (.str "output_emitted")
      (.obj [("markers", amount markers)]))
  | .completed markers =>
    some {
      logger := Logger.service.name
      message :=
        if markers = 0 then "Translation completed without fidelity loss"
        else "Translation completed with " ++ writeNat markers ++ " markers"
      data := .obj (LogRecord.contextual context (some "service") []) }
where
  debug (logger : Logger) (message : String) : Option LogRecord :=
    some { level := .int LogLevel.debug, logger := logger.name, message }
  info (logger : Logger) (message : String) : Option LogRecord :=
    some { logger := logger.name, message }

end Event

namespace Journal

/-- The records of a run with this target, each with its context. -/
def records (target : String) (j : Journal) : List (LogContext × LogRecord) :=
  j.filterMap fun e =>
    let context := e.place.context target
    (e.event.record? context).map fun r => (context, r)

end Journal

/-- The targets of the conversions as the log names them. -/
def ddlTarget : String := "sqlite_ddl"

def documentTarget : String := "declarative_schema"

def regenerationTarget : String := "schema_ddl"

end StrictDdl
