import StrictDdl.Fault
import StrictDdl.Numeric.Number
import StrictDdl.ParseTree.Constant
import StrictDdl.Text.Blank
import StrictDdl.Text.LetterCase

/-! Settings: choices of the conversion and of the log, with their built-in values,
and how an environment changes them. The settings in force are read from the
environment once and kept until they are dropped; a failed reading keeps nothing. -/
namespace StrictDdl

/-- The choices of a conversion. -/
structure Settings where
  /-- The rounding error that the check of a decimal column tolerates. -/
  decimalEpsilon : Binary64 := .ofDecimal false 1 (-9)
  /-- Whether strict bounds on whole numbers become inclusive ones. -/
  adjustStrictBounds : Bool := true
  /-- How many columns have to share an enumeration before it gets a definition. -/
  sharedEnumMinRefs : Int := 2
  schemaUri : String := "https://json-schema.org/draft/2020-12/schema"
  /-- What generated index names start with. -/
  indexStem : String := "idx"

namespace Settings

/-- Settings that make sense: a positive tolerance and a positive count. -/
def validate (s : Settings) : Read Settings :=
  let zero : Number := .int 0
  let epsilon : Number := .float s.decimalEpsilon
  if epsilon.lt zero || epsilon.same zero then .error (.badValue "decimal_epsilon must be positive")
  else if s.sharedEnumMinRefs < 1 then
    .error (.badValue "shared_enum_min_refs must be at least 1")
  else .ok s

end Settings

/-- The choices of the log. -/
structure LogSettings where
  level : String := "INFO"
  json : Bool := false

structure AllSettings where
  conversion : Settings := {}
  log : LogSettings := {}

/-! ### The environment -/

/-- The variables that are set, with their values. -/
abbrev Environment := List (String × String)

namespace Environment

def get? (env : Environment) (name : String) : Option String := env.lookup name

def unset (env : Environment) (name : String) : Environment :=
  env.filter fun entry => entry.1 ≠ name

def set (env : Environment) (name value : String) : Environment :=
  (name, value) :: env.unset name

/-- The words that switch a setting on. -/
def onWords : List String := ["1", "true", "yes", "on"]

/-- A switch: on if the variable is one of the words, whatever its case. -/
def switch (env : Environment) (name : String) (absent : Bool) : Bool :=
  match env.get? name with
  | none => absent
  | some value => onWords.contains (LetterCase.lower (Text.trim value))

def conversionSettings (env : Environment) : Read Settings := do
  let builtin : Settings := {}
  let epsilon ← match env.get? "DDL_DECIMAL_EPSILON" with
    | some value => Json.toFloat (.str value)
    | none => pure builtin.decimalEpsilon
  let minRefs ← match env.get? "DDL_SHARED_ENUM_MIN_REFS" with
    | some value => Json.toInt (.str value)
    | none => pure builtin.sharedEnumMinRefs
  Settings.validate
    { decimalEpsilon := epsilon
      adjustStrictBounds := env.switch "DDL_ADJUST_INTEGER_BOUNDS" builtin.adjustStrictBounds
      sharedEnumMinRefs := minRefs
      schemaUri := (env.get? "DDL_SCHEMA_URI").getD builtin.schemaUri
      indexStem := (env.get? "DDL_INDEX_PREFIX").getD builtin.indexStem }

def logSettings (env : Environment) : LogSettings where
  level := (env.get? "LOG_LEVEL").getD "INFO"
  json := LetterCase.lower ((env.get? "LOG_FORMAT").getD "") = "json"

def settings (env : Environment) : Read AllSettings := do
  return { conversion := ← env.conversionSettings, log := env.logSettings }

end Environment

/-- An environment and the settings that were read from it, if they are kept. -/
structure SettingsStore where
  env : Environment := []
  kept : Option AllSettings := none

namespace SettingsStore

/-- The settings in force, read on the first use. -/
def get (store : SettingsStore) : Read AllSettings × SettingsStore :=
  match store.kept with
  | some settings => (.ok settings, store)
  | none =>
    match store.env.settings with
    | .ok settings => (.ok settings, { store with kept := some settings })
    | .error fault => (.error fault, store)

/-- Drops the settings in force. -/
def reset (store : SettingsStore) : SettingsStore := { store with kept := none }

end SettingsStore

end StrictDdl
