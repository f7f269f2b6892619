import StrictDdl.Fault

/-! Functions and operators of the two dialects, and the counterparts they have. -/
namespace StrictDdl.Sql

/-- The schema that holds what is built in. -/
def builtinSchema : String := "pg_catalog"

/-! ### Functions -/

/-- A random identifier in the format of version four. -/
def randomUuid : String :=
  "lower(hex(randomblob(4))) || '-' || lower(hex(randomblob(2))) || '-4' || " ++
  "substr(lower(hex(randomblob(2))), 2) || '-' || " ++
  "substr('89ab', abs(random()) % 4 + 1, 1) || " ++
  "substr(lower(hex(randomblob(2))), 2) || '-' || lower(hex(randomblob(6)))"

/-- Functions without arguments and value functions, by their lower-case names,
with the expression that computes the same. -/
def computed : List (String × String) :=
  [("now", "datetime('now')"),
   ("current_timestamp", "datetime('now')"),
   ("clock_timestamp", "datetime('now')"),
   ("statement_timestamp", "datetime('now')"),
   ("transaction_timestamp", "datetime('now')"),
   ("current_date", "date('now')"),
   ("current_time", "time('now')"),
   ("localtime", "time('now', 'localtime')"),
   ("localtimestamp", "datetime('now', 'localtime')"),
   ("random", "random()"),
   ("gen_random_uuid", randomUuid),
   ("uuid_generate_v4", randomUuid)]

def computed? (name : String) : Option String := computed.lookup name

/-- Functions of the source with another name in the target. -/
def renamed : List (String × String) :=
  [("length", "length"),
   ("char_length", "length"),
   ("character_length", "length"),
   ("octet_length", "length"),
   ("lower", "lower"),
   ("upper", "upper"),
   ("substr", "substr"),
   ("substring", "substr"),
   ("trim", "trim"),
   ("btrim", "trim"),
   ("ltrim", "ltrim"),
   ("rtrim", "rtrim"),
   ("replace", "replace"),
   ("coalesce", "coalesce"),
   ("nullif", "nullif"),
   ("abs", "abs"),
   ("round", "round"),
   ("greatest", "max"),
   ("least", "min")]

/-- The name of a function in the target. -/
def targetFunction (name : String) : String := (renamed.lookup name).getD name

/-- Value functions by the parser's code, as keywords in lower case. -/
def valueFunctions : List (String × String) :=
  [("SVFOP_CURRENT_DATE", "current_date"),
   ("SVFOP_CURRENT_TIME", "current_time"),
   ("SVFOP_CURRENT_TIME_N", "current_time"),
   ("SVFOP_CURRENT_TIMESTAMP", "current_timestamp"),
   ("SVFOP_CURRENT_TIMESTAMP_N", "current_timestamp"),
   ("SVFOP_LOCALTIME", "localtime"),
   ("SVFOP_LOCALTIME_N", "localtime"),
   ("SVFOP_LOCALTIMESTAMP", "localtimestamp"),
   ("SVFOP_LOCALTIMESTAMP_N", "localtimestamp"),
   ("SVFOP_CURRENT_ROLE", "current_role"),
   ("SVFOP_CURRENT_USER", "current_user"),
   ("SVFOP_USER", "user"),
   ("SVFOP_SESSION_USER", "session_user"),
   ("SVFOP_CURRENT_CATALOG", "current_catalog"),
   ("SVFOP_CURRENT_SCHEMA", "current_schema")]

/-- The keyword of a value function's code. -/
def valueFunction? : Json → Option String
  | .str code => valueFunctions.lookup code
  | _ => none

/-! ### Operators -/

/-- Operators that the target spells differently. -/
def respelled : List (String × String) :=
  [("~~", "LIKE"),
   ("~~*", "LIKE"),
   ("!~~", "NOT LIKE"),
   ("!~~*", "NOT LIKE"),
   ("~", "REGEXP"),
   ("~*", "REGEXP"),
   ("!~", "NOT REGEXP"),
   ("!~*", "NOT REGEXP"),
   ("!=", "<>")]

/-- Operators that both dialects spell alike. -/
def shared : List String := ["=", "<>", "<", ">", "<=", ">=", "+", "-", "*", "/", "%", "||"]

def comparisons : List String := ["=", "<>", "!=", "<", ">", "<=", ">="]

/-- The operator that says the same with its operands exchanged. -/
def flipped? (op : String) : Option String :=
  [(">=", "<="), ("<=", ">="), (">", "<"), ("<", ">")].lookup op

/-- The operator that matches a text with a pattern. -/
def patternOperator : String := "~"

/-- How texts spell the truth values, in lower case. -/
def trueSpellings : List String := ["t", "true", "y", "yes", "on", "1"]

def falseSpellings : List String := ["f", "false", "n", "no", "off", "0"]

end StrictDdl.Sql
