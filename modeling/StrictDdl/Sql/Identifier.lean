import StrictDdl.Text.LetterCase

/-! Names in SQL text.

A name stands as it is when it is a run of ASCII letters, digits and underscores,
does not start with a digit and is no keyword; one line break may follow the run.
Any other name is quoted, with the quotes inside it doubled. -/
namespace StrictDdl.Sql

/-- The words a name may not be, in lower case. -/
def keywords : List String :=
  ["abort", "action", "add", "after", "all", "alter", "always", "analyze", "and", "as", "asc",
   "attach", "autoincrement", "before", "begin", "between", "by", "cascade", "case", "cast",
   "check", "collate", "column", "commit", "conflict", "constraint", "create", "cross", "current",
   "current_date", "current_time", "current_timestamp", "database", "default", "deferrable",
   "deferred", "delete", "desc", "detach", "distinct", "do", "drop", "each", "else", "end",
   "escape", "except", "exclude", "exclusive", "exists", "explain", "fail", "filter", "first",
   "following", "for", "foreign", "from", "full", "generated", "glob", "group", "groups", "having",
   "if", "ignore", "immediate", "in", "index", "indexed", "initially", "inner", "insert",
   "instead", "intersect", "into", "is", "isnull", "join", "key", "last", "left", "like", "limit",
   "match", "materialized", "natural", "no", "not", "nothing", "notnull", "null", "nulls", "of",
   "offset", "on", "or", "order", "others", "outer", "over", "partition", "plan", "pragma",
   "preceding", "primary", "query", "raise", "range", "recursive", "references", "regexp",
   "reindex", "release", "rename", "replace", "restrict", "returning", "right", "rollback", "row",
   "rows", "savepoint", "select", "set", "table", "temp", "temporary", "then", "ties", "to",
   "transaction", "trigger", "unbounded", "union", "unique", "update", "using", "vacuum", "values",
   "view", "virtual", "when", "where", "window", "with", "without"]

def isKeyword (name : String) : Bool := keywords.contains (LetterCase.lower name)

/-- A character that may start a bare name. -/
def isStart (c : Char) : Bool := ('A' ≤ c && c ≤ 'Z') || ('a' ≤ c && c ≤ 'z') || c = '_'

/-- A character that may stand inside a bare name. -/
def isWord (c : Char) : Bool := isStart c || ('0' ≤ c && c ≤ '9')

/-- Word characters up to the end, or up to one line break at the end. -/
def isBareRest : List Char → Bool
  | [] => true
  | ['\n'] => true
  | c :: rest => isWord c && isBareRest rest

def isBare : List Char → Bool
  | [] => false
  | c :: rest => isStart c && isBareRest rest

def needsQuoting (name : String) : Bool := isKeyword name || !isBare name.toList

/-- Every quote written twice. -/
def doubled (quote : Char) : List Char → List Char
  | [] => []
  | c :: rest => if c = quote then c :: c :: doubled quote rest else c :: doubled quote rest

/-- A text between quotes. -/
def enclosed (quote : Char) (s : String) : String :=
  String.ofList (quote :: doubled quote s.toList ++ [quote])

/-- A name as SQL text. -/
def identifier (name : String) : String :=
  if needsQuoting name then enclosed '"' name else name

def identifiers (names : List String) : String :=
  String.intercalate ", " (names.map identifier)

/-- The name of an index that was given none. -/
def indexName (stem table : String) (columns : List String) : String :=
  stem ++ "_" ++ table ++ "_" ++ String.intercalate "_" columns

end StrictDdl.Sql
