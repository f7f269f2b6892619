import StrictDdl.Json.Display
import StrictDdl.Scalar
import StrictDdl.Sql.Identifier

/-! Constants in SQL text: texts in single quotes with the quotes inside doubled,
truth values as one and zero where the database has no such type. -/
namespace StrictDdl

namespace Sql

/-- A text constant. -/
def textLiteral (s : String) : String := enclosed '\'' s

end Sql

namespace Json

/-- A value as a constant of the target dialect. -/
def sqlLiteral : Json → String
  | .null => "NULL"
  | .bool b => if b then "1" else "0"
  | .int n => writeInt n
  | .float x => x.write .plain
  | j => Sql.textLiteral j.display

/-- A value as a constant of the source dialect. -/
def sourceLiteral : Json → String
  | .null => "NULL"
  | .bool b => if b then "TRUE" else "FALSE"
  | .str s => Sql.textLiteral s
  | j => j.literal

end Json

namespace Scalar

def sqlLiteral (s : Scalar) : String := s.toJson.sqlLiteral

end Scalar

end StrictDdl
