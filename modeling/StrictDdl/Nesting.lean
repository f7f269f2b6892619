import StrictDdl.Fault

/-! How deeply values may be nested.

A record that holds another of its own kind opens a level for each of them, and so
does every value inside a value of no particular type. Reading and writing admit the
same number of open levels. -/
namespace StrictDdl

namespace Nesting

/-- The most levels that may be open at once. -/
def limit : Nat := 255

/-- What is said of a record that stands too deep to be read. -/
def tooDeep : String := "recursion_depth_exceeded"

/-- Refuses to write what opens too many levels. -/
def within (levels : Nat) : Read Unit :=
  if levels ≤ limit then .ok () else .error (.badValue "Maximum serialization depth exceeded")

end Nesting

namespace Json

mutual

/-- The levels that a value opens: its own, and those of what it holds. -/
def levels : Json → Nat
  | .arr items => levelsAll items + 1
  | .obj ms => levelsOfMembers ms + 1
  | _ => 1

/-- The most levels that one of these values opens. -/
def levelsAll : List Json → Nat
  | [] => 0
  | j :: rest => max (levels j) (levelsAll rest)

/-- The most levels that the value of one of these members opens. -/
def levelsOfMembers : List (String × Json) → Nat
  | [] => 0
  | (_, j) :: rest => max (levels j) (levelsOfMembers rest)

end

end Json

end StrictDdl
