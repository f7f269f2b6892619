import StrictDdl.Fault
import StrictDdl.Numeric.Reader
import StrictDdl.Scalar

/-! Lenient reading of data into fields.

A field takes a value of its own type as it is, and some values of other types by
conversion: a whole number may come as text, a truth value as one of its usual
spellings, and so on. What cannot be converted is reported with its place, and a
record reports the problems of all its fields together. -/
namespace StrictDdl

/-- A value that was read, or all the problems met on the way. -/
inductive Lenient (α : Type) where
  | ok (value : α)
  | refused (problems : List Problem)

namespace Lenient

variable {α β : Type}

/-- Refuses a value at its own place. -/
def refuse (code : String) : Lenient α := .refused [⟨[], code⟩]

def map (f : α → β) : Lenient α → Lenient β
  | .ok a => .ok (f a)
  | .refused problems => .refused problems

/-- Goes on with a value that was read. -/
def andThen (a : Lenient α) (f : α → Lenient β) : Lenient β :=
  match a with
  | .ok a => f a
  | .refused problems => .refused problems

/-- Reports the problems from an enclosing value. -/
def under (step : String) : Lenient α → Lenient α
  | .ok a => .ok a
  | .refused problems => .refused (problems.map (Problem.under step))

/-- Applies a function of one more field; the problems of both sides are kept. -/
def and (f : Lenient (α → β)) (a : Lenient α) : Lenient β :=
  match f, a with
  | .ok f, .ok a => .ok (f a)
  | .ok _, .refused ps => .refused ps
  | .refused ps, .ok _ => .refused ps
  | .refused ps, .refused qs => .refused (ps ++ qs)

/-- The first of two readings that succeeds, or the problems of both. -/
def or (a b : Lenient α) : Lenient α :=
  match a, b with
  | .ok a, _ => .ok a
  | .refused _, .ok b => .ok b
  | .refused ps, .refused qs => .refused (ps ++ qs)

/-- Every item of a list, each reported under its position. -/
def each (read : α → Lenient β) (position : Nat) : List α → Lenient (List β)
  | [] => .ok []
  | a :: rest =>
    ((read a).under (writeNat position)).map List.cons |>.and (each read (position + 1) rest)

/-! ### Plain values -/

def text : Json → Lenient String
  | .str s => .ok s
  | _ => refuse "string_type"

/-- A text of at least one character. -/
def fullText (j : Json) : Lenient String :=
  (text j).andThen fun s => if s = "" then refuse "string_too_short" else .ok s

/-! ### Numerals

A whole numeral in data is read by what is left of it when everything without
meaning is dropped: blanks around it, a plus in front, zeros in front with the
underscores among them, zeros behind a point, and single underscores between the
rest. What is left is a numeral without any freedom: digits that do not start with a
zero, or a single zero, and a minus in front or not. -/

def isNonzero (c : Char) : Bool := '1' ≤ c && c ≤ '9'

/-- Drops the zeros in front of a numeral and the underscores among them. The last
zero stays if a point or nothing follows. A minus may follow as well as a digit. -/
def dropLeadingZeros : List Char → Option (List Char)
  | [] => none
  | c :: rest =>
    if c = '0' then behind c rest
    else if isNonzero c || c = '-' then some (c :: rest)
    else none
where
  /-- Goes on behind a zero or an underscore. -/
  behind (last : Char) : List Char → Option (List Char)
    | [] => some [last]
    | c :: rest =>
      if c = '0' || c = '_' then behind c rest
      else if c = '.' then some (last :: c :: rest)
      else if isNonzero c || c = '-' then some (c :: rest)
      else none

/-- Drops a point with zeros and nothing else behind it. -/
def dropFraction (cs : List Char) : List Char :=
  match cs.dropWhile (· ≠ '.') with
  | _ :: zeros => if !zeros.isEmpty && zeros.all (· = '0') then cs.takeWhile (· ≠ '.') else cs
  | [] => cs

/-- Drops underscores; none may stand at an end or next to another. -/
def dropUnderscores (cs : List Char) : Option (List Char) :=
  let bad := cs.head? = some '_' || cs.getLast? = some '_' || doubled cs
  if bad then none else some (cs.filter (· ≠ '_'))
where
  doubled : List Char → Bool
    | '_' :: '_' :: _ => true
    | _ :: rest => doubled rest
    | [] => false

/-- The whole number that a numeral without any freedom spells. Sign and digits
together may not exceed the limit, whatever follows them. -/
def strictWhole (cs : List Char) : Lenient Int :=
  let (negative, ds) := match cs with
    | '-' :: rest => (true, rest)
    | cs => (false, cs)
  let (run, rest) := Numeral.span ds
  match ds with
  | [] => refuse "int_parsing"
  | c :: rest' =>
    if c = '0' then if rest'.isEmpty then .ok 0 else refuse "int_parsing"
    else if run.length + (if negative then 1 else 0) > Numeral.digitLimit then
      refuse "int_parsing_size"
    else if run.isEmpty || !rest.isEmpty then refuse "int_parsing"
    else .ok (if negative then -(Numeral.value run : Int) else Numeral.value run)

/-- The whole number a text spells. A sign is not followed by a minus, except by way
of zeros. -/
def wholeText (s : String) : Lenient Int :=
  let (negative, cs) := match Text.trimBoth Numeral.isMargin s.toList with
    | '-' :: rest => (true, rest)
    | '+' :: rest => (false, if rest.head? = some '-' then [] else rest)
    | cs => (false, cs)
  match dropLeadingZeros cs with
  | none => refuse "int_parsing"
  | some cs =>
    let cs := dropFraction cs
    let cs := (dropUnderscores cs).getD cs
    strictWhole (if negative then '-' :: cs else cs)

/-- The binary number a text spells: with blanks around it, or else with underscores
in it. -/
def floatText? (s : String) : Option Binary64 :=
  let read (cs : List Char) : Option Binary64 :=
    let (negative, cs) := Numeral.takeSign cs
    Numeral.readUnsigned? negative cs
  (read (Text.trimBoth Numeral.isMargin s.toList)).or ((dropUnderscores s.toList).bind read)

/-- A binary number as a whole number of at most 64 bits. -/
def wholeFloat (x : Binary64) : Lenient Int :=
  if !x.isFinite then refuse "finite_number"
  else
    match x.toInt? with
    | none => refuse "int_from_float"
    | some n => if n.natAbs < Nat.pow 2 63 then .ok n else refuse "int_parsing_size"

def int : Json → Lenient Int
  | .int n => .ok n
  | .bool b => .ok (if b then 1 else 0)
  | .float x => wholeFloat x
  | .str s => wholeText s
  | _ => refuse "int_type"

/-- A whole number that is not negative. -/
def natural (j : Json) : Lenient Nat :=
  (int j).andThen fun n => if n < 0 then refuse "greater_than_equal" else .ok n.toNat

/-- A binary number; a whole number has to be within its range. -/
def float : Json → Lenient Binary64
  | .float x => .ok x
  | .int n => if (Binary64.ofInt n).isFinite then .ok (.ofInt n) else refuse "float_type"
  | .bool b => .ok (.ofInt (if b then 1 else 0))
  | .str s =>
    match floatText? s with
    | some x => .ok x
    | none => refuse "float_parsing"
  | _ => refuse "float_type"

def falseWords : List String := ["0", "off", "f", "false", "n", "no"]

def trueWords : List String := ["1", "on", "t", "true", "y", "yes"]

/-- A whole number as a truth value. -/
def boolOfInt (n : Int) : Lenient Bool :=
  if n = 0 then .ok false else if n = 1 then .ok true else refuse "bool_parsing"

/-- A truth value. A number has to be whole and of at most 64 bits to be looked at. -/
def bool : Json → Lenient Bool
  | .bool b => .ok b
  | .int n =>
    if -(Nat.pow 2 63 : Int) ≤ n ∧ n < Nat.pow 2 63 then boolOfInt n else refuse "bool_type"
  | .float x =>
    match wholeFloat x with
    | .ok n => boolOfInt n
    | .refused _ => refuse "bool_type"
  | .str s =>
    let word := String.ofList (s.toList.map Char.toLower)
    if falseWords.contains word then .ok false
    else if trueWords.contains word then .ok true
    else refuse "bool_parsing"
  | _ => refuse "bool_type"

/-! ### Choices -/

/-- A number, whole or not: a number stays what it is, and anything else is read as
a whole number first. -/
def number : Json → Lenient Number
  | .int n => .ok (.int n)
  | .float x => .ok (.float x)
  | j => (((int j).map Number.int).under "int").or (((float j).map Number.float).under "float")

/-- A scalar of any type; arrays and objects are refused by every type in turn. -/
def scalar (j : Json) : Lenient Scalar :=
  match Scalar.ofJson? j with
  | some s => .ok s
  | none => .refused [⟨["bool"], "bool_type"⟩, ⟨["int"], "int_type"⟩, ⟨["float"], "float_type"⟩,
      ⟨["str"], "string_type"⟩]

/-! ### Fields -/

/-- A value that may be left out as `null`. -/
def optional (read : Json → Lenient α) : Json → Lenient (Option α)
  | .null => .ok none
  | j => (read j).map some

/-- The member under the first of these names that the object has. -/
def member? (ms : Members) : List String → Option (String × Json)
  | [] => none
  | key :: rest =>
    match ms.find? key with
    | some j => some (key, j)
    | none => member? ms rest

/-- A field that may be absent; it is found under any of its names. -/
def field (ms : Members) (keys : List String) (absent : α) (read : Json → Lenient α) :
    Lenient α :=
  match member? ms keys with
  | some (key, j) => (read j).under key
  | none => .ok absent

/-- A list of values. -/
def list (code : String) (read : Json → Lenient α) : Json → Lenient (List α)
  | .arr items => each read 0 items
  | _ => refuse code

/-- Turns the problems of a record into a fault. -/
def toRead : Lenient α → Read α
  | .ok a => .ok a
  | .refused problems => .error (.invalid problems)

end Lenient

end StrictDdl
