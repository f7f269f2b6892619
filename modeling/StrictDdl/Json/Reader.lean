import StrictDdl.Json.Basic
import StrictDdl.Numeric.Reader

/-! Reading JSON texts.

The grammar is the usual one with `NaN`, `Infinity` and `-Infinity` added. A name
given twice in one object keeps its first place and its last value. A failure
tells where it was noticed, counted in characters from the start; inside the
reader a place is the count of characters left. Arrays and objects may stand in one
another as deeply as the caller allows. -/
namespace StrictDdl.Json

/-- Why a text is no JSON text. -/
inductive ReadError where
  /-- The grammar is broken at this character. -/
  | malformed (offset : Nat)
  /-- A whole number has too many digits. -/
  | longNumeral
  /-- Too many arrays and objects are open. -/
  | tooDeep
  deriving DecidableEq

namespace Reader

/-- What was read and what follows it. The place of a failure is the count of
characters left. -/
abbrev Result (α : Type) := Except ReadError (α × List Char)

def fail {α : Type} (rest : List Char) : Result α := .error (.malformed rest.length)

def isSpace (c : Char) : Bool := c = ' ' ∨ c = '\t' ∨ c = '\n' ∨ c = '\r'

def skip (cs : List Char) : List Char := cs.dropWhile isSpace

/-! ### Strings -/

def hexValue? (c : Char) : Option Nat :=
  if '0' ≤ c ∧ c ≤ '9' then some (c.toNat - '0'.toNat)
  else if 'a' ≤ c ∧ c ≤ 'f' then some (c.toNat - 'a'.toNat + 10)
  else if 'A' ≤ c ∧ c ≤ 'F' then some (c.toNat - 'A'.toNat + 10)
  else none

/-- The value of four hexadecimal digits. -/
def unit? (a b c d : Char) : Option Nat := do
  some (((← hexValue? a) * 16 + (← hexValue? b)) * 256 + (← hexValue? c) * 16 + (← hexValue? d))

def simpleEscape? (c : Char) : Option Char :=
  if c = '"' ∨ c = '\\' ∨ c = '/' then some c
  else if c = 'b' then some (Char.ofNat 8)
  else if c = 'f' then some (Char.ofNat 12)
  else if c = 'n' then some '\n'
  else if c = 'r' then some '\r'
  else if c = 't' then some '\t'
  else none

def isHigh (n : Nat) : Bool := 0xd800 ≤ n && n ≤ 0xdbff

def isLow (n : Nat) : Bool := 0xdc00 ≤ n && n ≤ 0xdfff

/-- The character of one UTF-16 unit; half of a pair is shown as a replacement. -/
def unitChar (n : Nat) : Char :=
  if isHigh n || isLow n then Char.ofNat 0xfffd else Char.ofNat n

def pairChar (high low : Nat) : Char :=
  Char.ofNat (0x10000 + (high - 0xd800) * 0x400 + (low - 0xdc00))

/-- The characters of a string up to its closing quote; `opening` is the place of
the quote that opened it. -/
def stringBody (opening : Nat) : List Char → Result (List Char)
  | [] => .error (.malformed opening)
  | '"' :: rest => .ok ([], rest)
  | '\\' :: 'u' :: a :: b :: c :: d :: e :: rest =>
    match unit? a b c d with
    | none => .error (.malformed (rest.length + 6))
    | some n =>
      if isHigh n then
        match e, _h : rest with
        | '\\', 'u' :: a' :: b' :: c' :: d' :: e' :: rest' =>
          match unit? a' b' c' d' with
          | none => .error (.malformed (rest'.length + 6))
          | some m =>
            if isLow m then prepend (pairChar n m) (stringBody opening (e' :: rest'))
            else prepend (unitChar n) (stringBody opening (e :: rest))
        | _, _ => prepend (unitChar n) (stringBody opening (e :: rest))
      else prepend (unitChar n) (stringBody opening (e :: rest))
  | '\\' :: 'u' :: rest => fail ('u' :: rest)
  | ['\\'] => .error (.malformed opening)
  | '\\' :: c :: rest =>
    match simpleEscape? c with
    | some x => prepend x (stringBody opening rest)
    | none => fail ('\\' :: c :: rest)
  | c :: rest =>
    if c.toNat < 32 then fail (c :: rest) else prepend c (stringBody opening rest)
termination_by cs => cs.length
decreasing_by all_goals (simp_all; try omega)
where
  prepend (c : Char) : Result (List Char) → Result (List Char)
    | .ok (cs, rest) => .ok (c :: cs, rest)
    | .error e => .error e

/-! ### Numbers -/

def digits (cs : List Char) : List Char × List Char := Numeral.span cs

/-- The whole part of a number: zero alone or a run without a leading zero. -/
def wholePart? : List Char → Option (List Char × List Char)
  | '0' :: rest => some (['0'], rest)
  | c :: rest => if Numeral.isDigit c then some (digits (c :: rest)) else none
  | [] => none

/-- The digits after a point, if a digit follows the point. -/
def fraction : List Char → List Char × List Char
  | '.' :: c :: rest => if Numeral.isDigit c then digits (c :: rest) else ([], '.' :: c :: rest)
  | cs => ([], cs)

/-- The exponent, if digits follow its mark and sign. -/
def exponent (cs : List Char) : Option Int × List Char :=
  match cs with
  | c :: rest =>
    if c = 'e' ∨ c = 'E' then
      let (negative, rest) := Numeral.takeSign rest
      let (ds, rest) := digits rest
      if ds.isEmpty then (none, cs)
      else (some (if negative then -(Numeral.value ds : Int) else Numeral.value ds), rest)
    else (none, cs)
  | [] => (none, [])

def number (cs : List Char) : Result Json :=
  let (negative, body) := match cs with
    | '-' :: rest => (true, rest)
    | _ => (false, cs)
  match wholePart? body with
  | none => fail cs
  | some (whole, rest) =>
    let (part, rest) := fraction rest
    let (power, rest) := exponent rest
    if part.isEmpty && power.isNone then
      if whole.length > Numeral.digitLimit then .error .longNumeral
      else
        let n := Numeral.value whole
        .ok (.int (if negative then -(n : Int) else n), rest)
    else
      let x := Binary64.ofDecimal negative (Numeral.value (whole ++ part))
        (power.getD 0 - part.length)
      .ok (.float x, rest)

/-! ### Values -/

/-- The rest of a text behind a given start. -/
def after? : List Char → List Char → Option (List Char)
  | [], cs => some cs
  | a :: as, c :: cs => if a = c then after? as cs else none
  | _ :: _, [] => none

/-- The words that stand for values of their own. -/
def constants : List (List Char × Json) :=
  [("null".toList, .null), ("true".toList, .bool true), ("false".toList, .bool false),
   ("NaN".toList, .float .nan), ("Infinity".toList, .float (.infinite false)),
   ("-Infinity".toList, .float (.infinite true))]

def scalar (cs : List Char) : Result Json :=
  match constants.findSome? fun (word, j) => (after? word cs).map (j, ·) with
  | some found => .ok found
  | none => number cs

mutual

/-- One value at the start of the text, with at most `depth` more arrays and objects
in one another. Every step of the reader but the first goes on behind a character of
the text, so twice its length bounds the steps. -/
def value : Nat → Nat → List Char → Result Json
  | 0, _, cs => fail cs
  | _ + 1, _, [] => .error (.malformed 0)
  | steps + 1, depth, c :: rest =>
    if c = '"' then
      match stringBody (rest.length + 1) rest with
      | .ok (s, rest) => .ok (.str (String.ofList s), rest)
      | .error e => .error e
    else if c = '[' then
      match depth with
      | 0 => .error .tooDeep
      | depth + 1 =>
        match skip rest with
        | ']' :: rest => .ok (.arr [], rest)
        | rest => items steps depth [] rest
    else if c = '\x7b' then
      match depth with
      | 0 => .error .tooDeep
      | depth + 1 =>
        match skip rest with
        | '\x7d' :: rest => .ok (.obj [], rest)
        | rest => members steps depth [] rest
    else scalar (c :: rest)

/-- The remaining items of an array. -/
def items : Nat → Nat → List Json → List Char → Result Json
  | 0, _, _, cs => fail cs
  | steps + 1, depth, done, cs =>
    match value steps depth cs with
    | .error e => .error e
    | .ok (j, rest) =>
      match skip rest with
      | ']' :: rest => .ok (.arr (done ++ [j]), rest)
      | ',' :: rest => items steps depth (done ++ [j]) (skip rest)
      | rest => fail rest

/-- The remaining members of an object. -/
def members : Nat → Nat → Members → List Char → Result Json
  | 0, _, _, cs => fail cs
  | steps + 1, depth, done, cs =>
    match cs with
    | '"' :: rest =>
      match stringBody (rest.length + 1) rest with
      | .error e => .error e
      | .ok (key, rest) =>
        match skip rest with
        | ':' :: rest =>
          match value steps depth (skip rest) with
          | .error e => .error e
          | .ok (j, rest) =>
            let done := done.set (String.ofList key) j
            match skip rest with
            | '\x7d' :: rest => .ok (.obj done, rest)
            | ',' :: rest => members steps depth done (skip rest)
            | rest => fail rest
        | rest => fail rest
    | cs => fail cs

end

end Reader

/-- Reads a text that is one JSON value, with blanks around it and at most `depth`
arrays and objects in one another. -/
def readWithin (depth : Nat) (cs : List Char) : Except ReadError Json :=
  let placed : ReadError → ReadError
    | .malformed left => .malformed (cs.length - left)
    | e => e
  match Reader.value (2 * cs.length + 1) depth (Reader.skip cs) with
  | .error e => .error (placed e)
  | .ok (j, rest) =>
    match Reader.skip rest with
    | [] => .ok j
    | rest => .error (placed (.malformed rest.length))

/-- Reads a text that is one JSON value, nested as it may be. -/
def read (s : String) : Except ReadError Json := readWithin s.length s.toList

end StrictDdl.Json
