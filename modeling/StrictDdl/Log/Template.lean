import StrictDdl.Json.Display
import StrictDdl.ParseTree.Constant

/-! Messages with gaps for arguments.

A gap is a percent sign, then in this order and each of them optional: a key in
parentheses, flags, a width, a precision behind a point, a size letter without
meaning; and last a letter that says how the argument is written. The arguments are
taken one after another, or by key from an object. -/
namespace StrictDdl.Template

/-- What stands between the percent sign and the letter: marks, the least number of
characters, and the precision. -/
structure Gap where
  flags : List Char := []
  width : Nat := 0
  precision : Option Nat := none

namespace Gap

def has (g : Gap) (flag : Char) : Bool := g.flags.contains flag

end Gap

/-! ### Arguments -/

/-- A whole number; truth values count as such. -/
def exact : Json → Read Int
  | .bool b => .ok (if b then 1 else 0)
  | .int n => .ok n
  | _ => .error .mistyped

/-- The arguments that are left, and the object that keys are looked up in. -/
structure Arguments where
  left : List Json
  object : Option Members

namespace Arguments

/-- One object with members serves for its keys. -/
def ofList : List Json → Arguments
  | [.obj ms] => ⟨[.obj ms], if ms.isEmpty then none else some ms⟩
  | args => ⟨args, none⟩

def next (a : Arguments) : Read (Json × Arguments) :=
  match a.left with
  | [] => .error .mistyped
  | arg :: left => .ok (arg, { a with left })

/-- Whether every argument has been used; an object need not be. -/
def isSpent (a : Arguments) : Bool := a.left.isEmpty || a.object.isSome

end Arguments

/-! ### Reading gaps

Arguments for a key, a width or a precision are taken while the gap is read, so that
of two faults the one further left is found. -/

def incomplete : Fault := .badValue "incomplete format"

/-- The key up to the parenthesis that closes it, and the rest. -/
def keyBody (depth : Nat) : List Char → Option (List Char × List Char)
  | [] => none
  | ')' :: rest =>
    match depth with
    | 0 => some ([], rest)
    | depth + 1 => (keyBody depth rest).map fun (k, rest) => (')' :: k, rest)
  | '(' :: rest => (keyBody (depth + 1) rest).map fun (k, rest) => ('(' :: k, rest)
  | c :: rest => (keyBody depth rest).map fun (k, rest) => (c :: k, rest)

/-- A key selects the only argument of its gap from the object. -/
def readKey (a : Arguments) : List Char → Read (Arguments × List Char)
  | '(' :: rest =>
    match a.object, keyBody 0 rest with
    | none, _ => .error .mistyped
    | some _, none => .error (.badValue "incomplete format key")
    | some ms, some (key, rest) =>
      match ms.find? (String.ofList key) with
      | some arg => .ok ({ a with left := [arg] }, rest)
      | none => .error .mistyped
  | cs => .ok (a, cs)

def isFlag (c : Char) : Bool := ['-', '+', ' ', '#', '0'].contains c

/-- The bounds of a width or precision, and what is said beyond them. -/
structure Bound where
  most : Nat
  name : String
  type : String

def widthBound : Bound := ⟨Nat.pow 2 63 - 1, "width", "ssize_t"⟩

def precisionBound : Bound := ⟨Nat.pow 2 31 - 1, "precision", "int"⟩

/-- A number, or a star for the next argument; neither if nothing is written. -/
def readAmount (bound : Bound) (a : Arguments) :
    List Char → Read (Option Int × Arguments × List Char)
  | '*' :: rest => do
    let (arg, a) ← a.next
    let n ← exact arg
    if -(bound.most : Int) - 1 ≤ n ∧ n ≤ bound.most then return (some n, a, rest)
    else .error (.overflow ("Python int too large to convert to C " ++ bound.type))
  | cs =>
    let (ds, rest) := Numeral.span cs
    if ds.isEmpty then .ok (none, a, rest)
    else if Numeral.value ds > bound.most then .error (.badValue (bound.name ++ " too big"))
    else .ok (some (Numeral.value ds), a, rest)

/-- The precision behind a point; it is zero if nothing else is written, and never
negative. -/
def readPrecision (a : Arguments) : List Char → Read (Option Nat × Arguments × List Char)
  | '.' :: rest => do
    let (n, a, rest) ← readAmount precisionBound a rest
    return (some (n.getD 0).toNat, a, rest)
  | cs => .ok (none, a, cs)

def dropSize : List Char → List Char
  | c :: rest => if c = 'h' ∨ c = 'l' ∨ c = 'L' then rest else c :: rest
  | [] => []

/-- The gap after a percent sign, its letter, and what is left. -/
def readGap (a : Arguments) (cs : List Char) : Read (Gap × Char × Arguments × List Char) := do
  let (a, cs) ← readKey a cs
  let flags := cs.takeWhile isFlag
  let (width, a, cs) ← readAmount widthBound a (cs.dropWhile isFlag)
  let (precision, a, cs) ← readPrecision a cs
  match dropSize cs with
  | [] => .error incomplete
  | letter :: rest =>
    let width := width.getD 0
    let flags := if width < 0 then '-' :: flags else flags
    return ({ flags, width := width.natAbs, precision }, letter, a, rest)

/-! ### Writing arguments -/

/-- A written argument: a sign or mark in front, and the rest. Zeros are filled in
between the two, blanks outside. -/
structure Written where
  front : List Char := []
  body : List Char
  numeric : Bool := false

def Written.fill (g : Gap) (w : Written) : List Char :=
  let missing := g.width - (w.front.length + w.body.length)
  if g.has '-' then w.front ++ w.body ++ List.replicate missing ' '
  else if w.numeric && g.has '0' then w.front ++ List.replicate missing '0' ++ w.body
  else List.replicate missing ' ' ++ w.front ++ w.body

/-- The sign in front of a number. -/
def sign (g : Gap) (negative : Bool) : List Char :=
  if negative then ['-'] else if g.has '+' then ['+'] else if g.has ' ' then [' '] else []

/-- A whole number in a base, with at least so many digits. -/
def whole (g : Gap) (base : Nat) (mark : List Char) (n : Int) : Read Written :=
  let digits := g.precision.getD 1
  if digits > precisionBound.most - 3 then .error (.overflow "precision too large")
  else .ok {
    front := sign g (n < 0) ++ (if g.has '#' then mark else [])
    body := Binary64.pad digits (Nat.toDigits base n.natAbs)
    numeric := true }

/-- A fraction with so many places. -/
def fixed (g : Gap) (places : Nat) (r : Rat) : List Char :=
  let n := Binary64.roundHalfEven (r.num.natAbs * Nat.pow 10 places) r.den
  let ds := Binary64.pad (places + 1) (digitChars n)
  let point := if places = 0 && !g.has '#' then [] else ['.']
  ds.take (ds.length - places) ++ point ++ ds.drop (ds.length - places)

/-- The exponent of the leading digit of a positive fraction. -/
def leading (r : Rat) : Int :=
  let guess : Int := (digitChars r.num.natAbs).length - (digitChars r.den).length
  if r < (10 : Rat) ^ guess then guess - 1 else guess

/-- The digits of a fraction to so many places behind the first, and the exponent of
the first. -/
def significant (places : Nat) (r : Rat) : List Char × Int :=
  if r.num = 0 then (List.replicate (places + 1) '0', 0)
  else
    let e := leading r
    let scaled := r / (10 : Rat) ^ (e - places)
    let n := Binary64.roundHalfEven scaled.num.natAbs scaled.den
    let ds := digitChars n
    if ds.length > places + 1 then (ds.take (places + 1), e + 1) else (ds, e)

def exponentText (e : Int) : List Char :=
  'e' :: (if e < 0 then '-' else '+') :: Binary64.pad 2 (digitChars e.natAbs)

def scientific (g : Gap) (places : Nat) (r : Rat) : List Char :=
  let (ds, e) := significant places r
  let point := if places = 0 && !g.has '#' then [] else ['.']
  ds.take 1 ++ point ++ ds.drop 1 ++ exponentText e

/-- Digits without the zeros at the end, and without a point at the end. -/
def dropZeros (cs : List Char) : List Char :=
  let kept := (cs.reverse.dropWhile (· = '0')).reverse
  if kept.getLast? = some '.' then kept.dropLast else kept

/-- A fraction to so many digits, with an exponent only if it is far from one. -/
def general (g : Gap) (digits : Nat) (r : Rat) : List Char :=
  let digits := max digits 1
  let (ds, e) := significant (digits - 1) r
  if -4 ≤ e ∧ e < digits then
    let text := fixed g ((digits : Int) - 1 - e).toNat r
    if g.has '#' || !text.contains '.' then text else dropZeros text
  else
    let mantissa := ds.take 1 ++ '.' :: ds.drop 1
    (if g.has '#' then mantissa else dropZeros mantissa) ++ exponentText e

/-- A binary number, written by the function for its magnitude. -/
def binary (g : Gap) (upper : Bool) (layout : Rat → List Char) (x : Binary64) : Written :=
  let (negative, body) := match x with
    | .nan => (false, "nan".toList)
    | .infinite negative => (negative, "inf".toList)
    | .finite negative _ _ => (negative, layout ((x.toRat?.getD 0).abs))
  { front := sign g negative
    body := if upper then body.map Char.toUpper else body
    numeric := true }

/-- A number as a whole one, a fraction cut off. -/
def cut : Json → Read Int
  | .bool b => .ok (if b then 1 else 0)
  | .int n => .ok n
  | .float x => Json.wholePart x
  | _ => .error .mistyped

def real : Json → Read Binary64
  | .str _ => .error .mistyped
  | j => j.toFloat

/-- A text with escapes for everything outside ASCII. -/
def escaped (s : String) : List Char :=
  s.toList.flatMap fun c =>
    if c.toNat < 0x80 then [c]
    else if c.toNat < 0x100 then '\\' :: 'x' :: Binary64.pad 2 (Text.hexChars c.toNat)
    else if c.toNat < 0x10000 then '\\' :: 'u' :: Binary64.pad 4 (Text.hexChars c.toNat)
    else '\\' :: 'U' :: Binary64.pad 8 (Text.hexChars c.toNat)

/-- An argument as its letter asks; `index` is the place of the letter. -/
def write (g : Gap) (letter : Char) (index : Nat) (arg : Json) : Read Written :=
  let text (cs : List Char) : Written :=
    { body := match g.precision with
        | some n => cs.take n
        | none => cs }
  let places := g.precision.getD 6
  match letter with
  | 's' => .ok (text arg.display.toList)
  | 'r' => .ok (text arg.literal.toList)
  | 'a' => .ok (text (escaped arg.literal))
  | 'd' | 'i' | 'u' => do whole g 10 [] (← cut arg)
  | 'o' => do whole g 8 ['0', 'o'] (← exact arg)
  | 'x' => do whole g 16 ['0', 'x'] (← exact arg)
  | 'X' => do
    let w ← whole g 16 ['0', 'X'] (← exact arg)
    return { w with body := w.body.map Char.toUpper }
  | 'f' | 'F' => do return binary g (letter = 'F') (fixed g places) (← real arg)
  | 'e' | 'E' => do return binary g (letter = 'E') (scientific g places) (← real arg)
  | 'g' | 'G' => do return binary g (letter = 'G') (general g places) (← real arg)
  | 'c' =>
    match arg with
    | .str s => if s.length = 1 then .ok { body := s.toList } else .error .mistyped
    | j => do
      let n ← exact j
      if 0 ≤ n ∧ n < 0x110000 then return { body := [Char.ofNat n.toNat] }
      else .error (.overflow "%c arg not in range(0x110000)")
  | c =>
    let shown := if 0x1f ≤ c.toNat ∧ c.toNat < 0x7f then c else '?'
    .error (.badValue ("unsupported format character '" ++ String.ofList [shown] ++ "' (0x" ++
      String.ofList (Text.hexChars c.toNat) ++ ") at index " ++ writeNat index))

/-! ### Filling in -/

/-- Fills the gaps of the rest of a template; `length` is that of the whole. -/
def fillFrom (length : Nat) : Nat → Arguments → List Char → Read (List Char)
  | 0, _, _ => .error incomplete
  | _ + 1, a, [] => if a.isSpent then .ok [] else .error .mistyped
  | fuel + 1, a, '%' :: '%' :: rest => do return '%' :: (← fillFrom length fuel a rest)
  | fuel + 1, a, '%' :: rest => do
    let (g, letter, a, rest) ← readGap a rest
    let (arg, a) ← a.next
    let w ← write g letter (length - rest.length - 1) arg
    return w.fill g ++ (← fillFrom length fuel a rest)
  | fuel + 1, a, c :: rest => do return c :: (← fillFrom length fuel a rest)

/-- A message: the template itself if there are no arguments. -/
def message (template : String) (args : List Json) : Read String :=
  if args.isEmpty then .ok template
  else do
    let cs := template.toList
    return String.ofList (← fillFrom cs.length (cs.length + 1) (.ofList args) cs)

end StrictDdl.Template
