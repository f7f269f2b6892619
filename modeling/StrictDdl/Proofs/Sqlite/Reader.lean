/-! How the target database reads an expression.

A text is cut into tokens by the lexical rules, and the tokens are read by the
documented precedence, loosest first: `OR`, `AND`, `NOT`, one level of equalities,
tests, matches, memberships and ranges, the comparisons, sums, products, `||`. All
of these are left-associative. Parentheses aside, an operand on the right of an operator
takes every operator that binds more tightly; a finished membership or null test has
no operand left open on its right, so any operator may follow it.

The trees have every conjunction directly inside a conjunction flattened, and the same
for disjunctions. -/
namespace StrictDdl.Sqlite

/-! ### Tokens -/

/-- The words that make up an expression. -/
inductive Keyword where
  | and
  | or
  | not
  | is
  | null
  | member
  | like
  | between
  deriving DecidableEq

inductive Symbol where
  | eq
  | ne
  | lt
  | le
  | gt
  | ge
  | plus
  | minus
  | star
  | slash
  | percent
  | bars
  deriving DecidableEq

inductive Token where
  /-- A name, with the quotes around it taken off. -/
  | name (s : String)
  /-- A text constant, with the quotes around it taken off. -/
  | text (s : String)
  | whole (n : Nat)
  /-- A numeral with a point or an exponent, as it is spelled. -/
  | fractional (numeral : String)
  | symbol (s : Symbol)
  | keyword (k : Keyword)
  | comma
  | dot
  | opening
  | closing
  deriving DecidableEq

namespace Keyword

/-- The words in lower case. -/
def words : List (List Char × Keyword) :=
  [("and".toList, and), ("or".toList, or), ("not".toList, not), ("is".toList, is),
   ("null".toList, null), ("in".toList, member), ("like".toList, like),
   ("between".toList, between)]

/-- The keyword a word is, in any case of its letters. -/
def ofWord? (word : List Char) : Option Keyword := words.lookup (word.map Char.toLower)

end Keyword

namespace Token

/-- A bare word: a keyword or a name. -/
def ofWord (word : List Char) : Token :=
  match Keyword.ofWord? word with
  | some k => .keyword k
  | none => .name (String.ofList word)

/-- What stands between quotes: a text, or a name. -/
def ofQuoted (quote : Char) (inside : List Char) : Token :=
  if quote = '\'' then .text (String.ofList inside) else .name (String.ofList inside)

def isParen : Token → Bool
  | .opening => true
  | .closing => true
  | _ => false

end Token

/-! ### The scanner -/

def isBlank (c : Char) : Bool := c = ' ' || c = '\t' || c = '\n' || c = '\x0c' || c = '\r'

def isDigit (c : Char) : Bool := '0' ≤ c && c ≤ '9'

def isLetter (c : Char) : Bool := ('A' ≤ c && c ≤ 'Z') || ('a' ≤ c && c ≤ 'z') || c = '_'

/-- What the scanner is in the middle of, with the characters of it so far. -/
inductive Mode where
  | start
  | word (read : List Char)
  | whole (read : List Char)
  | fraction (read : List Char)
  /-- Behind the mark of an exponent. -/
  | mark (read : List Char)
  /-- Behind the sign of an exponent. -/
  | sign (read : List Char)
  | exponent (read : List Char)
  | quoted (quote : Char) (read : List Char)
  /-- Behind a quote, which is the last one unless another follows. -/
  | unquoted (quote : Char) (read : List Char)
  /-- Behind a symbol that may go on. -/
  | symbol (first : Char)

namespace Mode

/-- The symbols of one character, those that go on included. -/
def single? (c : Char) : Option Symbol :=
  [('=', .eq), ('<', .lt), ('>', .gt), ('+', .plus), ('-', .minus), ('*', .star), ('/', .slash),
   ('%', .percent)].lookup c

/-- The symbols of two characters. -/
def double? (first second : Char) : Option Symbol :=
  [(('<', '='), Symbol.le), (('<', '>'), .ne), (('>', '='), .ge), (('|', '|'), .bars)].lookup
    (first, second)

/-- The characters that open a comment. -/
def opensComment (first second : Char) : Bool :=
  (first = '-' && second = '-') || (first = '/' && second = '*')

/-- What is read when nothing follows. -/
def close? : Mode → Option (List Token)
  | .start => some []
  | .word read => some [.ofWord read]
  | .whole read => some [.whole (Nat.ofDigitChars 10 read 0)]
  | .fraction read => some [.fractional (String.ofList read)]
  | .mark _ => none
  | .sign _ => none
  | .exponent read => some [.fractional (String.ofList read)]
  | .quoted _ _ => none
  | .unquoted quote read => some [.ofQuoted quote read]
  | .symbol first => (single? first).map fun s => [.symbol s]

/-- A character that starts something new, or is a token by itself. -/
def begin? (c : Char) : Option (List Token × Mode) :=
  if isBlank c then some ([], .start)
  else if c = '(' then some ([.opening], .start)
  else if c = ')' then some ([.closing], .start)
  else if c = ',' then some ([.comma], .start)
  else if c = '.' then some ([.dot], .start)
  else if c = '\'' || c = '"' then some ([], .quoted c [])
  else if isDigit c then some ([], .whole [c])
  else if isLetter c then some ([], .word [c])
  else if (single? c).isSome || c = '|' then some ([], .symbol c)
  else none

/-- A character that does not belong to what is being read. -/
def leave (m : Mode) (c : Char) : Option (List Token × Mode) := do
  let read ← m.close?
  let (more, next) ← begin? c
  return (read ++ more, next)

/-- One character. -/
def step (m : Mode) (c : Char) : Option (List Token × Mode) :=
  match m with
  | .start => begin? c
  | .word read => if isLetter c || isDigit c then some ([], .word (read ++ [c])) else m.leave c
  | .whole read =>
    if isDigit c then some ([], .whole (read ++ [c]))
    else if c = '.' then some ([], .fraction (read ++ [c]))
    else if c = 'e' || c = 'E' then some ([], .mark (read ++ [c]))
    else if isLetter c then none
    else m.leave c
  | .fraction read =>
    if isDigit c then some ([], .fraction (read ++ [c]))
    else if c = 'e' || c = 'E' then some ([], .mark (read ++ [c]))
    else if isLetter c || c = '.' then none
    else m.leave c
  | .mark read =>
    if isDigit c then some ([], .exponent (read ++ [c]))
    else if c = '+' || c = '-' then some ([], .sign (read ++ [c]))
    else none
  | .sign read => if isDigit c then some ([], .exponent (read ++ [c])) else none
  | .exponent read =>
    if isDigit c then some ([], .exponent (read ++ [c]))
    else if isLetter c || c = '.' then none
    else m.leave c
  | .quoted quote read =>
    if c = quote then some ([], .unquoted quote read) else some ([], .quoted quote (read ++ [c]))
  | .unquoted quote read =>
    if c = quote then some ([], .quoted quote (read ++ [c])) else m.leave c
  | .symbol first =>
    if opensComment first c then none
    else match double? first c with
      | some s => some ([.symbol s], .start)
      | none => m.leave c

/-- The tokens of a text, from the middle of something on. -/
def scan (m : Mode) : List Char → Option (List Token)
  | [] => m.close?
  | c :: rest => do
    let (read, next) ← m.step c
    return read ++ (← next.scan rest)

end Mode

/-- The tokens of a text. -/
def tokens? (s : String) : Option (List Token) := Mode.start.scan s.toList

/-! ### Trees -/

/-- The operators between two operands, the connectives apart. -/
inductive Infix where
  | eq
  | ne
  | is
  | isNot
  | like
  | notLike
  | lt
  | le
  | gt
  | ge
  | add
  | sub
  | mul
  | div
  | mod
  | concat
  deriving DecidableEq

/-- The connectives of any number of operands. -/
inductive Junction where
  | any
  | all
  deriving DecidableEq

inductive Tree where
  | column (path : List String)
  | whole (n : Nat)
  | fractional (numeral : String)
  | text (s : String)
  | binary (op : Infix) (left right : Tree)
  | nullTest (negated : Bool) (operand : Tree)
  | membership (negated : Bool) (operand : Tree) (items : List Tree)
  | range (negated : Bool) (operand low high : Tree)
  | negation (operand : Tree)
  | joined (j : Junction) (operands : List Tree)

namespace Tree

/-- The operands that a tree brings into a junction. -/
def spread (j : Junction) : Tree → List Tree
  | .joined k ts => if k = j then ts else [.joined k ts]
  | t => [t]

/-- The junction of two trees. -/
def join (j : Junction) (left right : Tree) : Tree :=
  .joined j (left.spread j ++ right.spread j)

end Tree

/-! ### Precedence -/

namespace Infix

def level : Infix → Nat
  | .eq | .ne | .is | .isNot | .like | .notLike => 4
  | .lt | .le | .gt | .ge => 5
  | .add | .sub => 6
  | .mul | .div | .mod => 7
  | .concat => 8

def ofSymbol : Symbol → Infix
  | .eq => .eq
  | .ne => .ne
  | .lt => .lt
  | .le => .le
  | .gt => .gt
  | .ge => .ge
  | .plus => .add
  | .minus => .sub
  | .star => .mul
  | .slash => .div
  | .percent => .mod
  | .bars => .concat

end Infix

namespace Junction

def level : Junction → Nat
  | .any => 1
  | .all => 2

end Junction

/-- The loosest level, at which a whole expression is read. -/
def loosest : Nat := 1

/-- The level of `NOT`. -/
def negationLevel : Nat := 3

/-- The level of null tests, memberships and ranges. -/
def testLevel : Nat := 4

/-- Beyond all operators: what no operator can take apart. -/
def closedLevel : Nat := 9

/-- What may stand behind an operand. -/
inductive Suffix where
  | binary (op : Infix)
  | joined (j : Junction)
  | nullTest (negated : Bool)
  | membership (negated : Bool)
  | range (negated : Bool)

namespace Suffix

def level : Suffix → Nat
  | .binary op => op.level
  | .joined j => j.level
  | .nullTest _ => testLevel
  | .membership _ => testLevel
  | .range _ => testLevel

/-- The operator at the front, and what follows it. -/
def take? : List Token → Option (Suffix × List Token)
  | .symbol s :: rest => some (.binary (.ofSymbol s), rest)
  | .keyword .and :: rest => some (.joined .all, rest)
  | .keyword .or :: rest => some (.joined .any, rest)
  | .keyword .is :: .keyword .null :: rest => some (.nullTest false, rest)
  | .keyword .is :: .keyword .not :: .keyword .null :: rest => some (.nullTest true, rest)
  | .keyword .is :: .keyword .not :: rest => some (.binary .isNot, rest)
  | .keyword .is :: rest => some (.binary .is, rest)
  | .keyword .like :: rest => some (.binary .like, rest)
  | .keyword .not :: .keyword .like :: rest => some (.binary .notLike, rest)
  | .keyword .member :: rest => some (.membership false, rest)
  | .keyword .not :: .keyword .member :: rest => some (.membership true, rest)
  | .keyword .between :: rest => some (.range false, rest)
  | .keyword .not :: .keyword .between :: rest => some (.range true, rest)
  | _ => none

end Suffix

/-! ### The reader -/

/-- The names behind dots. -/
def pathRest : List Token → List String × List Token
  | .dot :: .name s :: rest =>
    let (names, rest) := pathRest rest
    (s :: names, rest)
  | ts => ([], ts)

mutual

/-- An expression whose operators are of the level `least` or tighter. -/
def readExpr (fuel least : Nat) (ts : List Token) : Option (Tree × List Token) :=
  match fuel with
  | 0 => none
  | fuel + 1 => do
    let (t, rest) ← readPrimary fuel least ts
    readSuffixes fuel least t rest

/-- What an expression starts with. -/
def readPrimary (fuel least : Nat) (ts : List Token) : Option (Tree × List Token) :=
  match fuel with
  | 0 => none
  | fuel + 1 =>
    match ts with
    | .name s :: rest => some (.column (s :: (pathRest rest).1), (pathRest rest).2)
    | .text s :: rest => some (.text s, rest)
    | .whole n :: rest => some (.whole n, rest)
    | .fractional numeral :: rest => some (.fractional numeral, rest)
    | .opening :: rest => do
      match ← readExpr fuel loosest rest with
      | (t, .closing :: rest) => return (t, rest)
      | _ => none
    | .keyword .not :: rest =>
      if least ≤ negationLevel then do
        let (t, rest) ← readExpr fuel negationLevel rest
        return (.negation t, rest)
      else none
    | _ => none

/-- The operators behind an operand, as long as they bind tightly enough. -/
def readSuffixes (fuel least : Nat) (t : Tree) (ts : List Token) :
    Option (Tree × List Token) :=
  match fuel with
  | 0 => none
  | fuel + 1 =>
    match Suffix.take? ts with
    | none => some (t, ts)
    | some (suffix, rest) =>
      if suffix.level < least then some (t, ts)
      else do
        let (t, rest) ← readSuffix fuel t suffix rest
        readSuffixes fuel least t rest

/-- What belongs to one operator behind an operand. -/
def readSuffix (fuel : Nat) (t : Tree) (suffix : Suffix) (ts : List Token) :
    Option (Tree × List Token) :=
  match fuel with
  | 0 => none
  | fuel + 1 =>
    match suffix with
    | .binary op => do
      let (right, rest) ← readExpr fuel (op.level + 1) ts
      return (.binary op t right, rest)
    | .joined j => do
      let (right, rest) ← readExpr fuel (j.level + 1) ts
      return (t.join j right, rest)
    | .nullTest negated => some (.nullTest negated t, ts)
    | .membership negated =>
      match ts with
      | .opening :: .closing :: rest => some (.membership negated t [], rest)
      | .opening :: rest => do
        let (items, rest) ← readItems fuel rest
        return (.membership negated t items, rest)
      | _ => none
    | .range negated => do
      match ← readExpr fuel (testLevel + 1) ts with
      | (low, .keyword .and :: rest) =>
        let (high, rest) ← readExpr fuel (testLevel + 1) rest
        return (.range negated t low high, rest)
      | _ => none

/-- The items of a list up to its end. -/
def readItems (fuel : Nat) (ts : List Token) : Option (List Tree × List Token) :=
  match fuel with
  | 0 => none
  | fuel + 1 => do
    match ← readExpr fuel loosest ts with
    | (t, .closing :: rest) => return ([t], rest)
    | (t, .comma :: rest) =>
      let (items, rest) ← readItems fuel rest
      return (t :: items, rest)
    | _ => none

end

/-- The tree of a text, if the whole text is one expression. -/
def read (s : String) : Option Tree := do
  let ts ← tokens? s
  match readExpr (4 * ts.length + 1) loosest ts with
  | some (t, []) => some t
  | _ => none

end StrictDdl.Sqlite
