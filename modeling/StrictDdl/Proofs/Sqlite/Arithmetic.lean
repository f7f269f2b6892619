import Mathlib.Data.Rat.Floor
import StrictDdl.Numeric.Reader
import StrictDdl.Proofs.Expr.Tokens

/-! Conditions on the number in a column.

How the target database reads a comparison of the number with others, and what the comparison
says: absolute values, differences, and numbers rounded to some decimal places. All numbers are
exact. Of two nearest numbers the one further from zero is taken when rounding.

Only texts that can be grouped in one way are read: every `AND` stands in parentheses of its own,
and a minus sign stands alone between its operands. Where the column is read as a name, every such
condition is read as what was written (`Condition.read?_text`). -/
namespace StrictDdl.Sqlite

/-- A number that depends on the one in the column. -/
inductive Term where
  | column
  | whole (n : Nat)
  /-- A numeral with a point or an exponent, as it is spelled. -/
  | fractional (numeral : String)
  | minus (left right : Term)
  | abs (operand : Term)
  /-- Rounded to so many decimal places, or to a whole number if none are stated. -/
  | round (operand : Term) (places : Option Nat)

inductive Condition where
  | less (left right : Term)
  | both (left right : Condition)

/-! ### Meaning -/

/-- The nearest whole number, and of two the one further from zero. -/
def roundAway (q : ℚ) : ℤ := if q < 0 then -⌊1 / 2 - q⌋ else ⌊q + 1 / 2⌋

/-- The nearest number with so many decimal places. -/
def roundTo (places : Nat) (q : ℚ) : ℚ := roundAway (q * 10 ^ places) / 10 ^ places

/-- The number that a numeral spells. -/
def numeralValue? (numeral : String) : Option ℚ :=
  (Numeral.readDecimal? numeral.toList).map fun (coefficient, exponent) =>
    (coefficient : ℚ) * 10 ^ exponent

/-- The number a term is when the column has the value. -/
def Term.value (v : ℚ) : Term → ℚ
  | .column => v
  | .whole n => n
  | .fractional numeral => (numeralValue? numeral).getD 0
  | .minus left right => left.value v - right.value v
  | .abs operand => |operand.value v|
  | .round operand places => roundTo (places.getD 0) (operand.value v)

/-- Whether the condition lets the value through. -/
def Condition.accepts (v : ℚ) : Condition → Bool
  | .less left right => left.value v < right.value v
  | .both left right => left.accepts v && right.accepts v

@[simp] theorem Condition.accepts_less {v : ℚ} {left right : Term} :
    (Condition.less left right).accepts v ↔ left.value v < right.value v :=
  decide_eq_true_iff

@[simp] theorem Condition.accepts_both {v : ℚ} {left right : Condition} :
    (Condition.both left right).accepts v ↔ left.accepts v ∧ right.accepts v :=
  Bool.and_eq_true_iff

/-! ### Reading -/

namespace Term

/-- The rest of a call of this function, behind its first argument. -/
def readCall (function : String) (operand : Term) : List Token → Option (Term × List Token)
  | .closing :: rest =>
    if function = "abs" then some (.abs operand, rest)
    else if function = "round" then some (.round operand none, rest)
    else none
  | .comma :: .whole places :: .closing :: rest =>
    if function = "round" then some (.round operand (some places), rest) else none
  | _ => none

/-- The column, a numeral or a call; `argument` reads what a call starts with. -/
def readOne (argument : List Token → Option (Term × List Token)) (column : String) :
    List Token → Option (Term × List Token)
  | .name function :: .opening :: rest => do
    let (operand, rest) ← argument rest
    readCall function operand rest
  | .name name :: rest => if name = column then some (.column, rest) else none
  | .whole n :: rest => some (.whole n, rest)
  | .fractional numeral :: rest =>
    if (numeralValue? numeral).isSome then some (.fractional numeral, rest) else none
  | _ => none

/-- One of these, or one taken from another, with so many calls in one another. -/
def read (column : String) : Nat → List Token → Option (Term × List Token)
  | 0, _ => none
  | fuel + 1, ts => do
    match ← readOne (read column fuel) column ts with
    | (left, .symbol .minus :: rest) =>
      let (right, rest) ← readOne (read column fuel) column rest
      return (.minus left right, rest)
    | (t, rest) => return (t, rest)

end Term

namespace Condition

/-- A comparison, or two conditions in parentheses with `AND` between them. -/
def read (column : String) : Nat → List Token → Option (Condition × List Token)
  | 0, _ => none
  | fuel + 1, .opening :: rest => do
    match ← read column fuel rest with
    | (left, .keyword .and :: rest) =>
      match ← read column fuel rest with
      | (right, .closing :: rest) => return (.both left right, rest)
      | _ => none
    | _ => none
  | fuel + 1, ts => do
    match ← Term.read column fuel ts with
    | (left, .symbol .lt :: rest) =>
      let (right, rest) ← Term.read column fuel rest
      return (.less left right, rest)
    | _ => none

/-- The condition on the column that a text is, if the whole text is one. -/
def read? (column : String) (text : String) : Option Condition := do
  let ts ← tokens? text
  match read column (ts.length + 2) ts with
  | some (c, []) => some c
  | _ => none

end Condition

/-! ### Texts and their tokens -/

namespace Term

/-- The text of a term, with that of the column. -/
def text (column : String) : Term → String
  | .column => column
  | .whole n => writeNat n
  | .fractional numeral => numeral
  | .minus left right => left.text column ++ " - " ++ right.text column
  | .abs operand => "abs(" ++ operand.text column ++ ")"
  | .round operand none => "round(" ++ operand.text column ++ ")"
  | .round operand (some places) =>
    "round(" ++ operand.text column ++ ", " ++ writeNat places ++ ")"

def tokens (column : String) : Term → List Token
  | .column => [.name column]
  | .whole n => [.whole n]
  | .fractional numeral => [.fractional numeral]
  | .minus left right => left.tokens column ++ .symbol .minus :: right.tokens column
  | .abs operand => .name "abs" :: .opening :: operand.tokens column ++ [.closing]
  | .round operand none => .name "round" :: .opening :: operand.tokens column ++ [.closing]
  | .round operand (some places) =>
    .name "round" :: .opening :: operand.tokens column ++ [.comma, .whole places, .closing]

/-- Whether the term is no difference. -/
def isOne : Term → Bool
  | .minus _ _ => false
  | _ => true

/-- All numerals are read as such, and no difference stands in another without a call around
it. -/
def Regular : Term → Prop
  | .column => True
  | .whole _ => True
  | .fractional numeral => Mode.Lexes Mode.endsExpr numeral.toList [.fractional numeral] ∧
    (numeralValue? numeral).isSome
  | .minus left right => (left.Regular ∧ left.isOne) ∧ right.Regular ∧ right.isOne
  | .abs operand => operand.Regular
  | .round operand _ => operand.Regular

end Term

namespace Condition

def text (column : String) : Condition → String
  | .less left right => left.text column ++ " < " ++ right.text column
  | .both left right => "(" ++ left.text column ++ " AND " ++ right.text column ++ ")"

def tokens (column : String) : Condition → List Token
  | .less left right => left.tokens column ++ .symbol .lt :: right.tokens column
  | .both left right =>
    .opening :: left.tokens column ++ .keyword .and :: right.tokens column ++ [.closing]

def Regular : Condition → Prop
  | .less left right => left.Regular ∧ right.Regular
  | .both left right => left.Regular ∧ right.Regular

end Condition

section Lexes

open Mode

variable {text name : String}

/-- The text of a call. -/
theorem lexes_call {function : String} {u v : List Char} {ts ts' : List Token}
    (hfunction : Passes .start (function ++ "(").toList [.name function, .opening] .start)
    (h : Lexes endsExpr u ts) (hv : Lexes endsExpr v ts') (hne : v ≠ [])
    (hends : ∀ c ∈ v.head?, endsExpr c) :
    Lexes endsExpr ((function ++ "(").toList ++ (u ++ v))
      ([.name function, .opening] ++ (ts ++ ts')) :=
  .behind hfunction (h.append hv hne hends)

theorem Term.lexes_text (hcolumn : Lexes endsExpr text.toList [.name name]) {t : Term}
    (h : t.Regular) : Lexes endsExpr (t.text text).toList (t.tokens name) := by
  have hclose : Lexes endsExpr ")".toList [.closing] := .of_passes (.of_through rfl)
  have hround : Passes .start ("round" ++ "(").toList [.name "round", .opening] .start :=
    .of_through rfl
  induction t with
  | column => exact hcolumn
  | whole n => exact lexes_whole n
  | fractional numeral => exact h.1
  | minus left right hleft hright =>
    have hminus : Passes .start " - ".toList [.symbol .minus] .start := .of_through rfl
    have := (hleft h.1.1).append (.behind hminus (hright h.2.1)) (by simp) (by simp; decide)
    simpa [Term.text, Term.tokens] using this
  | abs operand ih =>
    have habs : Passes .start ("abs" ++ "(").toList [.name "abs", .opening] .start :=
      .of_through rfl
    have := lexes_call habs (ih h) hclose (by simp) (by simp; decide)
    simpa [Term.text, Term.tokens] using this
  | round operand places ih =>
    cases places with
    | none =>
      have := lexes_call hround (ih h) hclose (by simp) (by simp; decide)
      simpa [Term.text, Term.tokens] using this
    | some n =>
      have hcomma : Passes .start ", ".toList [.comma] .start := .of_through rfl
      have hrest := Lexes.behind hcomma
        ((lexes_whole n).append hclose (by simp) (by simp; decide))
      have := lexes_call hround (ih h) hrest (by simp) (by simp; decide)
      simpa [Term.text, Term.tokens] using this

theorem Condition.lexes_text (hcolumn : Lexes endsExpr text.toList [.name name]) {c : Condition}
    (h : c.Regular) : Lexes endsExpr (c.text text).toList (c.tokens name) := by
  induction c with
  | less left right =>
    have hless : Passes .start " < ".toList [.symbol .lt] .start := .of_through rfl
    have := (left.lexes_text hcolumn h.1).append (.behind hless (right.lexes_text hcolumn h.2))
      (by simp) (by simp; decide)
    simpa [Condition.text, Condition.tokens] using this
  | both left right hleft hright =>
    have hand : Passes .start " AND ".toList [.keyword .and] .start := .of_through rfl
    have := ((hleft h.1).append (.behind hand (hright h.2)) (by simp) (by simp; decide)).bracketed
    simpa [Condition.text, Condition.tokens] using this

/-- **A condition is read with the tokens it was written with.** -/
theorem Condition.tokens?_text (hcolumn : Lexes endsExpr text.toList [.name name]) {c : Condition}
    (h : c.Regular) : tokens? (c.text text) = some (c.tokens name) := by
  have := c.lexes_text hcolumn h [] (by simp)
  simpa [tokens?, Mode.scan, Mode.close?] using this

end Lexes

/-! ### What is read is what was written -/

/-- The tokens behind a term: they neither make a call of a name nor take something away. -/
structure Ends (rest : List Token) : Prop where
  noCall : ∀ t ∈ rest.head?, t ≠ .opening
  noMinus : ∀ t ∈ rest.head?, t ≠ .symbol .minus

namespace Term

variable {column function : String} {t operand left right : Term} {fuel : Nat}
  {ts rest : List Token}

theorem readOne_column {argument : List Token → Option (Term × List Token)}
    (hrest : ∀ t ∈ rest.head?, t ≠ .opening) :
    readOne argument column (.name column :: rest) = some (.column, rest) := by
  cases rest with
  | nil => simp [readOne]
  | cons token rest =>
    have htoken := hrest token rfl
    cases token <;> simp_all [readOne]

theorem readOne_call (h : read column fuel ts = some (operand, rest)) :
    readOne (read column fuel) column (.name function :: .opening :: ts) =
      readCall function operand rest := by
  rw [readOne, h]
  rfl

theorem read_of_one (h : readOne (read column fuel) column ts = some (t, rest))
    (hrest : ∀ t ∈ rest.head?, t ≠ .symbol .minus) : read column (fuel + 1) ts = some (t, rest) := by
  rw [read, h]
  cases rest with
  | nil => rfl
  | cons token rest =>
    have htoken := hrest token rfl
    simp only [Option.bind_eq_bind, Option.bind_some]
    split
    · rename_i heq
      cases heq
      exact absurd rfl htoken
    · rename_i heq
      cases heq
      rfl

theorem read_minus {more : List Token}
    (hleft : readOne (read column fuel) column ts = some (left, .symbol .minus :: more))
    (hright : readOne (read column fuel) column more = some (right, rest)) :
    read column (fuel + 1) ts = some (.minus left right, rest) := by
  rw [read, hleft]
  simp only [Option.bind_eq_bind, Option.bind_some, hright]
  rfl

/-- The tokens of the term are read as the term where no difference is read. -/
def ReadsOne (column : String) (t : Term) : Prop :=
  ∀ fuel rest, (t.tokens column).length ≤ fuel → (∀ t ∈ rest.head?, t ≠ .opening) →
    readOne (read column fuel) column (t.tokens column ++ rest) = some (t, rest)

/-- The tokens of the term are read as the term, if there is fuel enough for the calls in it. -/
def Reads (column : String) (t : Term) : Prop :=
  ∀ fuel rest, (t.tokens column).length ≤ fuel → Ends rest →
    read column (fuel + 1) (t.tokens column ++ rest) = some (t, rest)

theorem ReadsOne.reads (h : t.ReadsOne column) : t.Reads column := fun fuel rest hfuel hrest =>
  read_of_one (h fuel rest hfuel hrest.noCall) hrest.noMinus

theorem Reads.read_eq (h : t.Reads column) (hfuel : (t.tokens column).length < fuel)
    (hrest : Ends rest) : read column fuel (t.tokens column ++ rest) = some (t, rest) := by
  obtain ⟨fuel, rfl⟩ := Nat.exists_eq_succ_of_ne_zero (Nat.ne_zero_of_lt hfuel)
  exact h fuel rest (Nat.le_of_lt_succ hfuel) hrest

/-- The first argument of a call is read up to what follows it in the call. -/
theorem Reads.call (h : operand.Reads column) (hfuel : (operand.tokens column).length < fuel)
    (hrest : Ends rest) :
    readOne (read column fuel) column
      (.name function :: .opening :: (operand.tokens column ++ rest)) =
        readCall function operand rest :=
  readOne_call (h.read_eq hfuel hrest)

theorem readsOne_abs (h : operand.Reads column) : (Term.abs operand).ReadsOne column := by
  intro fuel rest hfuel _
  simp only [tokens, List.length_append, List.length_cons, List.length_nil] at hfuel
  simp only [tokens, List.cons_append, List.append_assoc, List.nil_append]
  rw [h.call (by omega) ⟨by simp, by simp⟩]
  rfl

theorem readsOne_round (h : operand.Reads column) (places : Option Nat) :
    (Term.round operand places).ReadsOne column := by
  intro fuel rest hfuel _
  cases places with
  | none =>
    simp only [tokens, List.length_append, List.length_cons, List.length_nil] at hfuel
    simp only [tokens, List.cons_append, List.append_assoc, List.nil_append]
    rw [h.call (by omega) ⟨by simp, by simp⟩]
    rfl
  | some n =>
    simp only [tokens, List.length_append, List.length_cons, List.length_nil] at hfuel
    simp only [tokens, List.cons_append, List.append_assoc, List.nil_append]
    rw [h.call (by omega) ⟨by simp, by simp⟩]
    rfl

theorem reads_minus (hleft : left.ReadsOne column) (hright : right.ReadsOne column) :
    (Term.minus left right).Reads column := by
  intro fuel rest hfuel hrest
  simp only [tokens, List.length_append, List.length_cons] at hfuel
  simp only [tokens, List.append_assoc, List.cons_append]
  have hfirst := hleft fuel (.symbol .minus :: (right.tokens column ++ rest)) (by omega) (by simp)
  exact read_minus hfirst (hright fuel rest (by omega) hrest.noCall)

theorem reads_tokens (h : t.Regular) : (t.isOne → t.ReadsOne column) ∧ t.Reads column := by
  have hone : ∀ {t : Term}, t.ReadsOne column → (t.isOne → t.ReadsOne column) ∧ t.Reads column :=
    fun h => ⟨fun _ => h, h.reads⟩
  induction t with
  | column => exact hone fun _ _ _ => readOne_column
  | whole n => exact hone fun _ _ _ _ => rfl
  | fractional numeral => exact hone fun _ _ _ _ => by simp [tokens, readOne, h.2]
  | minus left right hleft hright =>
    exact ⟨nofun, reads_minus ((hleft h.1.1).1 h.1.2) ((hright h.2.1).1 h.2.2)⟩
  | abs operand ih => exact hone (readsOne_abs (ih h).2)
  | round operand places ih => exact hone (readsOne_round (ih h).2 places)

/-- A term does not start with a parenthesis. -/
theorem exists_first (t : Term) (column : String) : ∃ first rest, t.tokens column = first :: rest ∧
    first ≠ .opening := by
  induction t with
  | column => exact ⟨_, _, rfl, by simp⟩
  | whole n => exact ⟨_, _, rfl, by simp⟩
  | fractional numeral => exact ⟨_, _, rfl, by simp⟩
  | minus left right hleft _ =>
    obtain ⟨first, rest, hfirst, hne⟩ := hleft
    exact ⟨first, _, by rw [tokens, hfirst]; rfl, hne⟩
  | abs operand _ => exact ⟨_, _, rfl, by simp⟩
  | round operand places _ => cases places <;> exact ⟨_, _, rfl, by simp⟩

end Term

namespace Condition

variable {column name text : String} {c : Condition} {fuel : Nat} {rest : List Token}

theorem read_less {left right : Term} {ts more : List Token} (hts : ∀ t ∈ ts.head?, t ≠ .opening)
    (hleft : Term.read column fuel ts = some (left, .symbol .lt :: more))
    (hright : Term.read column fuel more = some (right, rest)) :
    read column (fuel + 1) ts = some (.less left right, rest) := by
  rw [read]
  · simp only [hleft, Option.bind_eq_bind, Option.bind_some, hright]
    rfl
  · rintro rest rfl
    exact hts _ rfl rfl

theorem read_both {left right : Condition} {ts more : List Token}
    (hleft : read column fuel ts = some (left, .keyword .and :: more))
    (hright : read column fuel more = some (right, .closing :: rest)) :
    read column (fuel + 1) (.opening :: ts) = some (.both left right, rest) := by
  rw [read, hleft]
  simp only [Option.bind_eq_bind, Option.bind_some, hright]
  rfl

theorem read_tokens (h : c.Regular) (hfuel : (c.tokens column).length < fuel) (hrest : Ends rest) :
    read column (fuel + 1) (c.tokens column ++ rest) = some (c, rest) := by
  induction c generalizing fuel rest with
  | less left right =>
    simp only [tokens, List.length_append, List.length_cons] at hfuel
    simp only [tokens, List.append_assoc, List.cons_append]
    obtain ⟨first, more, hfirst, hne⟩ := left.exists_first column
    refine read_less (by simpa [hfirst] using hne) ?_
      ((Term.reads_tokens h.2).2.read_eq (by omega) hrest)
    exact (Term.reads_tokens h.1).2.read_eq (by omega) ⟨by simp, by simp⟩
  | both left right hleft hright =>
    simp only [tokens, List.length_append, List.length_cons, List.length_nil] at hfuel
    simp only [tokens, List.append_assoc, List.cons_append, List.nil_append]
    obtain ⟨fuel, rfl⟩ := Nat.exists_eq_succ_of_ne_zero (Nat.ne_zero_of_lt hfuel)
    refine read_both (hleft h.1 (by omega) ⟨by simp, by simp⟩) ?_
    exact hright h.2 (by omega) ⟨by simp, by simp⟩

/-- **A condition is read as what was written**, where the column is read as a name. -/
theorem read?_text (hcolumn : Mode.Lexes Mode.endsExpr text.toList [.name name]) (h : c.Regular) :
    read? name (c.text text) = some c := by
  rw [read?, tokens?_text hcolumn h]
  have hread : read name ((c.tokens name).length + 2) (c.tokens name ++ []) = some (c, []) :=
    read_tokens h (by omega) ⟨by simp, by simp⟩
  rw [List.append_nil] at hread
  simp only [Option.bind_eq_bind, Option.bind_some, hread]

end Condition

end StrictDdl.Sqlite
