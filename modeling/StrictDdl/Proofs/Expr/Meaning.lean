import StrictDdl.Check
import StrictDdl.Proofs.Model.Build
import StrictDdl.Proofs.Sql.Truth

/-! What an expression says about one column.

`Expr.truth?` evaluates an expression in the logic of SQL when the column has a given value: the
comparisons with the column on either side, ranges, memberships, comparisons with some element
of an array, and the connectives of these. Constants are what their nodes hold, with signs
applied, and a cast is read as its operand. An expression of any other form has no meaning
here. -/
namespace StrictDdl

open Sql

namespace Sql.Value

/-- The value that a constant holds; arrays and objects are none. -/
def ofJson? (j : Json) : Option Value := (Scalar.ofJson? j).map ofScalar

end Sql.Value

namespace Expr

/-- The operator, if it is a text. -/
def symbol? (symbol : Read (List Json)) : Option String :=
  match operatorName symbol with
  | .ok (.str op) => some op
  | _ => none

/-- The value of a constant with the casts and signs around it. -/
def literal? : Expr → Option Value
  | .constant value _ => value.toOption.bind Value.ofJson?
  | .cast _ operand => literal? operand
  | .operator .plain symbol left right =>
    if left.isAbsent && symbol? symbol = some "-" then (literal? right).bind Value.neg? else none
  | _ => none

/-- Whether the expression is the column. -/
def isReferenceTo (column : Json) : Expr → Bool
  | .column (.ok path) => path.getLast?.any fun name => name.same column
  | _ => false

/-- The value of the column or of a constant. -/
def operand? (column : Json) (v : Value) (e : Expr) : Option Value :=
  if e.isReferenceTo column then some v else e.literal?

/-- The elements of a list, a row or an array. -/
def elements? : Expr → Option (List Expr)
  | .items es => some es
  | .row es => some es
  | .array es => some es
  | .cast _ operand => elements? operand
  | _ => none

/-- What an operator expression without connectives says. -/
def test? (column : Json) (v : Value) (form : OperatorForm) (symbol : Read (List Json))
    (left right : Expr) : Option Truth :=
  match form with
  | .plain => do
    Value.compare? (← symbol? symbol) (← left.operand? column v) (← right.operand? column v)
  | .between false false => do
    match ← right.elements? with
    | [low, high] =>
      let subject ← left.operand? column v
      return .all [← Value.compare? ">=" subject (← low.operand? column v),
        ← Value.compare? "<=" subject (← high.operand? column v)]
    | _ => none
  | .membership => equalsOne? symbol
  | .quantified false => equalsOne? symbol
  | _ => none
where
  /-- Whether the left side is equal to one of the elements on the right. -/
  equalsOne? (symbol : Read (List Json)) : Option Truth := do
    if (← symbol? symbol) = "=" then
      let subject ← left.operand? column v
      let values ← (← right.elements?).mapM (operand? column v)
      return .any (values.map subject.equal)
    else none

mutual

/-- What the expression says of a row whose column has the value. -/
def truth? (column : Json) (v : Value) : Expr → Option Truth
  | .operator form symbol left right => test? column v form symbol left right
  | .connective .conjunction operands => (truths? column v operands).map .all
  | .connective .disjunction operands => (truths? column v operands).map .any
  | _ => none

def truths? (column : Json) (v : Value) : List Expr → Option (List Truth)
  | [] => some []
  | e :: rest => do return (← truth? column v e) :: (← truths? column v rest)

end

mutual

/-- The values of all constants in an expression, with their signs. -/
def literals : Expr → List Value
  | .constant value shown => (literal? (.constant value shown)).toList
  | .operator form symbol left right =>
    match literal? (.operator form symbol left right) with
    | some v => [v]
    | none => left.literals ++ right.literals
  | .cast _ operand => operand.literals
  | .connective _ operands => literalsOf operands
  | .nullTest _ operand => operand.literals
  | .truthTest _ operand => operand.literals
  | .call _ _ arguments => literalsOf arguments
  | .items elements => literalsOf elements
  | .row elements => literalsOf elements
  | .array elements => literalsOf elements
  | .coalesce arguments => literalsOf arguments
  | .extremum _ arguments => literalsOf arguments
  | .choice subject arms otherwise => subject.literals ++ literalsOf arms ++ otherwise.literals
  | .arm condition result => condition.literals ++ result.literals
  | _ => []

def literalsOf : List Expr → List Value
  | [] => []
  | e :: rest => e.literals ++ literalsOf rest

end

/-! ### What the readers of checks find -/

variable {column : Json} {e : Expr} {symbol : Read (List Json)}

theorem isReferenceTo_of_isColumn {b : Bool} (h : e.isColumn column = .ok b) :
    e.isReferenceTo column = b := by
  have hother (e : Expr) (h : (do sound ["ColumnRef"] e; return false : Read Bool) = .ok b) :
      b = false := by
    obtain ⟨_, _, h⟩ := Read.bind_eq_ok_iff.1 h
    exact (Except.ok.inj h).symm
  cases e with
  | column path =>
    rw [isColumn] at h
    obtain ⟨names, rfl, hlast⟩ := Read.bind_eq_ok_iff.1 h
    show names.getLast?.any (fun name => name.same column) = b
    split at hlast
    · rename_i name hname
      rw [hname]
      exact Except.ok.inj hlast
    · rename_i hname
      rw [hname]
      exact Except.ok.inj hlast
  | _ => exact (hother _ h).symm

theorem symbol?_of_operatorName {op : String} (h : operatorName symbol = .ok (.str op)) :
    symbol? symbol = some op := by
  simp only [symbol?, h]

theorem literals_of_literal? {v : Value} (e : Expr) (h : e.literal? = some v) :
    e.literals = [v] := by
  cases e with
  | constant value shown => rw [literals, h, Option.toList_some]
  | cast type operand =>
    rw [literal?] at h
    rw [literals, literals_of_literal? operand h]
  | operator form symbol left right => rw [literals, h]
  | _ => cases h

/-- A constant that is read has the value of what is read. -/
theorem literal?_of_constant? {j : Json} (e : Expr) (h : e.constant? = .ok (some j)) :
    e.literal? = Value.ofJson? j := by
  have hother (e : Expr) :
      (do sound ["TypeCast", "A_Const", "A_Expr"] e; return none : Read (Option Json)) ≠
        .ok (some j) := by
    intro h
    obtain ⟨_, _, h⟩ := Read.bind_eq_ok_iff.1 h
    cases h
  cases e with
  | constant value shown =>
    obtain ⟨j', rfl, hj⟩ := Read.map_eq_ok_iff.1 h
    cases hj
    rfl
  | cast type operand => exact literal?_of_constant? operand h
  | operator form symbol left right =>
    cases form with
    | plain =>
      rw [constant?] at h
      split at h
      · rename_i habsent
        obtain ⟨name, hname, h⟩ := Read.bind_eq_ok_iff.1 h
        split at h
        · rename_i hminus
          obtain rfl := Json.eq_str_of_same hminus
          obtain ⟨value?, hvalue, h⟩ := Read.bind_eq_ok_iff.1 h
          rw [literal?, if_pos (by simp [habsent, symbol?_of_operatorName hname])]
          split at h
          · cases h
            rw [literal?_of_constant? right hvalue]
            exact Value.neg?_ofNumber (.int _)
          · cases h
            rw [literal?_of_constant? right hvalue]
            exact Value.neg?_ofNumber (.float _)
          · cases h
        · cases h
      · cases h
    | _ => exact absurd h (hother _)
  | unlisted => cases h
  | _ => exact absurd h (hother _)

/-- A number that is read has its own value. -/
theorem literal?_of_number {j? : Option Json} {n : Number} (h : e.constant? = .ok j?)
    (hnumber : j?.bind numberOf? = some n) : e.literal? = some (.ofNumber n) := by
  obtain ⟨j, rfl, hj⟩ := Option.bind_eq_some_iff.1 hnumber
  rw [literal?_of_constant? e h]
  cases j <;> cases hj <;> rfl

theorem operand?_of_literal? {v k : Value} (h : e.literal? = some k) :
    e.operand? column v = some k := by
  cases e with
  | column path => cases h
  | _ => exact h

theorem operand?_of_isReferenceTo {v : Value} (h : e.isReferenceTo column = true) :
    e.operand? column v = some v := if_pos h

theorem literals_of_isReferenceTo (h : e.isReferenceTo column = true) : e.literals = [] := by
  cases e with
  | column path => simp only [literals]
  | _ => cases h

/-- An operator that is no minus makes no constant. -/
theorem literals_operator {form : OperatorForm} {left right : Expr}
    (h : form ≠ .plain ∨ symbol? symbol ≠ some "-") :
    (Expr.operator form symbol left right).literals = left.literals ++ right.literals := by
  have hnone : literal? (.operator form symbol left right) = none := by
    cases form with
    | plain => rw [literal?, if_neg (by simp [h.resolve_left (by simp)])]
    | _ => rfl
  rw [literals, hnone]

theorem truth?_comparison {op : String} {left right : Expr} {v a b : Value}
    (hsymbol : symbol? symbol = some op) (hleft : left.operand? column v = some a)
    (hright : right.operand? column v = some b) :
    truth? column v (.operator .plain symbol left right) = Value.compare? op a b := by
  simp [truth?, test?, hsymbol, hleft, hright]

/-! ### Lists -/

theorem elements?_of_listed? {es : List Expr} (h : e.listed? = .ok (some es)) :
    e.elements? = some es := by
  have hother (e : Expr) : (do sound ["List", "A_ArrayExpr"] e; return none :
      Read (Option (List Expr))) ≠ .ok (some es) := by
    intro h
    obtain ⟨_, _, h⟩ := Read.bind_eq_ok_iff.1 h
    cases h
  cases e with
  | items elements => exact congrArg some (Option.some.inj (Except.ok.inj h))
  | row elements => exact congrArg some (Option.some.inj (Except.ok.inj h))
  | array elements => exact congrArg some (Option.some.inj (Except.ok.inj h))
  | _ => exact absurd h (hother _)

/-- Operands that are constants have their values. -/
theorem operands_of_literals {v : Value} {es : List Expr} {ks : List Value}
    (h : List.Forall₂ (fun e k => e.literal? = some k) es ks) :
    es.mapM (operand? column v) = some ks :=
  Ending.option.mapM_iff.2 (h.imp fun _ _ => operand?_of_literal?)

theorem literals_of_elements? {es : List Expr} (e : Expr) (h : e.elements? = some es) :
    e.literals = literalsOf es := by
  cases e with
  | items elements => cases h; rw [literals]
  | row elements => cases h; rw [literals]
  | array elements => cases h; rw [literals]
  | cast type operand => rw [literals, literals_of_elements? operand h]
  | _ => cases h

/-- Constants that are read are read one by one. -/
theorem constants?_eq_ok {es : List Expr} {js : List Json} (h : constants? es = .ok (some js)) :
    List.Forall₂ (fun e j => e.constant? = .ok (some j)) es js := by
  obtain ⟨values, hvalues, h⟩ := Read.bind_eq_ok_iff.1 h
  have hjs := Except.ok.inj h
  split at hjs
  · cases hjs
  · refine forall₂_comp (Read.mapM_eq_ok_iff.1 hvalues) (Ending.option.mapM_iff.1 hjs) ?_
    intro e _ value? _ j he hj
    rw [he, show value? = some j from hj]

end Expr

end StrictDdl
