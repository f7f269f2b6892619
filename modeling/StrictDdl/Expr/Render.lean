import StrictDdl.Expr.Basic
import StrictDdl.Expr.Binding
import StrictDdl.Sql.Literal
import StrictDdl.SqlType

/-! The text of an expression in a dialect.

One walk serves both dialects: the source dialect gives the normal form of the
expression, the target dialect the text that stands in a clause of an emitted
table. A node without a form in the dialect is a fault of its own kind, which the
caller may turn into a marker. -/
namespace StrictDdl.Expr

/-- The last part of an operator's name. -/
def symbolOf (parts : List Json) : Json := (parts.getLast?).getD (.str "")

/-- The binding of an operator that may be no text. -/
def bindingOf (op : Json) : Read Binding := do
  match ← op.key with
  | .str op => return .ofOperator op
  | _ => return .userOperator

/-- An operator in the target dialect: its spelling and its binding there. -/
def targetOperator (op : Json) (binding : Binding) : Read (String × Binding) :=
  let refused : Read (String × Binding) :=
    .error (.unrenderable ("operator " ++ op.display) .sqlite)
  match op with
  | .str s =>
    match Sql.respelled.lookup s with
    | some spelling => .ok (spelling, .matching)
    | none => if Sql.shared.contains s then .ok (s, binding) else refused
  | _ => refused

/-- Whether an operator is the negated form of a match. -/
def isNegated (op : Json) : Read Bool := do return (← op.text).toList.head? = some '!'

/-- The elements a membership or a range is written over. -/
def elements (d : Dialect) : Expr → Read (List Expr)
  | .items es => .ok es
  | .row es => .ok es
  | .array es => .ok es
  | e => do .error (.unrenderable (← e.kind) d)

/-- The number of elements; a value in place of the list may have none. -/
def count : List Expr → Read Nat
  | [.unlisted] => .error .mistyped
  | es => .ok es.length

/-- Elements that are asked for by position, which the members of an object are
not. -/
def positioned : Expr → Read Unit
  | .memberName _ => .error .mistyped
  | _ => .ok ()

def negatedWord (negated : Bool) (word : String) : String :=
  if negated then "NOT " ++ word else word

/-- The keyword of a match. -/
def likeWord (d : Dialect) (insensitive negated : Bool) : String :=
  negatedWord negated (if insensitive && d = .postgres then "ILIKE" else "LIKE")

def betweenWord (negated symmetric : Bool) : String :=
  negatedWord negated (if symmetric then "BETWEEN SYMMETRIC" else "BETWEEN")

def distinctWord (d : Dialect) (negated : Bool) : String :=
  match d, negated with
  | .sqlite, true => "IS"
  | .sqlite, false => "IS NOT"
  | .postgres, true => "IS NOT DISTINCT FROM"
  | .postgres, false => "IS DISTINCT FROM"

/-- The membership a quantified comparison amounts to: equal to some element, or
different from all. -/
def quantifiedMembership? (all : Bool) (op : Json) : Option String :=
  match all, op with
  | false, .str "=" => some "IN"
  | true, .str "<>" => some "NOT IN"
  | _, _ => none

def quantifier (all : Bool) : String := if all then "ALL" else "ANY"

/-- The text of a value function. -/
def renderValueFunction (d : Dialect) (code : Json) : Read Rendered := do
  match Sql.valueFunction? (← code.key) with
  | none => .error (.unrenderable ("SQLValueFunction " ++ code.display) d)
  | some keyword =>
    match d with
    | .postgres => return .atom (LetterCase.upper keyword)
    | .sqlite =>
      match Sql.computed? keyword with
      | some text => return .atom text
      | none => .error (.unrenderable (LetterCase.upper keyword) d)

/-- The text of a call with these arguments. -/
def renderCall (d : Dialect) (function : List Json) (plain : Bool) (arguments : String) :
    Read Rendered := do
  let names := TypeName.unqualified function
  match d with
  | .postgres => return .atom ((← Node.join "." names) ++ "(" ++ arguments ++ ")")
  | .sqlite =>
    match names.getLast? with
    | none => .error .mistyped
    | some name =>
      let name := LetterCase.lower (← name.text)
      match plain, Sql.computed? name with
      | true, some text => return .atom text
      | _, _ => return .atom (Sql.targetFunction name ++ "(" ++ arguments ++ ")")

/-- The storage type a cast is written with in the target dialect, with the lower-case
name of the type; no cast is written for enumerations, unknown types and arrays. -/
def castTarget (type : TypeName) : Read (Option (TypeSpec × String)) := do
  match (← type.names).getLast? with
  | none => return none
  | some name =>
    let name := LetterCase.lower (← name.text)
    if type.isArray then return none
    else return (TypeSpec.find? name).map fun spec => (spec, name)

/-- The truth value a text constant is cast to. -/
def truthText (s : String) : String :=
  if Sql.trueSpellings.contains (LetterCase.lower s) then "1" else "0"

/-- The text constant an expression is, if it is one. -/
def textConstant? (e : Expr) : Read (Option String) := do
  sound ["A_Const"] e
  match e with
  | .constant value _ =>
    match ← value with
    | .str s => return some s
    | _ => return none
  | _ => return none

/-- The truth value that a text constant cast to this type becomes. -/
def truthCast? (type : String) (operand : Expr) : Read (Option String) := do
  if type = "bool" ∨ type = "boolean" then
    return (← textConstant? operand).map truthText
  else return none

/-- The text of a test for a truth value. -/
def truthTestWords (code : Json) : Read String := do
  return String.ofList ((← code.text).toList.map fun c => if c = '_' then ' ' else c)

mutual

/-- The text and binding of an expression. -/
def render (d : Dialect) : Expr → Read Rendered
  | .column path => do
    let names ← (← path).mapM Json.text
    return .atom (String.intercalate "." (names.map Sql.identifier))
  | .constant _ shown => do
    let value ← shown
    return .atom (match d with
      | .sqlite => value.sqlLiteral
      | .postgres => value.sourceLiteral)
  | .valueFunction code => renderValueFunction d code
  | .operator .plain symbol left right => do
    let op := symbolOf (← symbol)
    if left.isAbsent then
      match op with
      | .str "-" => return ⟨"-" ++ (← render d right).operand .sign false, .sign⟩
      | .str "+" => return ⟨"+" ++ (← render d right).operand .sign false, .sign⟩
      | op => .error (.unrenderable ("prefix operator " ++ op.display) d)
    else
      let binding ← bindingOf op
      let (spelling, binding) ← match d with
        | .sqlite => targetOperator op binding
        | .postgres => .ok (op.display, binding)
      let l ← render d left
      let r ← render d right
      return l.between spelling r binding
  | .operator (.like insensitive) symbol left right => do
    let negated ← isNegated (symbolOf (← symbol))
    let l ← render d left
    let r ← render d right
    return l.between (likeWord d insensitive negated) r .matching
  | .operator .membership symbol left right => do
    let negated := (symbolOf (← symbol)).same (.str "<>")
    let l ← render d left
    let rs ← renderElements d right
    return ⟨l.operand .matching false ++ " " ++ negatedWord negated "IN" ++ " (" ++
      joinTexts rs ++ ")", .matching⟩
  | .operator (.between negated symmetric) _ left right => do
    if symmetric && d = .sqlite then .error (.unrenderable "BETWEEN SYMMETRIC" d)
    else
      let bounds ← elements d right
      if (← count bounds) ≠ 2 then
        .error (.unrenderable (OperatorForm.between negated symmetric).code.display d)
      else
        let l ← render d left
        bounds.forM positioned
        match ← renderElements d right with
        | [low, high] =>
          return ⟨l.operand .matching false ++ " " ++ betweenWord negated symmetric ++ " " ++
            low.operand .userOperator false ++ " AND " ++ high.operand .userOperator false, .matching⟩
        | _ => .error .mistyped
  | .operator (.quantified all) symbol left right => do
    let op := symbolOf (← symbol)
    match d with
    | .sqlite =>
      match ← (op.key).map (quantifiedMembership? all), right with
      | some word, .array _ => do
        let l ← render d left
        let rs ← renderElements d right
        return ⟨l.operand .matching false ++ " " ++ word ++ " (" ++ joinTexts rs ++ ")", .matching⟩
      | some _, .stray (.obj [("A_ArrayExpr", _)]) => do
        let _ ← render d left
        malformed "A_ArrayExpr body is not an object"
      | _, _ => .error (.unrenderable (op.display ++ " " ++ quantifier all) d)
    | .postgres => do
      let l ← render d left
      let r ← render d right
      return ⟨l.operand .comparison false ++ " " ++ op.display ++ " " ++ quantifier all ++ " (" ++
        r.text ++ ")", .comparison⟩
  | .operator (.distinct negated) _ left right => do
    let l ← render d left
    let r ← render d right
    return l.between (distinctWord d negated) r .test
  | .operator .nullIf _ left right => do
    let l ← render d left
    let r ← render d right
    let name := match d with
      | .sqlite => "nullif"
      | .postgres => "NULLIF"
    return .atom (name ++ "(" ++ joinTexts [l, r] ++ ")")
  | .operator .similar symbol left right => do
    match d with
    | .sqlite => .error (.unrenderable OperatorForm.similar.code.display d)
    | .postgres =>
      let negated ← isNegated (symbolOf (← symbol))
      let l ← render d left
      let r ← render d right
      return l.between (negatedWord negated "SIMILAR TO") r .matching
  | .operator (.other code) _ _ _ => .error (.unrenderable code.display d)
  | .connective .negation operands =>
    match operands with
    | [] => .error .mistyped
    | .memberName _ :: _ => .error .mistyped
    | e :: _ => do return ⟨"NOT " ++ (← render d e).operand .negation false, .negation⟩
  | .connective op operands => do
    let rs ← renderAll d operands
    let (binding, word) := match op with
      | .conjunction => (Binding.conjunction, " AND ")
      | .unstated => (Binding.conjunction, " AND ")
      | _ => (Binding.disjunction, " OR ")
    return ⟨String.intercalate word (rs.map fun r => r.operand binding false), binding⟩
  | .nullTest negated operand => do
    let r ← render d operand
    return ⟨r.operand .comparison false ++ (if negated then " IS NOT NULL" else " IS NULL"), .test⟩
  | .truthTest code operand => do
    let words ← truthTestWords code
    let r ← render d operand
    return ⟨r.operand .comparison false ++ " " ++ words, .test⟩
  | .call function star arguments => do
    let names ← function
    let text ← if star then pure "*" else (renderAll d arguments).map joinTexts
    renderCall d names arguments.isEmpty text
  | .cast type operand => do
    match d with
    | .postgres =>
      let r ← render d operand
      return ⟨r.operand .cast false ++ "::" ++ (← type.spelling), .cast⟩
    | .sqlite =>
      match ← castTarget type with
      | none => render d operand
      | some (spec, name) =>
        match ← truthCast? name operand with
        | some text => return .atom text
        | none => return .atom ("CAST(" ++ (← render d operand).text ++ " AS " ++ spec.storage ++ ")")
  | .array es => do
    let rs ← renderAll d es
    return .atom (match d with
      | .sqlite => "json_array(" ++ joinTexts rs ++ ")"
      | .postgres => "ARRAY[" ++ joinTexts rs ++ "]")
  | .row es => do return .atom ("(" ++ joinTexts (← renderAll d es) ++ ")")
  | .coalesce arguments => do
    let rs ← renderAll d arguments
    return .atom ((match d with
      | .sqlite => "coalesce"
      | .postgres => "COALESCE") ++ "(" ++ joinTexts rs ++ ")")
  | .extremum greatest arguments => do
    let rs ← renderAll d arguments
    let name := match d, greatest with
      | .sqlite, true => "max"
      | .sqlite, false => "min"
      | .postgres, true => "GREATEST"
      | .postgres, false => "LEAST"
    return .atom (name ++ "(" ++ joinTexts rs ++ ")")
  | .choice subject arms otherwise => do
    let head ← if subject.isGiven then (render d subject).map (fun r => [r.text]) else pure []
    let middle ← renderArms d arms
    let last ← if otherwise.isGiven then (render d otherwise).map (fun r => ["ELSE " ++ r.text])
      else pure []
    return .atom (String.intercalate " " ("CASE" :: head ++ middle ++ last ++ ["END"]))
  | .arm _ _ => .error (.unrenderable "CaseWhen" d)
  | .unknown kind => .error (.unrenderable kind d)
  | e => do .error (.unrenderable (← e.kind) d)

/-- The texts of several expressions, in order. -/
def renderAll (d : Dialect) : List Expr → Read (List Rendered)
  | [] => .ok []
  | e :: rest => do
    let r ← render d e
    return r :: (← renderAll d rest)

/-- The texts of the elements of a list, an array or a row. -/
def renderElements (d : Dialect) : Expr → Read (List Rendered)
  | .items es => renderAll d es
  | .row es => renderAll d es
  | .array es => renderAll d es
  | e => do .error (.unrenderable (← e.kind) d)

/-- The arms of a choice. -/
def renderArms (d : Dialect) : List Expr → Read (List String)
  | [] => .ok []
  | .arm condition result :: rest => do
    let c ← render d condition
    let r ← render d result
    return ("WHEN " ++ c.text ++ " THEN " ++ r.text) :: (← renderArms d rest)
  | .stray (.obj [(tag, _)]) :: _ =>
    if tag = "CaseWhen" then malformed "CaseWhen body is not an object"
    else malformed ("expected CaseWhen, got " ++ tag)
  | e :: _ => do malformed ("expected CaseWhen, got " ++ (← e.kind))

end

/-- The text of an expression. -/
def text (d : Dialect) (e : Expr) : Read String := do return (← render d e).text

/-- The text of an expression, or nothing when the dialect has none. -/
def text? (d : Dialect) (e : Expr) : Read (Option String) :=
  match e.text d with
  | .ok s => .ok (some s)
  | .error (.unrenderable _ _) => .ok none
  | .error fault => .error fault

end StrictDdl.Expr
