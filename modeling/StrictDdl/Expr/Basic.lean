import StrictDdl.ParseTree.TypeName

/-! Expressions of a parse tree.

An `Expr` is a node with its parts read. A part that can only be read with a
fault keeps the fault, which is raised by whoever needs the part; a value that is
no node at all is kept as it is. So every JSON value has an expression
(`Expr.ofJson`), and what is wrong with it shows only when it is used. -/
namespace StrictDdl

/-- The shapes of operator expressions. -/
inductive OperatorForm where
  /-- An operator between two operands or before one. -/
  | plain
  | like (insensitive : Bool)
  | membership
  | between (negated symmetric : Bool)
  /-- A comparison with some or with all elements of an array. -/
  | quantified (all : Bool)
  | distinct (negated : Bool)
  | nullIf
  | similar
  /-- A shape that no dialect writes. -/
  | other (code : Json)

namespace OperatorForm

/-- The parser's code of a shape. -/
def code : OperatorForm → Json
  | .plain => .str "AEXPR_OP"
  | .like false => .str "AEXPR_LIKE"
  | .like true => .str "AEXPR_ILIKE"
  | .membership => .str "AEXPR_IN"
  | .between false false => .str "AEXPR_BETWEEN"
  | .between true false => .str "AEXPR_NOT_BETWEEN"
  | .between false true => .str "AEXPR_BETWEEN_SYM"
  | .between true true => .str "AEXPR_NOT_BETWEEN_SYM"
  | .quantified false => .str "AEXPR_OP_ANY"
  | .quantified true => .str "AEXPR_OP_ALL"
  | .distinct false => .str "AEXPR_DISTINCT"
  | .distinct true => .str "AEXPR_NOT_DISTINCT"
  | .nullIf => .str "AEXPR_NULLIF"
  | .similar => .str "AEXPR_SIMILAR"
  | .other code => code

def ofCode : Json → OperatorForm
  | .str "AEXPR_OP" => .plain
  | .str "AEXPR_LIKE" => .like false
  | .str "AEXPR_ILIKE" => .like true
  | .str "AEXPR_IN" => .membership
  | .str "AEXPR_BETWEEN" => .between false false
  | .str "AEXPR_NOT_BETWEEN" => .between true false
  | .str "AEXPR_BETWEEN_SYM" => .between false true
  | .str "AEXPR_NOT_BETWEEN_SYM" => .between true true
  | .str "AEXPR_OP_ANY" => .quantified false
  | .str "AEXPR_OP_ALL" => .quantified true
  | .str "AEXPR_DISTINCT" => .distinct false
  | .str "AEXPR_NOT_DISTINCT" => .distinct true
  | .str "AEXPR_NULLIF" => .nullIf
  | .str "AEXPR_SIMILAR" => .similar
  | code => .other code

end OperatorForm

/-- The logical connectives. -/
inductive Connective where
  | conjunction
  | disjunction
  | negation
  /-- Left out; written as a conjunction. -/
  | unstated
  /-- No known code; written as a disjunction. -/
  | other
  deriving DecidableEq

namespace Connective

def ofCode : Option Json → Connective
  | none => .unstated
  | some (.str "AND_EXPR") => .conjunction
  | some (.str "OR_EXPR") => .disjunction
  | some (.str "NOT_EXPR") => .negation
  | some _ => .other

end Connective

inductive Expr where
  /-- A value that is neither a node nor a list. -/
  | stray (value : Json)
  /-- The name of a member where an object stands in place of a list. -/
  | memberName (name : String)
  /-- A value in place of a list that has no elements at all. -/
  | unlisted
  /-- A list without a node around it. -/
  | items (elements : List Expr)
  /-- A node of a kind that no dialect writes. -/
  | unknown (kind : String)
  | column (path : Read (List Json))
  /-- A constant: its value, and the value that is shown when the body of the node
  is a constant node itself. -/
  | constant (value shown : Read Json)
  | valueFunction (code : Json)
  | operator (form : OperatorForm) (symbol : Read (List Json)) (left right : Expr)
  | connective (op : Connective) (operands : List Expr)
  | nullTest (negated : Bool) (operand : Expr)
  | truthTest (code : Json) (operand : Expr)
  | call (function : Read (List Json)) (star : Bool) (arguments : List Expr)
  | cast (type : TypeName) (operand : Expr)
  | array (elements : List Expr)
  | row (elements : List Expr)
  | coalesce (arguments : List Expr)
  | extremum (greatest : Bool) (arguments : List Expr)
  | choice (subject : Expr) (arms : List Expr) (otherwise : Expr)
  | arm (condition result : Expr)

namespace Expr

instance : Inhabited Expr := ⟨.stray .null⟩

/-- Whether an operand was left out. -/
def isAbsent : Expr → Bool
  | .stray .null => true
  | _ => false

/-- Whether an optional part counts as given. -/
def isGiven : Expr → Bool
  | .stray value => value.truthy
  | .items elements => !elements.isEmpty
  | _ => true

/-- The kind of a node. A value that is no node, or has no object for a body, has
none. -/
def kind : Expr → Read String
  | .stray (.obj [(tag, _)]) => malformed (tag ++ " body is not an object")
  | .stray value => malformed ("expected a tagged node, got " ++ value.typeName)
  | .memberName _ => malformed "expected a tagged node, got str"
  | .unlisted => .error .mistyped
  | .items _ => malformed "expected a tagged node, got list"
  | .unknown kind => .ok kind
  | .column _ => .ok "ColumnRef"
  | .constant .. => .ok "A_Const"
  | .valueFunction _ => .ok "SQLValueFunction"
  | .operator .. => .ok "A_Expr"
  | .connective .. => .ok "BoolExpr"
  | .nullTest .. => .ok "NullTest"
  | .truthTest .. => .ok "BooleanTest"
  | .call .. => .ok "FuncCall"
  | .cast .. => .ok "TypeCast"
  | .array _ => .ok "A_ArrayExpr"
  | .row _ => .ok "List"
  | .coalesce _ => .ok "CoalesceExpr"
  | .extremum .. => .ok "MinMaxExpr"
  | .choice .. => .ok "CaseExpr"
  | .arm .. => .ok "CaseWhen"

/-- Raises the fault of a node that gives one of these kinds as its own and has no object
for a body; every other expression passes. -/
def sound (kinds : List String) : Expr → Read Unit
  | .stray (.obj [(tag, _)]) =>
    if kinds.contains tag then malformed (tag ++ " body is not an object") else .ok ()
  | _ => .ok ()

/-! ### Reading -/

/-- The elements of a member that stands for a list; `value` is the member and
`read` its expression. -/
def listed (value : Json) (read : Expr) : List Expr :=
  match value, read with
  | _, .items elements => elements
  | .str s, _ => s.toList.map fun c => .stray (.str (String.ofList [c]))
  | .obj ms, _ => ms.map fun m => .memberName m.1
  | value, _ => if value.truthy then [.unlisted] else []

/-- The expression of a member; `read` holds the expressions of all members. -/
def part (read : List (String × Expr)) (key : String) : Expr :=
  (read.lookup key).getD (.stray .null)

/-- The constant in a body, which may be a constant node once more. -/
def ofConstant (ms : Members) : Expr :=
  .constant (Constant.ofBody ms) (Constant.value (.obj ms))

/-- The expression of a node with this kind and body; `read` holds the expressions
of the members of the body. -/
def ofNode (kind : String) (ms : Members) (read : List (String × Expr)) : Expr :=
  let list (key : String) : List Expr := listed (ms.get key) (part read key)
  match kind with
  | "ColumnRef" => .column (Node.strings (ms.get "fields"))
  | "A_Const" => ofConstant ms
  | "SQLValueFunction" => .valueFunction (ms.get "op")
  | "A_Expr" =>
    .operator (.ofCode ((ms.find? "kind").getD (.str "AEXPR_OP"))) (Node.strings (ms.get "name"))
      (part read "lexpr") (part read "rexpr")
  | "BoolExpr" => .connective (.ofCode (ms.find? "boolop")) (list "args")
  | "NullTest" =>
    .nullTest ((ms.get "nulltesttype").same (.str "IS_NOT_NULL")) (part read "arg")
  | "BooleanTest" => .truthTest ((ms.find? "booltesttype").getD (.str "IS_TRUE")) (part read "arg")
  | "FuncCall" =>
    .call (Node.strings (ms.get "funcname")) (ms.get "agg_star").truthy (list "args")
  | "TypeCast" =>
    let type := ms.get "typeName"
    .cast (.ofJson (if type.truthy then type else .obj [])) (part read "arg")
  | "A_ArrayExpr" => .array (list "elements")
  | "List" => .row (list "items")
  | "CoalesceExpr" => .coalesce (list "args")
  | "MinMaxExpr" =>
    .extremum (((ms.find? "op").getD (.str "IS_GREATEST")).same (.str "IS_GREATEST")) (list "args")
  | "CaseExpr" => .choice (part read "arg") (list "args") (part read "defresult")
  | "CaseWhen" => .arm (part read "expr") (part read "result")
  | kind => .unknown kind

mutual

/-- The expression a JSON value stands for. -/
def ofJson : Json → Expr
  | .arr elements => .items (ofElements elements)
  | .obj [(kind, .obj ms)] => ofNode kind ms (ofMembers ms)
  | .obj [(kind, .null)] => ofNode kind [] []
  | value => .stray value

def ofElements : List Json → List Expr
  | [] => []
  | j :: rest => ofJson j :: ofElements rest

def ofMembers : List (String × Json) → List (String × Expr)
  | [] => []
  | (key, j) :: rest => (key, ofJson j) :: ofMembers rest

end

end Expr

end StrictDdl
