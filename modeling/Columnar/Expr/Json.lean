import Columnar.DataType.Schema
import Columnar.Expr.Basic
import Columnar.Literal.Json

/-! Expressions as JSON: each node is a list of its kind and its parts. -/
namespace Columnar

namespace UnaryOp

def names : List (String × UnaryOp) :=
  [("not", not), ("negate", negate), ("bitnot", bitwiseNot), ("isnull", isNull),
   ("isnotnull", isNotNull)]

end UnaryOp

namespace BinaryOp

def names : List (String × BinaryOp) :=
  [("eq", equal), ("ne", notEqual), ("eqns", equalNullSafe), ("gt", greater), ("ge", greaterEqual),
   ("lt", less), ("le", lessEqual), ("and", and), ("or", or), ("plus", plus), ("minus", minus),
   ("mul", multiply), ("div", divide), ("mod", modulo), ("bitand", bitwiseAnd), ("bitor", bitwiseOr),
   ("bitxor", bitwiseXor), ("like", like), ("rlike", rlike)]

end BinaryOp

/-- The name under which a table has a value. -/
def nameIn {α : Type} [DecidableEq α] (names : List (String × α)) (a : α) : String :=
  match names with
  | [] => ""
  | (name, b) :: rest => if b = a then name else nameIn rest a

def Direction.ofName? : String → Option Direction
  | "ASC" => some ascending
  | "DESC" => some descending
  | _ => none

def NullOrder.names : List (String × NullOrder) := [("FIRST", first), ("LAST", last)]

def FrameUnit.ofName? : String → Option FrameUnit
  | "ROWS" => some rows
  | "RANGE" => some range
  | _ => none

namespace FrameBound

def toJson : FrameBound → Json
  | unboundedPreceding => .list [.text "unbounded_preceding"]
  | preceding n => .list [.text "preceding", .int n.toNat]
  | currentRow => .list [.text "current_row"]
  | following n => .list [.text "following", .int n.toNat]
  | unboundedFollowing => .list [.text "unbounded_following"]

def ofJson? : Json → Option FrameBound
  | .list [.text "unbounded_preceding"] => some unboundedPreceding
  | .list [.text "preceding", .int n] => some (preceding (.ofNat n.toNat))
  | .list [.text "current_row"] => some currentRow
  | .list [.text "following", .int n] => some (following (.ofNat n.toNat))
  | .list [.text "unbounded_following"] => some unboundedFollowing
  | _ => none

end FrameBound

namespace FrameSpan

def optionToJson : Option FrameSpan → Json
  | none => .null
  | some s =>
    .list [.text (match s.unit with | .rows => "ROWS" | .range => "RANGE"), s.start.toJson,
      s.stop.toJson]

def optionOfJson? : Json → Option (Option FrameSpan)
  | .null => some none
  | .list [.text unit, start, stop] => do
    let unit ← FrameUnit.ofName? unit
    let start ← FrameBound.ofJson? start
    let stop ← FrameBound.ofJson? stop
    some (some ⟨unit, start, stop⟩)
  | _ => none

end FrameSpan

def Json.texts? (j : Json) : Option (List String) :=
  match j with
  | .list items => items.mapM Json.text?
  | _ => none

namespace Expr

mutual

def toJson : Expr → Json
  | column none name => .list [.text "col", .text name]
  | column (some qualifier) name => .list [.text "qcol", .text qualifier, .text name]
  | literal l => .list [.text "lit", l.toJson]
  | raw t => .list [.text "raw", .text t]
  | aliased e name => .list [.text "alias", e.toJson, .text name]
  | multiAliased e names => .list [.text "malias", e.toJson, .list (names.map .text)]
  | unary op e => .list [.text "un", .text (nameIn UnaryOp.names op), e.toJson]
  | binary op l r => .list [.text "bin", .text (nameIn BinaryOp.names op), l.toJson, r.toJson]
  | call function args => .list [.text "fn", .text function, .list (listToJson args)]
  | cast e type => .list [.text "cast", e.toJson, type.toJson]
  | case branches otherwise =>
    .list [.text "case", .list (branchesToJson branches), optionToJson otherwise]
  | inList e items => .list [.text "in", e.toJson, .list (listToJson items)]
  | between e low high => .list [.text "between", e.toJson, low.toJson, high.toJson]
  | subscript e index => .list [.text "sub", e.toJson, index.toJson]
  | field e name => .list [.text "field", e.toJson, .text name]
  | withField e name value => .list [.text "with", e.toJson, .text name, value.toJson]
  | dropFields e names => .list [.text "drop", e.toJson, .list (names.map .text)]
  | sort e direction nulls =>
    .list [.text "sort", e.toJson, .text (match direction with
      | .ascending => "ASC"
      | .descending => "DESC"), .text (nameIn NullOrder.names nulls)]
  | window e partition order frame =>
    .list [.text "over", e.toJson, .list (listToJson partition), .list (listToJson order),
      FrameSpan.optionToJson frame]

def listToJson : List Expr → List Json
  | [] => []
  | e :: es => e.toJson :: listToJson es

def branchesToJson : List (Expr × Expr) → List Json
  | [] => []
  | (condition, value) :: rest =>
    .list [condition.toJson, value.toJson] :: branchesToJson rest

def optionToJson : Option Expr → Json
  | none => .null
  | some e => e.toJson

end

mutual

def ofJson? : Json → Option Expr
  | .list [.text "col", .text name] => some (column none name)
  | .list [.text "qcol", .text qualifier, .text name] => some (column (some qualifier) name)
  | .list [.text "lit", l] => (Literal.ofJson? l).map literal
  | .list [.text "raw", .text t] => some (raw t)
  | .list [.text "alias", e, .text name] => do
    let e ← ofJson? e
    some (aliased e name)
  | .list [.text "malias", e, names] => do
    let e ← ofJson? e
    let names ← names.texts?
    some (multiAliased e names)
  | .list [.text "un", .text op, e] => do
    let op ← UnaryOp.names.lookup op
    let e ← ofJson? e
    some (unary op e)
  | .list [.text "bin", .text op, l, r] => do
    let op ← BinaryOp.names.lookup op
    let l ← ofJson? l
    let r ← ofJson? r
    some (binary op l r)
  | .list [.text "fn", .text function, .list args] => do
    let args ← listOfJson? args
    some (call function args)
  | .list [.text "cast", e, type] => do
    let e ← ofJson? e
    let type ← (DataType.ofJson type).toOption
    some (cast e type)
  | .list [.text "case", .list branches, .null] => do
    let branches ← branchesOfJson? branches
    some (case branches none)
  | .list [.text "case", .list branches, otherwise] => do
    let branches ← branchesOfJson? branches
    let otherwise ← ofJson? otherwise
    some (case branches (some otherwise))
  | .list [.text "in", e, .list items] => do
    let e ← ofJson? e
    let items ← listOfJson? items
    some (inList e items)
  | .list [.text "between", e, low, high] => do
    let e ← ofJson? e
    let low ← ofJson? low
    let high ← ofJson? high
    some (between e low high)
  | .list [.text "sub", e, index] => do
    let e ← ofJson? e
    let index ← ofJson? index
    some (subscript e index)
  | .list [.text "field", e, .text name] => do
    let e ← ofJson? e
    some (field e name)
  | .list [.text "with", e, .text name, value] => do
    let e ← ofJson? e
    let value ← ofJson? value
    some (withField e name value)
  | .list [.text "drop", e, names] => do
    let e ← ofJson? e
    let names ← names.texts?
    some (dropFields e names)
  | .list [.text "sort", e, .text direction, .text nulls] => do
    let e ← ofJson? e
    let direction ← Direction.ofName? direction
    let nulls ← NullOrder.names.lookup nulls
    some (sort e direction nulls)
  | .list [.text "over", e, .list partition, .list order, frame] => do
    let e ← ofJson? e
    let partition ← listOfJson? partition
    let order ← listOfJson? order
    let frame ← FrameSpan.optionOfJson? frame
    some (window e partition order frame)
  | _ => none

def listOfJson? : List Json → Option (List Expr)
  | [] => some []
  | j :: js => do
    let e ← ofJson? j
    let es ← listOfJson? js
    some (e :: es)

def branchesOfJson? : List Json → Option (List (Expr × Expr))
  | [] => some []
  | .list [condition, value] :: js => do
    let condition ← ofJson? condition
    let value ← ofJson? value
    let rest ← branchesOfJson? js
    some ((condition, value) :: rest)
  | _ => none

end

end Expr

end Columnar
