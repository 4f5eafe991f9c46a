import Columnar.Column.Lambda
import Columnar.Literal.Host
import Columnar.Record.Migration

/-! How operations on columns build their expressions: from the expressions of the operands, the
receiver first, and from lambdas. -/
namespace Columnar

inductive WindowPart
  | partition
  | order
  | frame (span : FrameSpan)

inductive Form
  /-- The receiver itself. -/
  | receiver
  /-- An expression that the operands have no part in. -/
  | constant (expr : Expr)
  /-- A call with literals in front of the operands. -/
  | call (function : String) (leading : List Literal)
  | unary (op : UnaryOp)
  | binary (op : BinaryOp)
  /-- A binary operator with its operands exchanged. -/
  | exchanged (op : BinaryOp)
  /-- The negation of null-safe equality. -/
  | different
  /-- Division, with the dividend widened first. -/
  | quotient
  | between
  | cast (type : DataType)
  | rename (name : String)
  | sort (direction : Direction) (nulls : NullOrder)
  | countDistinct
  | trimCharacters
  /-- Membership in a list of literals; a literal that occurs twice is written once. -/
  | membership
  | subscript
  /-- Indexing by the literal that a key of the given type is, and by null if it is none. -/
  | lookup (key : Leaf)
  | field (name : String)
  | withField (name : String)
  /-- Setting the field that the first operand is named after, if it has a name. -/
  | withOwnField
  | migrate (plan : MigrationPlan)
  /-- A struct of the operands under the given names. -/
  | struct (names : List String)
  /-- A struct of the named fields of the receiver. -/
  | copy (names : List String)
  /-- A call that makes two columns of every row. -/
  | generator (function : String)
  /-- A call whose operands may be missing; without any the type has to be said. -/
  | collection (function : String) (type : DataType)
  /-- Conditions and values in turn; a last one alone is the value of all other rows. -/
  | case
  | window (parts : List WindowPart)
  | template (function : String)

namespace Form

/-- The names of the columns of a generator: the position and the element. -/
def positionName : String := "pos"
def elementName : String := "col"

/-- Each name as a literal in front of its expression; extra ones of either are dropped. -/
def namedFields : List String → List Expr → List Expr
  | name :: names, e :: es => .literal (.string name) :: e :: namedFields names es
  | _, _ => []

/-- The expressions without those that are the same as an earlier one. -/
def distinct (seen : List Expr) : List Expr → List Expr
  | [] => []
  | e :: es => if seen.any (·.same e) then distinct seen es else e :: distinct (e :: seen) es

def branches : List Expr → List (Expr × Expr) × Option Expr
  | [] => ([], none)
  | [otherwise] => ([], some otherwise)
  | condition :: value :: rest =>
    let (bs, otherwise) := branches rest
    ((condition, value) :: bs, otherwise)

/-- Partition keys, order keys and the last frame of a window. -/
def windowOf : List WindowPart → List Expr → List Expr × List Expr × Option FrameSpan
  | .partition :: parts, e :: es =>
    let (partition, order, frame) := windowOf parts es
    (e :: partition, order, frame)
  | .order :: parts, e :: es =>
    let (partition, order, frame) := windowOf parts es
    (partition, e :: order, frame)
  | .frame span :: parts, es =>
    let (partition, order, frame) := windowOf parts es
    (partition, order, frame.or (some span))
  | _, _ => ([], [], none)

def keyLiteral (key : Leaf) (e : Expr) : Literal :=
  match e.literal?.bind key.ofLiteral? with
  | some value => key.toLiteral value
  | none => .null

/-- The expression that a form makes of its operands, if their number is right. -/
def build? (force : Bool) (form : Form) (operands : List Expr) (lambdas : List Lambda) :
    Option Expr :=
  match form, operands with
  | receiver, [e] => some e
  | constant expr, _ => some expr
  | call function leading, es => some (.call function (leading.map .literal ++ es))
  | unary op, [e] => some (.unary op e)
  | binary op, [l, r] => some (.binary op l r)
  | exchanged op, [l, r] => some (.binary op r l)
  | different, [l, r] => some (.unary .not (.binary .equalNullSafe l r))
  | quotient, [l, r] => some (.binary .divide (.cast l .double) r)
  | between, [e, low, high] => some (.between e low high)
  | cast type, [e] => some (.cast e type)
  | rename name, [e] => some (e.rename name)
  | sort direction nulls, [e] => some (.sort e direction nulls)
  | countDistinct, [e] => some (.call "count" [.raw ("DISTINCT " ++ e.text force)])
  | trimCharacters, [e, characters] =>
    some (.raw ("trim(BOTH " ++ characters.text force ++ " FROM " ++ e.text force ++ ")"))
  | membership, e :: items => some (.inList e (distinct [] items))
  | subscript, [e, index] => some (.subscript e index)
  | lookup key, [e, k] => some (.subscript e (.literal (keyLiteral key k)))
  | field name, [e] => some (.field e name)
  | withField name, [e, value] => some (.withField e name value)
  | withOwnField, [e, named, value] =>
    match named.outputName? with
    | some name => some (.withField e name value)
    | none => some e
  | migrate plan, [e] => some (plan.apply e)
  | struct names, es => some (.call "named_struct" (namedFields names es))
  | copy names, [e] => some (.call "named_struct" (namedFields names (names.map (.field e))))
  | generator function, [e] => some (.multiAliased (.call function [e]) [positionName, elementName])
  | collection function type, [] => some (.cast (.call function []) type)
  | collection function _, es => some (.call function es)
  | case, es => some (.case (branches es).1 (branches es).2)
  | window parts, e :: es =>
    let (partition, order, frame) := windowOf parts es
    some (.window e partition order frame)
  | template function, es => some (Columnar.template force function es lambdas)
  | _, _ => none

end Form

end Columnar
