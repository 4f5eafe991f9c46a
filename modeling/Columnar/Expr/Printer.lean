import Columnar.DataType.Printer
import Columnar.Expr.Basic
import Columnar.Literal.Printer

/-! The text of an expression. Rendering is compositional: the text of a node is built from the texts
of its parts. Column references alone are back-quoted on request. -/
namespace Columnar

def BinaryOp.symbol : BinaryOp → String
  | equal => "="
  | notEqual => "!="
  | equalNullSafe => "<=>"
  | greater => ">"
  | greaterEqual => ">="
  | less => "<"
  | lessEqual => "<="
  | and => "AND"
  | or => "OR"
  | plus => "+"
  | minus => "-"
  | multiply => "*"
  | divide => "/"
  | modulo => "%"
  | bitwiseAnd => "&"
  | bitwiseOr => "|"
  | bitwiseXor => "^"
  | like => "LIKE"
  | rlike => "RLIKE"

/-- An operator applied to the text of its operand. -/
def UnaryOp.apply : UnaryOp → String → String
  | not, e => "(NOT " ++ e ++ ")"
  | negate, e => "(- " ++ e ++ ")"
  | bitwiseNot, e => "~" ++ e
  | isNull, e => "(" ++ e ++ " IS NULL)"
  | isNotNull, e => "(" ++ e ++ " IS NOT NULL)"

def Direction.text : Direction → String
  | ascending => "ASC"
  | descending => "DESC"

def NullOrder.text : NullOrder → String
  | first => "NULLS FIRST"
  | last => "NULLS LAST"

def FrameBound.text : FrameBound → String
  | unboundedPreceding => "UNBOUNDED PRECEDING"
  | preceding n => Number.natural n.toNat ++ " PRECEDING"
  | currentRow => "CURRENT ROW"
  | following n => Number.natural n.toNat ++ " FOLLOWING"
  | unboundedFollowing => "UNBOUNDED FOLLOWING"

def FrameUnit.text : FrameUnit → String
  | rows => "ROWS"
  | range => "RANGE"

def FrameSpan.text (s : FrameSpan) : String :=
  s.unit.text ++ " BETWEEN " ++ s.start.text ++ " AND " ++ s.stop.text

def columnText (force : Bool) (qualifier : Option String) (name : String) : String :=
  match qualifier with
  | none => Text.quoteIdentifier name force
  | some q => Text.quoteIdentifier q force ++ "." ++ Text.quoteIdentifier name force

/-- A section of a window: its keyword in front of its list, or nothing for an empty list. -/
def sectionText (keyword list : String) (isAbsent : Bool) : List String :=
  if isAbsent then [] else [keyword ++ list]

namespace Expr

mutual

/-- The text of an expression; `force` back-quotes every column reference. -/
def text (force : Bool) : Expr → String
  | column qualifier name => columnText force qualifier name
  | literal value => value.text
  | raw t => t
  | aliased e name => e.text force ++ " AS " ++ Text.quoteIdentifier name false
  | multiAliased e names =>
    e.text force ++ " AS (" ++ ", ".intercalate (names.map (Text.quoteIdentifier · false)) ++ ")"
  | unary op e => op.apply (e.text force)
  | binary op l r => "(" ++ l.text force ++ " " ++ op.symbol ++ " " ++ r.text force ++ ")"
  | call function args => function ++ "(" ++ listText force args ++ ")"
  | cast e type => "CAST(" ++ e.text force ++ " AS " ++ type.text ++ ")"
  | case branches otherwise =>
    "CASE" ++ branchesText force branches ++ elseText force otherwise ++ " END"
  | inList e items => "(" ++ e.text force ++ " IN (" ++ listText force items ++ "))"
  | between e low high =>
    "(" ++ e.text force ++ " BETWEEN " ++ low.text force ++ " AND " ++ high.text force ++ ")"
  | subscript e index => e.text force ++ "[" ++ index.text force ++ "]"
  | field e name => e.text force ++ "." ++ Text.quoteIdentifier name false
  | withField e name value =>
    "withField(" ++ e.text force ++ ", " ++ Text.quoteString name ++ ", " ++ value.text force ++ ")"
  | dropFields e names =>
    "dropFields(" ++ ", ".intercalate (e.text force :: names.map Text.quoteString) ++ ")"
  | sort e direction nulls => e.text force ++ " " ++ direction.text ++ " " ++ nulls.text
  | window e partition order frame =>
    e.text force ++ " OVER (" ++ " ".intercalate
      (sectionText "PARTITION BY " (listText force partition) partition.isEmpty ++
        sectionText "ORDER BY " (listText force order) order.isEmpty ++
        (frame.map FrameSpan.text).toList) ++ ")"

def listText (force : Bool) : List Expr → String
  | [] => ""
  | [e] => e.text force
  | e :: rest => e.text force ++ ", " ++ listText force rest

def branchesText (force : Bool) : List (Expr × Expr) → String
  | [] => ""
  | (condition, value) :: rest =>
    " WHEN " ++ condition.text force ++ " THEN " ++ value.text force ++ branchesText force rest

def elseText (force : Bool) : Option Expr → String
  | none => ""
  | some e => " ELSE " ++ e.text force

end

end Expr

end Columnar
