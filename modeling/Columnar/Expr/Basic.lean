import Columnar.DataType.Basic
import Columnar.Literal.Basic

/-! Engine expressions: the untyped trees that the engine accepts. -/
namespace Columnar

inductive UnaryOp
  | not
  | negate
  | bitwiseNot
  | isNull
  | isNotNull
  deriving DecidableEq, Repr

inductive BinaryOp
  | equal
  | notEqual
  | equalNullSafe
  | greater
  | greaterEqual
  | less
  | lessEqual
  | and
  | or
  | plus
  | minus
  | multiply
  | divide
  | modulo
  | bitwiseAnd
  | bitwiseOr
  | bitwiseXor
  | like
  | rlike
  deriving DecidableEq, Repr

inductive Direction
  | ascending
  | descending
  deriving DecidableEq, Repr

inductive NullOrder
  | first
  | last
  deriving DecidableEq, Repr

/-- Where nulls go when nothing else is asked for: they count as smaller than every value. -/
def Direction.defaultNulls : Direction → NullOrder
  | ascending => .first
  | descending => .last

inductive FrameUnit
  | rows
  | range
  deriving DecidableEq, Repr

/-- One end of a window frame, relative to the current row. -/
inductive FrameBound
  | unboundedPreceding
  | preceding (offset : UInt64)
  | currentRow
  | following (offset : UInt64)
  | unboundedFollowing
  deriving DecidableEq

/-- The bound at a signed distance: below zero is before the current row and above it after. The
two extreme distances mean no bound. -/
def FrameBound.ofOffset (offset : Int64) : FrameBound :=
  if offset = Int64.minValue then unboundedPreceding
  else if offset = Int64.maxValue then unboundedFollowing
  else if offset = 0 then currentRow
  else if offset < 0 then preceding offset.abs.toUInt64
  else following offset.toUInt64

structure FrameSpan where
  unit : FrameUnit
  start : FrameBound
  stop : FrameBound
  deriving DecidableEq

/-- The span between two signed distances. -/
def FrameSpan.between (unit : FrameUnit) (start stop : Int64) : FrameSpan :=
  ⟨unit, .ofOffset start, .ofOffset stop⟩

inductive Expr
  | column (qualifier : Option String) (name : String)
  | literal (value : Literal)
  | raw (text : String)
  | aliased (operand : Expr) (name : String)
  | multiAliased (operand : Expr) (names : List String)
  | unary (op : UnaryOp) (operand : Expr)
  | binary (op : BinaryOp) (left right : Expr)
  | call (function : String) (args : List Expr)
  | cast (operand : Expr) (type : DataType)
  | case (branches : List (Expr × Expr)) (otherwise : Option Expr)
  | inList (operand : Expr) (items : List Expr)
  | between (operand low high : Expr)
  | subscript (operand index : Expr)
  | field (operand : Expr) (name : String)
  | withField (operand : Expr) (name : String) (value : Expr)
  | dropFields (operand : Expr) (names : List String)
  | sort (operand : Expr) (direction : Direction) (nulls : NullOrder)
  | window (operand : Expr) (partition order : List Expr) (frame : Option FrameSpan)

namespace Expr

/-- The same expression under an output name; a name it already has is replaced. -/
def rename (name : String) : Expr → Expr
  | aliased operand _ => aliased operand name
  | e => aliased e name

/-- The output name that an expression has by itself. -/
def outputName? : Expr → Option String
  | column _ name | aliased _ name | field _ name => some name
  | _ => none

/-- The literal that an expression is, under any number of output names. -/
def literal? : Expr → Option Literal
  | literal value => some value
  | aliased operand _ => operand.literal?
  | _ => none

mutual

/-- Structural equality, with literals compared as literals. -/
def same : Expr → Expr → Bool
  | column q n, column r m => q == r && n == m
  | literal a, literal b => a.same b
  | raw a, raw b => a == b
  | aliased e n, aliased f m => same e f && n == m
  | multiAliased e ns, multiAliased f ms => same e f && ns == ms
  | unary o e, unary p f => o == p && same e f
  | binary o a b, binary p c d => o == p && same a c && same b d
  | call f as, call g bs => f == g && sameList as bs
  | cast e t, cast f u => same e f && t == u
  | case bs e, case cs f => sameBranches bs cs && sameOption e f
  | inList e as, inList f bs => same e f && sameList as bs
  | between a b c, between d e f => same a d && same b e && same c f
  | subscript a i, subscript b j => same a b && same i j
  | field e n, field f m => same e f && n == m
  | withField e n v, withField f m u => same e f && n == m && same v u
  | dropFields e ns, dropFields f ms => same e f && ns == ms
  | sort e d n, sort f c m => same e f && d == c && n == m
  | window e ps os fr, window f qs rs gr =>
    same e f && sameList ps qs && sameList os rs && fr == gr
  | _, _ => false
termination_by structural a => a

def sameList : List Expr → List Expr → Bool
  | [], [] => true
  | a :: as, b :: bs => same a b && sameList as bs
  | _, _ => false
termination_by structural a => a

def sameBranches : List (Expr × Expr) → List (Expr × Expr) → Bool
  | [], [] => true
  | (c, v) :: bs, (d, u) :: cs => same c d && same v u && sameBranches bs cs
  | _, _ => false
termination_by structural a => a

def sameOption : Option Expr → Option Expr → Bool
  | none, none => true
  | some a, some b => same a b
  | _, _ => false
termination_by structural a => a

end

end Expr

end Columnar
