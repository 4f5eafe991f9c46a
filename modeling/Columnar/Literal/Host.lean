import Columnar.DataType.Basic
import Columnar.Json.Basic
import Columnar.Literal.Basic
import Columnar.Number.Digits

/-! Host values of the types that have literals: leaves, instants, which are literals as timestamps, and
arrays of such types to any depth. A host value becomes a literal and is recovered from it; a literal
of another shape gives nothing. Host values are read from JSON at the type that their place asks
for. -/
namespace Columnar

inductive Leaf
  | boolean
  | byte
  | short
  | integer
  | long
  | float
  | double
  | decimal
  | string
  | binary
  | date
  | timestamp
  | interval
  deriving DecidableEq, Repr

namespace Leaf

def dataType : Leaf → DataType
  | boolean => .boolean
  | byte => .byte
  | short => .short
  | integer => .integer
  | long => .long
  | float => .float
  | double => .double
  | decimal => .hostDecimal
  | string => .string
  | binary => .binary
  | date => .date
  | timestamp => .timestamp
  | interval => .interval

def isIntegral : Leaf → Bool
  | byte | short | integer | long => true
  | _ => false

def isFloating : Leaf → Bool
  | float | double => true
  | _ => false

def isNumeric (l : Leaf) : Bool := l.isIntegral || l.isFloating || l == decimal

/-- A point in time, as opposed to a length of time. -/
def isMoment : Leaf → Bool
  | date | timestamp => true
  | _ => false

def isTemporal (l : Leaf) : Bool := l.isMoment || l == interval

def Value : Leaf → Type
  | boolean => Bool
  | byte => Int8
  | short => Int16
  | integer => Int32
  | long => Int64
  | float => Floating .single
  | double => Floating .double
  | decimal => Decimal
  | string => String
  | binary => List UInt8
  | date => Date
  | timestamp => Timestamp
  | interval => Interval

def toLiteral : (l : Leaf) → l.Value → Literal
  | boolean, v => .boolean v
  | byte, v => .byte v
  | short, v => .short v
  | integer, v => .integer v
  | long, v => .long v
  | float, v => .float v
  | double, v => .double v
  | decimal, v => .decimal v
  | string, v => .string v
  | binary, v => .binary v
  | date, v => .date v
  | timestamp, v => .timestamp v
  | interval, v => .interval v

def ofLiteral? : (l : Leaf) → Literal → Option l.Value
  | boolean, .boolean v => some v
  | byte, .byte v => some v
  | short, .short v => some v
  | integer, .integer v => some v
  | long, .long v => some v
  | float, .float v => some v
  | double, .double v => some v
  | decimal, .decimal v => some v
  | string, .string v => some v
  | binary, .binary v => some v
  | date, .date v => some v
  | timestamp, .timestamp v => some v
  | interval, .interval v => some v
  | _, _ => none

end Leaf

inductive LiteralType
  | leaf (leaf : Leaf)
  | instant
  | array (element : LiteralType)
  deriving DecidableEq, Repr

namespace LiteralType

def Value : LiteralType → Type
  | leaf l => l.Value
  | instant => Instant
  | array element => List element.Value

def toLiteral : (t : LiteralType) → t.Value → Literal
  | leaf l, v => l.toLiteral v
  | instant, v => .timestamp v.atZeroMeridian
  | array element, vs => .array (List.map element.toLiteral vs)

/-- The host value that a literal stands for, if it has the shape of the type at every depth. -/
def ofLiteral? : (t : LiteralType) → Literal → Option t.Value
  | leaf l, v => l.ofLiteral? v
  | instant, .timestamp v => some ⟨v⟩
  | array element, .array items => items.mapM element.ofLiteral?
  | _, _ => none

end LiteralType

namespace Json

/-- A whole number within bounds. -/
def intWithin? (low high : Int) (j : Json) : Option Int :=
  match j with
  | int i => if low ≤ i ∧ i ≤ high then some i else none
  | _ => none

/-- A number, or the name of one that has no numeral. -/
def double? : Json → Option (Floating .double)
  | int i => some (.ofScientific .double (i < 0) i.natAbs 0)
  | float x => some x
  | text "NaN" => some (.nan .double)
  | text "Infinity" => some (.infinity .double false)
  | text "-Infinity" => some (.infinity .double true)
  | text "-0.0" => some (.zero .double true)
  | _ => none

/-- The value of a hexadecimal digit of either case. -/
def nibble? (c : Char) : Option Nat :=
  if c.isDigit then some (c.toNat - 48)
  else if 'a' ≤ c ∧ c ≤ 'f' then some (c.toNat - 87)
  else if 'A' ≤ c ∧ c ≤ 'F' then some (c.toNat - 55)
  else none

def bytes? : List Char → Option (List UInt8)
  | [] => some []
  | [_] => none
  | a :: b :: rest => do
    let high ← nibble? a
    let low ← nibble? b
    let bytes ← bytes? rest
    some (.ofNat (16 * high + low) :: bytes)

def date? : Json → Option Date
  | list [int y, int m, int d] => some ⟨y, m.toNat, d.toNat⟩
  | _ => none

/-- A moment, written in the time of no zone or of the zero meridian. -/
def timestamp? : Json → Option Timestamp
  | list [int y, int m, int d, int h, int mi, int s, int n] =>
    some ⟨⟨y, m.toNat, d.toNat⟩, h.toNat, mi.toNat, s.toNat, n.toNat⟩
  | object [("utc", list [int y, int m, int d, int h, int mi, int s, int n])] =>
    some ⟨⟨y, m.toNat, d.toNat⟩, h.toNat, mi.toNat, s.toNat, n.toNat⟩
  | _ => none

def interval? : Json → Option Interval
  | list [int m, int d, int u] => some ⟨.ofInt m, .ofInt d, .ofInt u⟩
  | _ => none

end Json

def Leaf.read? : (l : Leaf) → Json → Option l.Value
  | boolean, j => j.bool?
  | byte, j => (j.intWithin? Int8.minValue.toInt Int8.maxValue.toInt).map Int8.ofInt
  | short, j => (j.intWithin? Int16.minValue.toInt Int16.maxValue.toInt).map Int16.ofInt
  | integer, j => (j.intWithin? Int32.minValue.toInt Int32.maxValue.toInt).map Int32.ofInt
  | long, j => (j.intWithin? Int64.minValue.toInt Int64.maxValue.toInt).map Int64.ofInt
  | float, j => j.double?.map (·.convert .single)
  | double, j => j.double?
  | decimal, j => j.text?.bind Decimal.ofText?
  | string, j => j.text?
  | binary, j => j.text?.bind fun s => Json.bytes? s.toList
  | date, j => j.date?
  | timestamp, j => j.timestamp?
  | interval, j => j.interval?

def LiteralType.read? : (t : LiteralType) → Json → Option t.Value
  | leaf l, j => l.read? j
  | instant, j => j.timestamp?.map Instant.mk
  | array element, .list items => items.mapM element.read?
  | array _, _ => none

end Columnar
