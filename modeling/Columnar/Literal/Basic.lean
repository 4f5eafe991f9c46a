import Columnar.Calendar
import Columnar.Number.Decimal
import Columnar.Number.Floating

/-! Literal values of the expression language. -/
namespace Columnar

inductive Literal
  | null
  | boolean (value : Bool)
  | byte (value : Int8)
  | short (value : Int16)
  | integer (value : Int32)
  | long (value : Int64)
  | float (value : Floating .single)
  | double (value : Floating .double)
  | decimal (value : Decimal)
  | string (value : String)
  | binary (bytes : List UInt8)
  | date (value : Date)
  | timestamp (value : Timestamp)
  | interval (value : Interval)
  | array (items : List Literal)

namespace Literal

mutual

/-- Equality of literals: numbers are compared by value, so a NaN differs from itself, the two zeros
are equal and the scale of a decimal does not matter. Different kinds are never equal. -/
def same : Literal → Literal → Bool
  | null, null => true
  | boolean a, boolean b => a == b
  | byte a, byte b => a == b
  | short a, short b => a == b
  | integer a, integer b => a == b
  | long a, long b => a == b
  | float a, float b => a.same b
  | double a, double b => a.same b
  | decimal a, decimal b => a.same b
  | string a, string b => a == b
  | binary a, binary b => a == b
  | date a, date b => a == b
  | timestamp a, timestamp b => a == b
  | interval a, interval b => a == b
  | array as, array bs => sameItems as bs
  | _, _ => false

def sameItems : List Literal → List Literal → Bool
  | [], [] => true
  | a :: as, b :: bs => same a b && sameItems as bs
  | _, _ => false

end

end Literal

end Columnar
