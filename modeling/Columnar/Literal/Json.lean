import Columnar.Json.Printer
import Columnar.Literal.Host
import Columnar.Number.Shortest

/-! Literals as JSON: the name of the type, and the value. Numbers with a fraction are written as
texts, so that no digit is lost. -/
namespace Columnar

def Leaf.ofName? : String → Option Leaf
  | "boolean" => some boolean
  | "tinyint" => some byte
  | "smallint" => some short
  | "int" => some integer
  | "bigint" => some long
  | "float" => some float
  | "double" => some double
  | "decimal" => some decimal
  | "string" => some string
  | "binary" => some binary
  | "date" => some date
  | "timestamp" => some timestamp
  | "interval" => some interval
  | _ => none

namespace Date

/-- The year, the month and the day. -/
def numbers (d : Date) : List Json := [.int d.year, .int d.month, .int d.day]

end Date

namespace Literal

/-- A byte as two hexadecimal digits in lower case. -/
def lowerHex (b : UInt8) : List Char :=
  [Json.hexDigit (b.toNat / 16), Json.hexDigit (b.toNat % 16)]

def typeName : Literal → String
  | null => "null"
  | boolean _ => "boolean"
  | byte _ => "tinyint"
  | short _ => "smallint"
  | integer _ => "int"
  | long _ => "bigint"
  | float _ => "float"
  | double _ => "double"
  | decimal _ => "decimal"
  | string _ => "string"
  | binary _ => "binary"
  | date _ => "date"
  | timestamp _ => "timestamp"
  | interval _ => "interval"
  | array _ => "array"

mutual

def toJson (l : Literal) : Json :=
  let tagged (value : Json) : Json := .list [.text l.typeName, value]
  match l with
  | null => .list [.text "null"]
  | boolean b => tagged (.bool b)
  | byte n => tagged (.int n.toInt)
  | short n => tagged (.int n.toInt)
  | integer n => tagged (.int n.toInt)
  | long n => tagged (.int n.toInt)
  | float x => tagged (.text x.text)
  | double x => tagged (.text x.text)
  | decimal d => tagged (.text d.text)
  | string s => tagged (.text s)
  | binary bytes => tagged (.text (String.ofList (bytes.flatMap lowerHex)))
  | date d => tagged (.list d.numbers)
  | timestamp t => tagged (.list (t.date.numbers ++
      [.int t.hour, .int t.minute, .int t.second, .int t.nanosecond]))
  | interval i => tagged (.list
      [.int i.months.toInt, .int i.days.toInt, .int i.microseconds.toInt])
  | array items => tagged (.list (itemsToJson items))

def itemsToJson : List Literal → List Json
  | [] => []
  | l :: ls => toJson l :: itemsToJson ls

end

mutual

/-- Reads a literal. An instant is a literal as a timestamp. -/
def ofJson? : Json → Option Literal
  | .list [.text "null"] => some .null
  | .list [.text "array", .list items] => (itemsOfJson? items).map .array
  | .list [.text "utc", j] => (LiteralType.instant.read? j).map LiteralType.instant.toLiteral
  | .list [.text name, j] =>
    match Leaf.ofName? name with
    | some leaf => (leaf.read? j).map leaf.toLiteral
    | none => none
  | _ => none

def itemsOfJson? : List Json → Option (List Literal)
  | [] => some []
  | j :: js => do
    let l ← ofJson? j
    let ls ← itemsOfJson? js
    some (l :: ls)

end

end Literal

end Columnar
