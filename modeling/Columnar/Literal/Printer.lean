import Columnar.Literal.Basic
import Columnar.Number.Shortest
import Columnar.Text.Quoted

/-! The text of a literal. A suffix or a keyword in front tells the kinds of numbers, byte strings,
dates and intervals apart; numbers without digits are written as casts. -/
namespace Columnar.Literal

/-- A hexadecimal digit in upper case. -/
def hexDigit (n : Nat) : Char := if n < 10 then .ofNat (48 + n) else .ofNat (55 + n)

def hexByte (b : UInt8) : List Char := [hexDigit (b.toNat / 16), hexDigit (b.toNat % 16)]

/-- A floating-point number with its suffix; `type` is the type named in a cast. -/
def floatingText {w : Width} (x : Floating w) (suffix type : String) : String :=
  if x.isNaN then "CAST('NaN' AS " ++ type ++ ")"
  else if x.isInfinite then
    "CAST('" ++ (if x.isNegative then "-" else "") ++ "Infinity' AS " ++ type ++ ")"
  else x.text ++ suffix

mutual

def text : Literal → String
  | null => "NULL"
  | boolean b => if b then "true" else "false"
  | byte n => Number.signed n.toInt ++ "Y"
  | short n => Number.signed n.toInt ++ "S"
  | integer n => Number.signed n.toInt
  | long n => Number.signed n.toInt ++ "L"
  | float x => floatingText x "F" "FLOAT"
  | double x => floatingText x "D" "DOUBLE"
  | decimal d => d.text ++ "BD"
  | string s => Text.quoteString s
  | binary bytes => "X'" ++ String.ofList (bytes.flatMap hexByte) ++ "'"
  | date d => "DATE '" ++ d.text ++ "'"
  | timestamp t => "TIMESTAMP '" ++ t.text ++ "'"
  | interval i => i.text
  | array items => "array(" ++ itemsText items ++ ")"

def itemsText : List Literal → String
  | [] => ""
  | [l] => l.text
  | l :: ls => l.text ++ ", " ++ itemsText ls

end

end Columnar.Literal
