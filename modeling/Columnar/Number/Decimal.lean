import Columnar.Number.Digits
import Columnar.Number.Power

/-! Decimal numbers of any precision: an unscaled whole number and a scale. Texts keep the scale,
equality does not. -/
namespace Columnar

/-- The number `unscaled / 10 ^ scale`. -/
structure Decimal where
  unscaled : Int
  scale : Int
  deriving DecidableEq, Repr

namespace Decimal

/-- Numeric equality: both numbers brought to the larger scale. -/
def same (a b : Decimal) : Bool :=
  a.unscaled * Number.tenTo (b.scale - a.scale).toNat ==
    b.unscaled * Number.tenTo (a.scale - b.scale).toNat

/-- The text of a magnitude. Zero has one form. A scale that is not positive adds zeros, up to
fifteen of them. A fraction is written out unless more than five zeros follow the point. -/
def magnitudeText (n : Nat) (scale : Int) : String :=
  let ds := Number.digits n
  if n = 0 then "0"
  else if scale ≤ 0 then
    if -scale ≤ 15 then String.ofList ds ++ Number.zeros (-scale).toNat
    else String.ofList ds ++ "e+" ++ Number.signed (-scale)
  else
    let places := scale.toNat
    if ds.length + 5 < places then
      let exponent := Number.natural (places + 1 - ds.length)
      match ds with
      | c :: rest@(_ :: _) => String.ofList (c :: '.' :: rest) ++ "E-" ++ exponent
      | ds => String.ofList ds ++ "E-" ++ exponent
    else if ds.length ≤ places then
      "0." ++ Number.zeros (places - ds.length) ++ String.ofList ds
    else
      String.ofList (ds.take (ds.length - places)) ++ "." ++
        String.ofList (ds.drop (ds.length - places))

def text (d : Decimal) : String :=
  (if d.unscaled < 0 then "-" else "") ++ magnitudeText d.unscaled.natAbs d.scale

def splitSign : List Char → Bool × List Char
  | '-' :: cs => (true, cs)
  | '+' :: cs => (false, cs)
  | cs => (false, cs)

def ofText? (s : String) : Option Decimal := do
  let (negative, body) := splitSign s.toList
  let isMark := fun c => c == 'e' || c == 'E'
  let mantissa := body.takeWhile (!isMark ·)
  let exponent ← match body.dropWhile (!isMark ·) with
    | [] => some (0 : Int)
    | _ :: cs =>
      let (below, ds) := splitSign cs
      (Number.ofDigits? ds).map fun n => if below then -(n : Int) else n
  let whole := mantissa.takeWhile (· != '.')
  let places := (mantissa.dropWhile (· != '.')).drop 1
  let n ← Number.ofDigits? (whole ++ places)
  some ⟨if negative then -(n : Int) else n, places.length - exponent⟩

end Decimal

end Columnar
