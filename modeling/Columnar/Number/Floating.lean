import Columnar.Number.Power

/-! Binary floating-point numbers of single and double width, kept as their words. Equality is
numeric: no number equals a NaN, and the two zeros are equal. -/
namespace Columnar

open Number

/-- The two interchange widths. -/
inductive Width
  | single
  | double
  deriving DecidableEq, Repr

namespace Width

def size : Width → Nat
  | single => 32
  | double => 64

def fractionBits : Width → Nat
  | single => 23
  | double => 52

def exponentBits : Width → Nat
  | single => 8
  | double => 11

/-- The exponent field of numbers from 1 up to 2. -/
def bias (w : Width) : Nat := twoTo (w.exponentBits - 1) - 1

/-- The exponent field of infinities and NaNs. -/
def topExponent (w : Width) : Nat := twoTo w.exponentBits - 1

/-- The weight of the last place of the smallest numbers, as a power of two. -/
def leastScale (w : Width) : Int := 1 - w.bias - w.fractionBits

end Width

structure Floating (w : Width) where
  bits : BitVec w.size
  deriving DecidableEq

namespace Floating

variable {w : Width}

def exponentField (x : Floating w) : Nat :=
  x.bits.toNat / twoTo w.fractionBits % twoTo w.exponentBits

def fraction (x : Floating w) : Nat := x.bits.toNat % twoTo w.fractionBits

def isNegative (x : Floating w) : Bool := twoTo (w.size - 1) ≤ x.bits.toNat

def isNaN (x : Floating w) : Bool := x.exponentField == w.topExponent && x.fraction != 0

def isInfinite (x : Floating w) : Bool := x.exponentField == w.topExponent && x.fraction == 0

def isFinite (x : Floating w) : Bool := x.exponentField != w.topExponent

def isZero (x : Floating w) : Bool := x.exponentField == 0 && x.fraction == 0

/-- A finite number is `significand * 2 ^ scale`, up to its sign. -/
def significand (x : Floating w) : Nat :=
  if x.exponentField = 0 then x.fraction else twoTo w.fractionBits + x.fraction

def scale (x : Floating w) : Int := w.leastScale + (max x.exponentField 1 - 1 : Nat)

def same (x y : Floating w) : Bool :=
  !x.isNaN && !y.isNaN && (x.bits == y.bits || (x.isZero && y.isZero))

/-- The number whose word has the given magnitude below its sign bit. -/
def ofMagnitude (w : Width) (negative : Bool) (magnitude : Nat) : Floating w :=
  ⟨.ofNat _ ((if negative then twoTo (w.size - 1) else 0) + magnitude)⟩

def infinity (w : Width) (negative : Bool) : Floating w :=
  ofMagnitude w negative (w.topExponent * twoTo w.fractionBits)

def zero (w : Width) (negative : Bool) : Floating w := ofMagnitude w negative 0

def nan (w : Width) : Floating w :=
  ofMagnitude w false (w.topExponent * twoTo w.fractionBits + twoTo (w.fractionBits - 1))

/-- The quotient rounded to the nearest whole number, a half to the even one. -/
def roundDiv (num den : Nat) : Nat :=
  let q := num / den
  let r := num % den
  if den < 2 * r || (2 * r == den && q % 2 == 1) then q + 1 else q

/-- The largest power of two that is at most `num / den`. -/
def binaryExponent (num den : Nat) : Int :=
  let e : Int := (num.log2 : Int) - den.log2
  if den * twoTo e.toNat ≤ num * twoTo (-e).toNat then e else e - 1

/-- The number nearest to `num / den`, ties to the even significand; too large a quotient gives an
infinity. A significand that rounds up to the next power of two carries into the exponent field. -/
def ofRatio (w : Width) (negative : Bool) (num den : Nat) : Floating w :=
  if num = 0 then zero w negative
  else
    let unit := max (binaryExponent num den - w.fractionBits) w.leastScale
    let m := roundDiv (num * twoTo (-unit).toNat) (den * twoTo unit.toNat)
    let magnitude := m + (unit - w.leastScale).toNat * twoTo w.fractionBits
    ofMagnitude w negative (min magnitude (w.topExponent * twoTo w.fractionBits))

/-- The number nearest to `coefficient * 10 ^ exponent`. Beyond four hundred places of either
sign every such number overflows or vanishes. -/
def ofScientific (w : Width) (negative : Bool) (coefficient : Nat) (exponent : Int) :
    Floating w :=
  if coefficient = 0 ∨ exponent + (coefficient.log2 : Int) < -400 then zero w negative
  else if 400 < exponent then infinity w negative
  else ofRatio w negative (coefficient * tenTo exponent.toNat) (tenTo (-exponent).toNat)

def convert (x : Floating w) (v : Width) : Floating v :=
  if x.isNaN then nan v
  else if x.isInfinite then infinity v x.isNegative
  else ofRatio v x.isNegative (x.significand * twoTo x.scale.toNat) (twoTo (-x.scale).toNat)

end Floating

end Columnar
