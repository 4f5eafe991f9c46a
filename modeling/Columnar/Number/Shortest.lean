import Columnar.Number.Digits
import Columnar.Number.Floating

/-! The shortest decimal that reads back as a given floating-point number, and its layout. The
decimals that round to a number form an interval around it. The coarsest decimal grid with a
point in the interval also has one among the two grid neighbours of the number, so trying the two
neighbours on ever finer grids finds the fewest digits; of two hits the nearer is taken. -/
namespace Columnar.Floating

variable {w : Width}

def isBinadeStart (x : Floating w) : Bool := x.fraction == 0 && 1 < x.exponentField

def gridRatio (x : Nat) (e k : Int) : Nat × Nat :=
  (x * Number.twoTo e.toNat * Number.tenTo (-k).toNat,
    Number.twoTo (-e).toNat * Number.tenTo k.toNat)

/-- Whether `c * 10 ^ k` reads back as the number: it lies between the midpoints to the two
neighbouring numbers, a midpoint counting when the significand is even. -/
def readsBack (x : Floating w) (c : Nat) (k : Int) : Bool :=
  let e := x.scale - 2
  let low := gridRatio (4 * x.significand - (if x.isBinadeStart then 1 else 2)) e k
  let high := gridRatio (4 * x.significand + 2) e k
  if x.significand % 2 = 0 then low.1 ≤ c * low.2 && c * high.2 ≤ high.1
  else low.1 < c * low.2 && c * high.2 < high.1

/-- The grid neighbour of the number on the grid of multiples of `10 ^ k` that reads back, and the
nearer one of two. Halfway between them the upper one is taken, or else the even one. -/
def onGrid? (x : Floating w) (tiesUp : Bool) (k : Int) : Option Nat :=
  let (num, den) := gridRatio x.significand x.scale k
  let below := num / den
  let above := below + 1
  let twice := 2 * (num % den)
  match x.readsBack below k, x.readsBack above k with
  | true, true =>
    if den < twice ∨ (den = twice ∧ (tiesUp ∨ below % 2 = 1)) then some above else some below
  | true, false => some below
  | false, true => some above
  | false, false => none

def pointPosition (x : Floating w) : Int :=
  let (num, den) := gridRatio x.significand x.scale 0
  if den ≤ num then (Number.digits (num / den)).length
  else
    let p : Int := 1 - ((Number.digits (den / num)).length : Int)
    if den ≤ num * Number.tenTo (-p).toNat then p + 1 else p

def exact (x : Floating w) : Nat × Int :=
  (x.significand * Number.twoTo x.scale.toNat * Nat.pow 5 (-x.scale).toNat, min x.scale 0)

/-- Tries grids of one digit, two digits and so on below the given point position. -/
def search (x : Floating w) (tiesUp : Bool) (point : Int) : Nat → Nat → Nat × Int
  | 0, _ => x.exact
  | fuel + 1, tried =>
    let k := point - (tried + 1 : Nat)
    match x.onGrid? tiesUp k with
    | some c => if c = 10 then (1, k + 1) else (c, k)
    | none => search x tiesUp point fuel (tried + 1)

/-- The shortest decimal, as a coefficient and a power of ten. Seventeen digits always suffice. -/
def shortest (x : Floating w) (tiesUp : Bool) : Nat × Int :=
  if x.significand = 0 then (0, 0) else x.search tiesUp x.pointPosition 17 0

/-- How a number is written: which point positions need no exponent, and which of two equally near
decimals is taken. -/
structure Layout where
  least : Int
  greatest : Int
  tiesUp : Bool

/-- A number in an expression: plain notation from `1e-4` up to, not including, `1e16`. -/
def Layout.expression : Layout := ⟨-3, 16, true⟩

/-- A number in a JSON text: plain notation from `1e-5` up to, not including, `1e16`. -/
def Layout.json : Layout := ⟨-4, 16, false⟩

def Layout.place (l : Layout) (ds : List Char) (point : Int) : String :=
  if l.least ≤ point ∧ point ≤ l.greatest then
    if point ≤ 0 then "0." ++ Number.zeros (-point).toNat ++ String.ofList ds
    else if point < ds.length then
      String.ofList (ds.take point.toNat) ++ "." ++ String.ofList (ds.drop point.toNat)
    else String.ofList ds ++ Number.zeros (point - ds.length).toNat ++ ".0"
  else
    let mantissa := match ds with
      | c :: rest@(_ :: _) => String.ofList (c :: '.' :: rest)
      | ds => String.ofList ds
    mantissa ++ "e" ++ Number.signed (point - 1)

def finiteText (x : Floating w) (l : Layout) : String :=
  let (c, k) := x.shortest l.tiesUp
  let ds := Number.digits c
  (if x.isNegative then "-" else "") ++ l.place ds (ds.length + k)

def text (x : Floating w) : String :=
  if x.isNaN then "NaN"
  else if x.isInfinite then (if x.isNegative then "-inf" else "inf")
  else x.finiteText .expression

end Columnar.Floating
