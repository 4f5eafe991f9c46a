import Columnar.Config.Basic
import Columnar.Expr.Printer

/-! Lambdas of higher-order functions. The engine takes them as text only, so a template renders its
operands and lambdas at once. The parameters of a lambda have names of their own: a common stem, an
underscore and the first digits of a hexadecimal number from a supply. -/
namespace Columnar

/-- How the names of parameters are made. -/
structure LambdaScope where
  stem : String
  suffixLength : Nat
  deriving DecidableEq, Repr

namespace LambdaScope

def ofConfig (c : Config) : LambdaScope := ⟨c.lambdaPrefix, c.lambdaSuffixLength⟩

def name (s : LambdaScope) (digits : String) : String :=
  s.stem ++ "_" ++ String.ofList (digits.toList.take s.suffixLength)

end LambdaScope

structure Lambda where
  params : List String
  body : Expr

def Lambda.text (l : Lambda) (force : Bool) : String :=
  "(" ++ ", ".intercalate l.params ++ ") -> " ++ l.body.text force

/-- A higher-order function applied to operands and then lambdas, as engine text. -/
def template (force : Bool) (function : String) (operands : List Expr) (lambdas : List Lambda) :
    Expr :=
  .raw (function ++ "(" ++
    ", ".intercalate (operands.map (Expr.text force) ++ lambdas.map (Lambda.text · force)) ++ ")")

/-- Where the supply of hexadecimal digits starts: far from the small numbers that names written by
hand contain. -/
def firstDigits : Nat := 0x9e3779b97f4a7c15f39cc0605cedc834

/-- Thirty-two hexadecimal digits, the lowest first, of the number `n` places after the start. Since the
lowest digit comes first, even short beginnings differ for numbers that are close together. -/
def countingDigits (n : Nat) : String :=
  let ds := (Nat.toDigits 16 (firstDigits + n)).reverse
  String.ofList ((ds ++ List.replicate 32 '0').take 32)

end Columnar
