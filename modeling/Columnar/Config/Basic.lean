import Columnar.Number.Digits
import Columnar.Text.Quoted

/-! The settings under which expressions are rendered and lambda parameters are named. Only settings
that break no rule are ever active. -/
namespace Columnar

structure Config where
  /-- What the names of lambda parameters start with. -/
  lambdaPrefix : String := "x"
  /-- How many hexadecimal digits follow it. -/
  lambdaSuffixLength : Nat := 8
  /-- Whether column references are always back-quoted. -/
  quoteIdentifiers : Bool := false
  deriving DecidableEq, Repr

namespace Config

inductive Setting
  | lambdaPrefix
  | lambdaSuffixLength
  deriving DecidableEq, Repr

inductive Violation
  | prefixLength
  | prefixNotIdentifier
  | suffixLength
  deriving DecidableEq, Repr

def Violation.setting : Violation → Setting
  | prefixLength | prefixNotIdentifier => .lambdaPrefix
  | suffixLength => .lambdaSuffixLength

/-- The explanation of a violation, for those that have one. -/
def Violation.message? : Violation → Option String
  | prefixLength => some "Lambda prefix must be 1-16 characters"
  | prefixNotIdentifier => none
  | suffixLength => some "Lambda suffix length must be between 4 and 32"

/-- A rule with whether the settings keep it. -/
def rules (c : Config) : List (Violation × Bool) :=
  [(.prefixLength, 1 ≤ c.lambdaPrefix.length && c.lambdaPrefix.length ≤ 16),
   (.prefixNotIdentifier, Text.isPlain c.lambdaPrefix.toList),
   (.suffixLength, 4 ≤ c.lambdaSuffixLength && c.lambdaSuffixLength ≤ 32)]

def violations (c : Config) : List Violation :=
  (c.rules.filter fun rule => !rule.2).map Prod.fst

def isValid (c : Config) : Bool := c.violations.isEmpty

/-- Makes settings the active ones if they break no rule; otherwise the active ones stay. -/
def install (candidate active : Config) : Except (List Violation) Unit × Config :=
  match candidate.violations with
  | [] => (.ok (), candidate)
  | broken => (.error broken, active)

end Config

end Columnar
