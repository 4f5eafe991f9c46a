import Columnar.Column.Lambda
import Columnar.Text.Quoted

/-! Minted names in texts, and their numbering in order of first appearance. Two texts that differ in
the choice of minted names alone are the same after numbering. -/
namespace Columnar

def isWordAt (c : Option Char) : Bool := c.any Text.isWord

def isLowerHex (c : Char) : Bool := c.isDigit || ('a' ≤ c && c ≤ 'f')

namespace LambdaScope

def nameLength (s : LambdaScope) : Nat := s.stem.length + 1 + min s.suffixLength 32

/-- Whether a name of the scope stands in front of a text, with the edge of a word at either end. -/
def matchesAt (s : LambdaScope) (previous : Option Char) (cs : List Char) : Bool :=
  let name := cs.take s.nameLength
  let digits := name.drop (s.stem.length + 1)
  (s.stem.toList ++ ['_']).isPrefixOf cs && digits.length == min s.suffixLength 32 &&
    digits.all isLowerHex && isWordAt previous != isWordAt name.head? &&
    isWordAt name.getLast? != isWordAt (cs.drop s.nameLength).head?

end LambdaScope

def numberOf (name : String) (seen : List String) : Nat × List String :=
  match seen.idxOf? name with
  | some i => (i + 1, seen)
  | none => (seen.length + 1, seen ++ [name])

/-- Numbers the minted names in a text. `skip` characters belong to a name that is written already;
`previous` is the character in front. -/
def numberNames (scopes : List LambdaScope) (seen : List String) (previous : Option Char) :
    Nat → List Char → List Char × List String
  | _, [] => ([], seen)
  | skip + 1, c :: cs => numberNames scopes seen (some c) skip cs
  | 0, c :: cs =>
    match scopes.find? (·.matchesAt previous (c :: cs)) with
    | some s =>
      let (n, seen) := numberOf (String.ofList ((c :: cs).take s.nameLength)) seen
      let (rest, seen) := numberNames scopes seen (some c) (s.nameLength - 1) cs
      (s.stem.toList ++ '_' :: '#' :: Number.digits n ++ rest, seen)
    | none =>
      let (rest, seen) := numberNames scopes seen (some c) 0 cs
      (c :: rest, seen)

end Columnar
