/-! Whole numbers in decimal: the digits of a number, and the number that digits denote. -/
namespace Columnar.Number

def digits (n : Nat) : List Char := Nat.toDigits 10 n

def natural (n : Nat) : String := String.ofList (digits n)

/-- A whole number in decimal, with a minus sign when it is negative. -/
def signed (i : Int) : String :=
  match i with
  | .ofNat n => natural n
  | .negSucc n => "-" ++ natural (n + 1)

def ofDigits (cs : List Char) : Nat :=
  cs.foldl (fun n c => 10 * n + (c.toNat - '0'.toNat)) 0

/-- Reads decimal digits alone: at least one, and nothing else. -/
def ofDigits? (cs : List Char) : Option Nat :=
  if cs.isEmpty || !cs.all Char.isDigit then none else some (ofDigits cs)

def padded (width n : Nat) : String :=
  String.ofList (List.replicate (width - (digits n).length) '0' ++ digits n)

def zeros (n : Nat) : String := String.ofList (List.replicate n '0')

end Columnar.Number
