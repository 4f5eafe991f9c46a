/-! Powers of the bases in which numbers are written. -/
namespace Columnar.Number

abbrev twoTo (n : Nat) : Nat := Nat.pow 2 n

abbrev tenTo (n : Nat) : Nat := Nat.pow 10 n

end Columnar.Number
