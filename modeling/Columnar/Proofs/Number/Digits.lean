import Columnar.Number.Digits
import Columnar.Proofs.Text.Word

/-! The digits of a number are digits, there is one at least, and they denote the number. -/
namespace Columnar.Number

theorem isDigit_of_mem_digits {n : Nat} {d : Char} (h : d ∈ digits n) : d.isDigit :=
  Nat.isDigit_of_mem_toDigits (by decide) (by decide) h

theorem digits_ne_nil (n : Nat) : digits n ≠ [] := Nat.toDigits_ne_nil

theorem ofDigits_digits (n : Nat) : ofDigits (digits n) = n :=
  Nat.ofDigitChars_ten_toDigits

theorem isWord_of_mem_digits {n : Nat} {d : Char} (h : d ∈ digits n) : Text.isWord d :=
  Text.isWord_of_isDigit (isDigit_of_mem_digits h)

@[simp] theorem toList_natural (n : Nat) : (natural n).toList = digits n := by
  simp [natural]

end Columnar.Number
