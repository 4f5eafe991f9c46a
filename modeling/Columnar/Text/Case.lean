/-! Names are compared ignoring the case of ASCII letters, and of no others. -/
namespace Columnar.Text

/-- The text with its ASCII capitals lowered: the key under which names are compared. -/
def lower (s : String) : String := String.ofList (s.toList.map Char.toLower)

/-- Two names are the same name when they differ in the case of ASCII letters only. -/
def sameName (a b : String) : Bool := lower a == lower b

theorem sameName_iff {a b : String} : sameName a b = true ↔ lower a = lower b := by
  simp [sameName]

@[simp] theorem sameName_self (a : String) : sameName a a = true := by simp [sameName]

theorem sameName_comm (a b : String) : sameName a b = sameName b a := by
  simp only [sameName, Bool.beq_comm]

end Columnar.Text
