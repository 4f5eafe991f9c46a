import Columnar.Column.Minted
import Columnar.Proofs.Text.Word

/-! The names that a scope makes, under settings that break no rule: the stem is a plain identifier,
what follows it are word characters, and so the whole name is one. -/
namespace Columnar

/-- A text of thirty-two hexadecimal digits. -/
def IsDigits (digits : String) : Prop :=
  digits.toList.length = 32 ∧ ∀ c ∈ digits.toList, isLowerHex c

theorem isWord_of_isLowerHex {c : Char} (h : isLowerHex c) : Text.isWord c ∧ c ≠ '_' := by
  simp only [isLowerHex, Bool.or_eq_true, Bool.and_eq_true, decide_eq_true_eq] at h
  have hrange : (48 ≤ c.toNat ∧ c.toNat ≤ 57) ∨ (97 ≤ c.toNat ∧ c.toNat ≤ 102) := by
    rcases h with h | h
    · simp only [Char.isDigit, ge_iff_le, Bool.and_eq_true, decide_eq_true_eq,
        UInt32.le_iff_toNat_le] at h
      exact Or.inl h
    · exact Or.inr h
  constructor
  · rw [Text.isWord_iff]
    omega
  · rintro rfl
    revert hrange
    decide

/-- Settings that break no rule. -/
structure Config.IsSound (c : Config) : Prop where
  stem_length : 1 ≤ c.lambdaPrefix.length ∧ c.lambdaPrefix.length ≤ 16
  stem_plain : Text.isPlain c.lambdaPrefix.toList
  suffix_length : 4 ≤ c.lambdaSuffixLength ∧ c.lambdaSuffixLength ≤ 32

theorem Config.isValid_iff {c : Config} : c.isValid ↔ c.IsSound := by
  have hrules : c.isValid ↔ ∀ rule ∈ c.rules, rule.2 = true := by
    simp [isValid, violations]
  rw [hrules]
  simp only [rules, List.forall_mem_cons, List.not_mem_nil, false_implies, implies_true, and_true,
    Bool.and_eq_true, decide_eq_true_eq]
  exact ⟨fun ⟨hlength, hplain, hsuffix⟩ => ⟨hlength, hplain, hsuffix⟩,
    fun h => ⟨h.stem_length, h.stem_plain, h.suffix_length⟩⟩

namespace LambdaScope

/-- A name of a scope: the stem, an underscore, and as many hexadecimal digits as the scope says. -/
structure IsName (s : LambdaScope) (word : List Char) : Prop where
  eq : ∃ digits, word = s.stem.toList ++ '_' :: digits ∧ digits.length = min s.suffixLength 32 ∧
    ∀ c ∈ digits, isLowerHex c

variable {s : LambdaScope}

theorem isName_name {digits : String} (h : IsDigits digits) : s.IsName (s.name digits).toList := by
  obtain ⟨hlength, hhex⟩ := h
  refine ⟨digits.toList.take s.suffixLength, by simp [name], ?_, ?_⟩
  · rw [List.length_take, hlength]
  · exact fun c hc => hhex c (List.mem_of_mem_take hc)

theorem IsName.isPlain {word : List Char} (h : s.IsName word)
    (hstem : Text.isPlain s.stem.toList) : Text.isPlain word := by
  obtain ⟨digits, rfl, -, hhex⟩ := h.eq
  refine Text.isPlain_append hstem fun c hc => ?_
  rcases List.mem_cons.mp hc with rfl | hc
  · rfl
  · exact (isWord_of_isLowerHex (hhex c hc)).1

end LambdaScope

end Columnar
