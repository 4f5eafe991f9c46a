import Columnar.Text.Blank
import Columnar.Text.Case
import Columnar.Text.Quoted

/-! Word characters: what they are, and that neither lowering nor quoting confuses them with
others. -/
namespace Columnar.Text

/-- What holds of the characters of a list is decided by going through the list, not through all
the characters there are. -/
instance decidableForallMem (cs : List Char) (p : Char → Prop) [DecidablePred p] :
    Decidable (∀ c ∈ cs, p c) :=
  List.decidableBAll p cs

theorem isWord_iff {c : Char} : isWord c = true ↔
    (65 ≤ c.toNat ∧ c.toNat ≤ 90) ∨ (97 ≤ c.toNat ∧ c.toNat ≤ 122) ∨
      (48 ≤ c.toNat ∧ c.toNat ≤ 57) ∨ c.toNat = 95 := by
  have h : c = '_' ↔ c.toNat = 95 := by
    rw [← Char.toNat_inj]
    rfl
  unfold isWord Char.isAlphanum Char.isAlpha Char.isUpper Char.isLower Char.isDigit
  simp only [Bool.or_eq_true, beq_iff_eq, decide_eq_true_eq, Bool.and_eq_true, h, ge_iff_le,
    UInt32.le_iff_toNat_le]
  change ((((65 ≤ c.toNat ∧ c.toNat ≤ 90) ∨ (97 ≤ c.toNat ∧ c.toNat ≤ 122)) ∨
    (48 ≤ c.toNat ∧ c.toNat ≤ 57)) ∨ c.toNat = 95) ↔ _
  omega

theorem toNat_toLower (c : Char) :
    c.toLower.toNat = if 65 ≤ c.toNat ∧ c.toNat ≤ 90 then c.toNat + 32 else c.toNat := by
  unfold Char.toLower
  simp only [ge_iff_le, UInt32.le_iff_toNat_le]
  split
  · next h =>
    change 65 ≤ c.toNat ∧ c.toNat ≤ 90 at h
    rw [if_pos h]
    change (c.val + 32).toNat = c.val.toNat + 32
    change 65 ≤ c.val.toNat ∧ c.val.toNat ≤ 90 at h
    rw [UInt32.toNat_add]
    change (c.val.toNat + 32) % 4294967296 = _
    omega
  · next h =>
    change ¬ (65 ≤ c.toNat ∧ c.toNat ≤ 90) at h
    rw [if_neg h]

theorem toLower_eq_backtick_iff {c : Char} : c.toLower = '\x60' ↔ c = '\x60' := by
  rw [← Char.toNat_inj, ← Char.toNat_inj, toNat_toLower]
  change (if 65 ≤ c.toNat ∧ c.toNat ≤ 90 then c.toNat + 32 else c.toNat) = 96 ↔ c.toNat = 96
  split <;> omega

@[simp] theorem isWord_toLower (c : Char) : isWord c.toLower = isWord c := by
  rw [Bool.eq_iff_iff, isWord_iff, isWord_iff, toNat_toLower]
  split <;> omega

theorem isWordStart_iff {c : Char} : isWordStart c = true ↔
    (65 ≤ c.toNat ∧ c.toNat ≤ 90) ∨ (97 ≤ c.toNat ∧ c.toNat ≤ 122) ∨ c.toNat = 95 := by
  have h : c = '_' ↔ c.toNat = 95 := by
    rw [← Char.toNat_inj]
    rfl
  unfold isWordStart Char.isAlpha Char.isUpper Char.isLower
  simp only [Bool.or_eq_true, beq_iff_eq, decide_eq_true_eq, Bool.and_eq_true, h, ge_iff_le,
    UInt32.le_iff_toNat_le]
  change (((65 ≤ c.toNat ∧ c.toNat ≤ 90) ∨ (97 ≤ c.toNat ∧ c.toNat ≤ 122)) ∨ c.toNat = 95) ↔ _
  omega

@[simp] theorem isWordStart_toLower (c : Char) : isWordStart c.toLower = isWordStart c := by
  rw [Bool.eq_iff_iff, isWordStart_iff, isWordStart_iff, toNat_toLower]
  split <;> omega

theorem isPlain_lower (s : String) : isPlain (lower s).toList = isPlain s.toList := by
  cases hs : s.toList with
  | nil => simp [lower, hs]
  | cons c cs => simp [lower, hs, isPlain, List.all_map, Function.comp_def]

theorem isBlank_of_isWord {c : Char} (h : isWord c = true) : isBlank c = false := by
  rw [isWord_iff] at h
  simp only [isBlank, Bool.or_eq_false_iff, Bool.and_eq_false_iff, decide_eq_false_iff_not,
    beq_eq_false_iff_ne]
  omega

theorem isWord_of_isWordStart {c : Char} (h : isWordStart c) : isWord c := by
  simp only [isWordStart, Bool.or_eq_true] at h
  rcases h with h | h <;> simp [isWord, Char.isAlphanum, h]

theorem isWord_of_isDigit {c : Char} (h : c.isDigit) : isWord c := by
  simp [isWord, Char.isAlphanum, h]

theorem isWordStart_of_isDigit {c : Char} (h : c.isDigit) : isWordStart c = false := by
  simp only [Char.isDigit, Bool.and_eq_true, decide_eq_true_eq, ge_iff_le,
    UInt32.le_iff_toNat_le] at h
  change 48 ≤ c.toNat ∧ c.toNat ≤ 57 at h
  rw [Bool.eq_false_iff, ne_eq, isWordStart_iff]
  omega

theorem ne_nil_of_isPlain {cs : List Char} (h : isPlain cs) : cs ≠ [] := by
  rintro rfl
  cases h

theorem isWord_of_isPlain {cs : List Char} (h : isPlain cs) : ∀ c ∈ cs, isWord c := by
  cases cs with
  | nil => simp
  | cons c cs =>
    simp only [isPlain, Bool.and_eq_true, List.all_eq_true] at h
    simpa [isWord_of_isWordStart h.1] using h.2

/-- Word characters may follow a plain identifier. -/
theorem not_mem_of_isPlain {cs : List Char} (h : isPlain cs) {c : Char} (hc : isWord c = false) :
    c ∉ cs := by
  intro hmem
  rw [isWord_of_isPlain h c hmem] at hc
  cases hc

theorem isPlain_append {cs ds : List Char} (h : isPlain cs) (hword : ∀ d ∈ ds, isWord d) :
    isPlain (cs ++ ds) := by
  cases cs with
  | nil => cases h
  | cons c cs =>
    simp only [isPlain, Bool.and_eq_true, List.all_eq_true, List.cons_append] at h ⊢
    refine ⟨h.1, fun d hd => ?_⟩
    rcases List.mem_append.mp hd with hd | hd
    · exact h.2 d hd
    · exact hword d hd

end Columnar.Text
