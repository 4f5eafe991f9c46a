import Mathlib.Data.List.TakeWhile
import Columnar.Text.Blank

/-! Skipping blanks twice is skipping them once, and a text without blanks at its ends is kept. -/
namespace Columnar.Text

theorem skipBlanks_eq_self {cs : List Char} (h : cs.head?.any isBlank = false) :
    skipBlanks cs = cs := by
  cases cs with
  | nil => rfl
  | cons c cs =>
    have hc : isBlank c = false := h
    simp [skipBlanks, hc]

theorem skipBlanks_skipBlanks (cs : List Char) : skipBlanks (skipBlanks cs) = skipBlanks cs := by
  apply skipBlanks_eq_self
  cases h : skipBlanks cs with
  | nil => rfl
  | cons c rest => exact head_skipBlanks h

theorem skipBlanks_eq_nil_iff {cs : List Char} : skipBlanks cs = [] ↔ ∀ c ∈ cs, isBlank c := by
  rw [skipBlanks, List.dropWhile_eq_nil_iff]

theorem trim_eq_self {cs : List Char} (hhead : cs.head?.any isBlank = false)
    (hlast : cs.getLast?.any isBlank = false) : trim cs = cs := by
  rw [trim, skipBlanks_eq_self hhead, trimEnd, skipBlanks_eq_self (by simpa using hlast),
    List.reverse_reverse]

/-- Only blanks are taken from the end of a text. -/
theorem exists_trimEnd_append (cs : List Char) :
    ∃ blanks, cs = trimEnd cs ++ blanks ∧ ∀ c ∈ blanks, isBlank c := by
  refine ⟨(cs.reverse.takeWhile isBlank).reverse, ?_, fun c hc => ?_⟩
  · rw [trimEnd, skipBlanks, ← List.reverse_append, List.takeWhile_append_dropWhile,
      List.reverse_reverse]
  · exact List.all_eq_true.mp List.all_takeWhile c (List.mem_reverse.mp hc)

/-- A character of its own is kept with all that follows it. -/
theorem skipBlanks_append_cons {c : Char} (hc : isBlank c = false) (front rest : List Char) :
    skipBlanks (front ++ c :: rest) = skipBlanks front ++ c :: rest := by
  induction front with
  | nil => simp [skipBlanks, hc]
  | cons d front ih =>
    simp only [skipBlanks, List.cons_append, List.dropWhile_cons] at ih ⊢
    split
    · exact ih
    · rfl

theorem trimEnd_append_cons {c : Char} (hc : isBlank c = false) (front rest : List Char) :
    trimEnd (front ++ c :: rest) = front ++ c :: trimEnd rest := by
  simp [trimEnd, skipBlanks_append_cons hc]

theorem mem_trim {c : Char} (hc : isBlank c = false) {cs : List Char} (h : c ∈ cs) :
    c ∈ trim cs := by
  obtain ⟨front, rest, rfl⟩ := List.append_of_mem h
  rw [trim, skipBlanks_append_cons hc, trimEnd_append_cons hc]
  simp

/-- What stands between two characters of their own is kept. -/
theorem subset_trim {c d : Char} (hc : isBlank c = false) (hd : isBlank d = false)
    (front mid rest : List Char) : mid ⊆ trim (front ++ c :: (mid ++ d :: rest)) := by
  have hcut : skipBlanks front ++ c :: (mid ++ d :: rest) =
      (skipBlanks front ++ c :: mid) ++ d :: rest := by simp
  rw [trim, skipBlanks_append_cons hc, hcut, trimEnd_append_cons hd]
  intro e he
  simp [he]

end Columnar.Text
