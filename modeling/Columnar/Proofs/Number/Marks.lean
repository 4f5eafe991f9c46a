import Columnar.Number.Decimal
import Columnar.Number.Shortest
import Columnar.Proofs.Number.Digits

/-! The characters that the text of a number is made of. -/
namespace Columnar

namespace Number

/-- A digit, a sign, a point or the mark of an exponent. -/
def isMark (c : Char) : Bool :=
  c.isDigit || c == '+' || c == '-' || c == '.' || c == 'e' || c == 'E'

/-- A text of nothing but such characters. -/
def Marks (s : String) : Prop := ∀ c ∈ s.toList, isMark c

instance (s : String) : Decidable (Marks s) :=
  inferInstanceAs (Decidable (∀ c ∈ s.toList, isMark c))

theorem isMark_of_isDigit {c : Char} (h : c.isDigit) : isMark c := by
  simp [isMark, h]

theorem isBlank_of_isMark {c : Char} (h : isMark c) : Text.isBlank c = false := by
  simp only [isMark, Bool.or_eq_true, beq_iff_eq] at h
  rcases h with ((((h | rfl) | rfl) | rfl) | rfl) | rfl
  · exact Text.isBlank_of_isWord (by simp [Text.isWord, Char.isAlphanum, h])
  all_goals decide

theorem Marks.append {s t : String} (h : Marks s) (h' : Marks t) : Marks (s ++ t) := by
  intro c hc
  rw [String.toList_append, List.mem_append] at hc
  exact hc.elim (h c) (h' c)

theorem Marks.not_mem_underscore {s : String} (h : Marks s) : '_' ∉ s.toList := fun hmem =>
  absurd (h '_' hmem) (by decide)

theorem marks_ofList {cs : List Char} (h : ∀ c ∈ cs, isMark c) : Marks (String.ofList cs) := by
  simpa [Marks] using h

theorem isMark_of_mem_digits {n : Nat} {c : Char} (h : c ∈ digits n) : isMark c :=
  isMark_of_isDigit (isDigit_of_mem_digits h)

theorem marks_natural (n : Nat) : Marks (natural n) :=
  marks_ofList fun _ => isMark_of_mem_digits

theorem marks_zeros (n : Nat) : Marks (zeros n) :=
  marks_ofList fun c hc => by rw [List.eq_of_mem_replicate hc]; rfl

theorem marks_signed (i : Int) : Marks (signed i) := by
  cases i with
  | ofNat n => exact marks_natural n
  | negSucc n => exact Marks.append (by decide) (marks_natural (n + 1))

theorem marks_padded (width n : Nat) : Marks (padded width n) := by
  apply marks_ofList
  intro c hc
  rw [List.mem_append] at hc
  rcases hc with hc | hc
  · rw [List.eq_of_mem_replicate hc]
    rfl
  · exact isMark_of_mem_digits hc

theorem signed_ne_empty (i : Int) : (signed i).toList ≠ [] := by
  cases i with
  | ofNat n => simpa [signed] using digits_ne_nil n
  | negSucc n => simp [signed]

theorem marks_pointed {c : Char} {rest : List Char} (h : ∀ d ∈ c :: rest, isMark d) :
    Marks (String.ofList (c :: '.' :: rest)) := by
  apply marks_ofList
  intro d hd
  rw [List.mem_cons, List.mem_cons] at hd
  rcases hd with rfl | rfl | hd
  · exact h d (by simp)
  · rfl
  · exact h d (List.mem_cons_of_mem _ hd)

end Number

open Number

theorem Decimal.marks_magnitudeText (n : Nat) (scale : Int) : Marks (magnitudeText n scale) := by
  have hdigits : ∀ c ∈ digits n, isMark c := fun _ => isMark_of_mem_digits
  unfold magnitudeText
  split
  · decide
  · split
    · split
      · exact (marks_ofList hdigits).append (marks_zeros _)
      · exact ((marks_ofList hdigits).append (by decide)).append (marks_signed _)
    · dsimp only
      split
      · split
        · next c rest _ hds =>
          rw [hds] at hdigits
          exact ((marks_pointed hdigits).append (by decide)).append (marks_natural _)
        · exact ((marks_ofList hdigits).append (by decide)).append (marks_natural _)
      · split
        · exact (Marks.append (by decide) (marks_zeros _)).append (marks_ofList hdigits)
        · refine ((marks_ofList ?_).append (by decide)).append (marks_ofList ?_)
          · exact fun c hc => hdigits c (List.mem_of_mem_take hc)
          · exact fun c hc => hdigits c (List.mem_of_mem_drop hc)

theorem Decimal.marks_text (d : Decimal) : Marks d.text := by
  refine Marks.append ?_ (marks_magnitudeText _ _)
  split <;> decide

theorem Floating.Layout.marks_place (l : Layout) {ds : List Char} (h : ∀ c ∈ ds, isMark c)
    (point : Int) : Marks (l.place ds point) := by
  unfold place
  split
  · split
    · exact (Marks.append (by decide) (marks_zeros _)).append (marks_ofList h)
    · split
      · refine ((marks_ofList ?_).append (by decide)).append (marks_ofList ?_)
        · exact fun c hc => h c (List.mem_of_mem_take hc)
        · exact fun c hc => h c (List.mem_of_mem_drop hc)
      · exact ((marks_ofList h).append (marks_zeros _)).append (by decide)
  · refine Marks.append (Marks.append ?_ (by decide)) (marks_signed _)
    split
    · exact marks_pointed h
    · exact marks_ofList h

theorem Floating.marks_finiteText {w : Width} (x : Floating w) (l : Layout) :
    Marks (x.finiteText l) := by
  refine Marks.append ?_ (l.marks_place (fun _ => isMark_of_mem_digits) _)
  split <;> decide

end Columnar
