import Columnar.Number.Decimal
import Columnar.Number.Shortest
import Columnar.Proofs.Number.Digits

/-! The texts of numbers are numerals: digits, behind which a fraction, an exponent and letters may
stand. A numeral starts with a digit and ends inside a word. -/
namespace Columnar

/-- The text of a number without a sign. -/
inductive Numeral : List Char → Prop
  | digits {cs : List Char} : cs ≠ [] → (∀ c ∈ cs, c.isDigit) → Numeral cs
  | fraction {cs ds : List Char} : Numeral cs → ds ≠ [] → (∀ d ∈ ds, d.isDigit) →
      Numeral (cs ++ '.' :: ds)
  | exponent {cs ds : List Char} {mark sign : Char} : Numeral cs → mark = 'e' ∨ mark = 'E' →
      sign = '+' ∨ sign = '-' → ds ≠ [] → (∀ d ∈ ds, d.isDigit) →
      Numeral (cs ++ mark :: sign :: ds)
  | letters {cs ds : List Char} : Numeral cs → (∀ d ∈ ds, Text.isWord d) → Numeral (cs ++ ds)

/-- The text of a number, with a minus sign when it is negative. -/
inductive SignedNumeral : List Char → Prop
  | positive {cs : List Char} : Numeral cs → SignedNumeral cs
  | negative {cs : List Char} : Numeral cs → SignedNumeral ('-' :: cs)

namespace Numeral

theorem exists_cons {cs : List Char} (h : Numeral cs) : ∃ c rest, cs = c :: rest ∧ c.isDigit := by
  induction h with
  | digits hne hdigits =>
    obtain ⟨c, rest, rfl⟩ := List.exists_cons_of_ne_nil hne
    exact ⟨c, rest, rfl, hdigits c (by simp)⟩
  | fraction _ _ _ ih =>
    obtain ⟨c, rest, rfl, hc⟩ := ih
    exact ⟨c, _, rfl, hc⟩
  | exponent _ _ _ _ _ ih =>
    obtain ⟨c, rest, rfl, hc⟩ := ih
    exact ⟨c, _, rfl, hc⟩
  | letters _ _ ih =>
    obtain ⟨c, rest, rfl, hc⟩ := ih
    exact ⟨c, _, rfl, hc⟩

theorem forall_mem {cs : List Char} (h : Numeral cs) :
    ∀ c ∈ cs, Text.isWord c ∨ c = '.' ∨ c = '+' ∨ c = '-' := by
  induction h with
  | digits _ hdigits => exact fun c hc => .inl (Text.isWord_of_isDigit (hdigits c hc))
  | fraction _ _ hdigits ih =>
    intro c hc
    rcases List.mem_append.mp hc with hc | hc
    · exact ih c hc
    · rcases List.mem_cons.mp hc with rfl | hc
      · exact .inr (.inl rfl)
      · exact .inl (Text.isWord_of_isDigit (hdigits c hc))
  | exponent _ hmark hsign _ hdigits ih =>
    intro c hc
    rcases List.mem_append.mp hc with hc | hc
    · exact ih c hc
    · rcases List.mem_cons.mp hc with rfl | hc
      · exact .inl (by rcases hmark with rfl | rfl <;> decide)
      · rcases List.mem_cons.mp hc with rfl | hc
        · exact .inr (.inr hsign)
        · exact .inl (Text.isWord_of_isDigit (hdigits c hc))
  | letters _ hletters ih =>
    intro c hc
    rcases List.mem_append.mp hc with hc | hc
    · exact ih c hc
    · exact .inl (hletters c hc)

/-- The numeral with its sign, if it has one. -/
theorem withSign {cs : List Char} (h : Numeral cs) (isNegative : Prop) [Decidable isNegative] :
    SignedNumeral ((if isNegative then "-" else "").toList ++ cs) := by
  split
  · exact .negative h
  · exact .positive h

end Numeral

theorem SignedNumeral.forall_mem {cs : List Char} (h : SignedNumeral cs) :
    ∀ c ∈ cs, Text.isWord c ∨ c = '.' ∨ c = '+' ∨ c = '-' := by
  cases h with
  | positive h => exact h.forall_mem
  | negative h => simpa using h.forall_mem

theorem SignedNumeral.exists_cons {cs : List Char} (h : SignedNumeral cs) :
    ∃ c rest, cs = c :: rest ∧ (c = '-' ∨ c.isDigit) := by
  cases h with
  | positive h =>
    obtain ⟨c, rest, rfl, hc⟩ := h.exists_cons
    exact ⟨c, rest, rfl, .inr hc⟩
  | negative h => exact ⟨'-', _, rfl, .inl rfl⟩

theorem SignedNumeral.letters {cs ds : List Char} (h : SignedNumeral cs)
    (hds : ∀ d ∈ ds, Text.isWord d) : SignedNumeral (cs ++ ds) := by
  cases h with
  | positive h => exact .positive (h.letters hds)
  | negative h => exact .negative (h.letters hds)

namespace Number

theorem numeral_digits (n : Nat) : Numeral (digits n) :=
  .digits (digits_ne_nil n) fun _ => isDigit_of_mem_digits

theorem isDigit_of_mem_zeros {n : Nat} {c : Char} (h : c ∈ (zeros n).toList) : c.isDigit := by
  rw [zeros, String.toList_ofList] at h
  rw [List.eq_of_mem_replicate h]
  rfl

theorem toList_signed_of_nonneg {i : Int} (h : 0 ≤ i) :
    (signed i).toList = digits i.toNat := by
  obtain ⟨n, rfl⟩ := Int.eq_ofNat_of_zero_le h
  exact toList_natural n

theorem toList_signed_of_neg {i : Int} (h : i < 0) :
    (signed i).toList = '-' :: digits (-i).toNat := by
  obtain ⟨n, rfl⟩ := Int.eq_negSucc_of_lt_zero h
  simp [signed, Int.neg_negSucc]

theorem signedNumeral_signed (i : Int) : SignedNumeral (signed i).toList := by
  by_cases h : i < 0
  · rw [toList_signed_of_neg h]
    exact .negative (numeral_digits _)
  · rw [toList_signed_of_nonneg (by omega)]
    exact .positive (numeral_digits _)

/-- Digits with a point behind the first of them, unless there is only one. -/
theorem numeral_pointed {c : Char} {rest : List Char} (h : ∀ d ∈ c :: rest, d.isDigit)
    (hne : rest ≠ []) : Numeral (c :: '.' :: rest) := by
  have hc : Numeral [c] := .digits (by simp) fun d hd => h d (by simp_all)
  exact hc.fraction hne fun d hd => h d (by simp [hd])

end Number

open Number

theorem Decimal.numeral_magnitudeText (n : Nat) (scale : Int) :
    Numeral (magnitudeText n scale).toList := by
  have hdigits : ∀ c ∈ digits n, c.isDigit := fun _ => isDigit_of_mem_digits
  have hzero : Numeral ['0'] := .digits (by simp) (by simp [Char.isDigit])
  unfold magnitudeText
  dsimp only
  split
  · exact hzero
  · split
    · split
      · rw [String.toList_append, String.toList_ofList]
        refine .digits (by simp [digits_ne_nil]) fun c hc => ?_
        exact (List.mem_append.mp hc).elim (hdigits c) isDigit_of_mem_zeros
      · next hscale hlarge =>
        rw [String.toList_append, String.toList_append, String.toList_ofList,
          toList_signed_of_nonneg (by omega), List.append_assoc]
        exact (numeral_digits n).exponent (Or.inl rfl) (Or.inl rfl) (digits_ne_nil _)
          fun _ => isDigit_of_mem_digits
    · split
      · -- an exponent behind one digit, or behind several with a point
        split
        · next c d rest hds =>
          rw [hds] at hdigits
          rw [String.toList_append, String.toList_append, String.toList_ofList, toList_natural,
            List.append_assoc]
          exact (numeral_pointed hdigits (by simp)).exponent (Or.inr rfl) (Or.inr rfl)
            (digits_ne_nil _) fun _ => isDigit_of_mem_digits
        · rw [String.toList_append, String.toList_append, String.toList_ofList, toList_natural,
            List.append_assoc]
          exact (numeral_digits n).exponent (Or.inr rfl) (Or.inr rfl) (digits_ne_nil _)
            fun _ => isDigit_of_mem_digits
      · next hplaces =>
        split
        · simp only [String.toList_append, String.toList_ofList, List.append_assoc]
          change Numeral (['0'] ++ '.' :: ((zeros _).toList ++ digits n))
          refine hzero.fraction (by simp [digits_ne_nil]) fun c hc => ?_
          exact (List.mem_append.mp hc).elim isDigit_of_mem_zeros (hdigits c)
        · next hlength =>
          simp only [String.toList_append, String.toList_ofList, List.append_assoc]
          change Numeral (_ ++ '.' :: List.drop _ (digits n))
          refine Numeral.fraction (.digits ?_ fun c hc => hdigits c (List.mem_of_mem_take hc)) ?_
            fun c hc => hdigits c (List.mem_of_mem_drop hc)
          · exact List.ne_nil_of_length_pos (by rw [List.length_take]; omega)
          · exact List.ne_nil_of_length_pos (by rw [List.length_drop]; omega)

theorem Decimal.signedNumeral_text (d : Decimal) : SignedNumeral d.text.toList := by
  rw [text, String.toList_append]
  exact (numeral_magnitudeText _ _).withSign _

theorem Floating.Layout.numeral_place (l : Layout) {ds : List Char} (hne : ds ≠ [])
    (h : ∀ c ∈ ds, c.isDigit) (point : Int) : Numeral (l.place ds point).toList := by
  have hzero : Numeral ['0'] := .digits (by simp) (by simp [Char.isDigit])
  unfold place
  split
  · split
    · simp only [String.toList_append, String.toList_ofList, List.append_assoc]
      change Numeral (['0'] ++ '.' :: ((zeros _).toList ++ ds))
      refine hzero.fraction (by simp [hne]) fun c hc => ?_
      exact (List.mem_append.mp hc).elim isDigit_of_mem_zeros (h c)
    · next hpoint =>
      split
      · next hlength =>
        simp only [String.toList_append, String.toList_ofList, List.append_assoc]
        change Numeral (_ ++ '.' :: ds.drop _)
        refine Numeral.fraction (.digits ?_ fun c hc => h c (List.mem_of_mem_take hc)) ?_
          fun c hc => h c (List.mem_of_mem_drop hc)
        · exact List.ne_nil_of_length_pos (by rw [List.length_take]; omega)
        · exact List.ne_nil_of_length_pos (by rw [List.length_drop]; omega)
      · rw [String.toList_append, String.toList_append, String.toList_ofList]
        change Numeral (_ ++ '.' :: ['0'])
        refine Numeral.fraction (.digits (by simp [hne]) fun c hc => ?_) (by simp)
          (by simp [Char.isDigit])
        exact (List.mem_append.mp hc).elim (h c) isDigit_of_mem_zeros
  · -- an exponent, with a sign when it is negative
    have hexponent {cs : List Char} (hcs : Numeral cs) :
        Numeral (cs ++ ("e".toList ++ (signed (point - 1)).toList)) := by
      by_cases hneg : point - 1 < 0
      · rw [toList_signed_of_neg hneg]
        exact hcs.exponent (Or.inl rfl) (Or.inr rfl) (digits_ne_nil _)
          fun _ => isDigit_of_mem_digits
      · rw [toList_signed_of_nonneg (by omega)]
        refine hcs.letters fun c hc => ?_
        rcases List.mem_append.mp hc with hc | hc
        · obtain rfl : c = 'e' := by simpa using hc
          decide
        · exact isWord_of_mem_digits hc
    rw [String.toList_append, String.toList_append, List.append_assoc]
    split
    · rw [String.toList_ofList]
      exact hexponent (numeral_pointed h (by simp))
    · rw [String.toList_ofList]
      exact hexponent (.digits hne h)

theorem Floating.signedNumeral_finiteText {w : Width} (x : Floating w) (l : Layout) :
    SignedNumeral (x.finiteText l).toList := by
  rw [finiteText]
  dsimp only
  rw [String.toList_append]
  exact (l.numeral_place (digits_ne_nil _) (fun _ => isDigit_of_mem_digits) _).withSign _

end Columnar
