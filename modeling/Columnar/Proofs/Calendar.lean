import Mathlib.Data.Nat.Digits.Defs
import Columnar.Calendar
import Columnar.Proofs.Number.Denotation

/-! Dates, times and intervals are told by their texts. A number ends where its digits do, so each part
of such a text is read off before the next. A leap second counts on beyond its second, and only on a
clock, where that second is the last of a minute, do different times have different texts. -/
namespace Columnar

open Number

namespace Number

theorem padded_isDigit {width n : Nat} : ∀ c ∈ (padded width n).toList, c.isDigit := by
  intro c hc
  rw [padded, String.toList_ofList] at hc
  exact (List.mem_append.mp hc).elim isDigit_of_mem_replicate isDigit_of_mem_digits

theorem ofDigits_padded (width n : Nat) : ofDigits (padded width n).toList = n := by
  rw [padded, String.toList_ofList, ofDigits_zeros_append, ofDigits_digits]

theorem padded_ne_nil (width n : Nat) : (padded width n).toList ≠ [] := by
  simp [padded, digits_ne_nil]

theorem length_padded {width n : Nat} (hpos : 0 < width) (h : n < 10 ^ width) :
    (padded width n).toList.length = width := by
  have hlength : (digits n).length ≤ width := Nat.toDigits_length 10 n width hpos h
  rw [padded, String.toList_ofList, List.length_append, List.length_replicate]
  omega

/-- A padded number is read off the front of a text that goes on with something else. -/
theorem padded_append_inj {width m n : Nat} {rest rest' : List Char}
    (hrest : rest.head?.any Char.isDigit = false) (hrest' : rest'.head?.any Char.isDigit = false)
    (h : (padded width m).toList ++ rest = (padded width n).toList ++ rest') :
    m = n ∧ rest = rest' := by
  obtain ⟨hrun, htail⟩ := span_inj padded_isDigit padded_isDigit hrest hrest' h
  refine ⟨?_, htail⟩
  rw [← ofDigits_padded width m, hrun, ofDigits_padded]

theorem digits_append_inj {m n : Nat} {rest rest' : List Char}
    (hrest : rest.head?.any Char.isDigit = false) (hrest' : rest'.head?.any Char.isDigit = false)
    (h : digits m ++ rest = digits n ++ rest') : m = n ∧ rest = rest' := by
  obtain ⟨hrun, htail⟩ := span_inj (p := Char.isDigit) (fun _ => isDigit_of_mem_digits)
    (fun _ => isDigit_of_mem_digits) hrest hrest' h
  refine ⟨?_, htail⟩
  rw [← ofDigits_digits m, hrun, ofDigits_digits]

/-- Digits are not a sign. -/
theorem splitSign_of_digits {ds : List Char} (hne : ds ≠ []) (hds : ∀ d ∈ ds, d.isDigit)
    (rest : List Char) : Decimal.splitSign (ds ++ rest) = (false, ds ++ rest) := by
  obtain ⟨d, ds, rfl⟩ := List.exists_cons_of_ne_nil hne
  exact Decimal.splitSign_of_isDigit (hds d (by simp)) _

theorem splitSign_signed (i : Int) (rest : List Char) :
    Decimal.splitSign ((signed i).toList ++ rest) =
      (decide (i < 0), digits i.natAbs ++ rest) := by
  by_cases h : i < 0
  · have habs : (-i).toNat = i.natAbs := by omega
    rw [toList_signed_of_neg h, habs, decide_eq_true h]
    rfl
  · have habs : i.toNat = i.natAbs := by omega
    rw [toList_signed_of_nonneg (by omega), habs, decide_eq_false h]
    exact splitSign_of_digits (digits_ne_nil _) (fun _ => isDigit_of_mem_digits) rest

/-- A number is its sign and its magnitude. -/
theorem eq_of_sign {i j : Int} (hsign : decide (i < 0) = decide (j < 0))
    (habs : i.natAbs = j.natAbs) : i = j := by
  rw [decide_eq_decide] at hsign
  omega

theorem signed_append_inj {i j : Int} {rest rest' : List Char}
    (hrest : rest.head?.any Char.isDigit = false) (hrest' : rest'.head?.any Char.isDigit = false)
    (h : (signed i).toList ++ rest = (signed j).toList ++ rest') : i = j ∧ rest = rest' := by
  have hsplit := splitSign_signed i rest
  rw [h, splitSign_signed] at hsplit
  obtain ⟨hsign, hdigits⟩ := Prod.mk.inj hsplit
  obtain ⟨habs, htail⟩ := digits_append_inj hrest' hrest hdigits
  exact ⟨(eq_of_sign hsign habs).symm, htail.symm⟩

end Number

namespace Date

theorem splitSign_yearText (year : Int) (rest : List Char) :
    Decimal.splitSign ((yearText year).toList ++ rest) =
      (decide (year < 0), (padded 4 year.natAbs).toList ++ rest) := by
  unfold yearText
  dsimp only
  split
  · next h =>
    rw [decide_eq_true h, String.toList_append]
    rfl
  · next h =>
    rw [decide_eq_false h]
    split
    · rw [String.toList_append]
      rfl
    · exact splitSign_of_digits (padded_ne_nil _ _) padded_isDigit rest

/-- A date is read off the front of a text that does not go on with a digit. -/
theorem text_append_inj {a b : Date} {rest rest' : List Char}
    (hrest : rest.head?.any Char.isDigit = false) (hrest' : rest'.head?.any Char.isDigit = false)
    (h : a.text.toList ++ rest = b.text.toList ++ rest') : a = b ∧ rest = rest' := by
  simp only [text, String.toList_append, List.append_assoc] at h
  have hsplit := splitSign_yearText a.year ("-".toList ++ ((padded 2 a.month).toList ++
    ("-".toList ++ ((padded 2 a.day).toList ++ rest))))
  rw [h, splitSign_yearText] at hsplit
  obtain ⟨hsign, hdigits⟩ := Prod.mk.inj hsplit
  obtain ⟨habs, hmonths⟩ := padded_append_inj rfl rfl hdigits
  obtain ⟨hmonth, hdays⟩ := padded_append_inj rfl rfl (List.append_cancel_left hmonths)
  obtain ⟨hday, htail⟩ := padded_append_inj hrest' hrest (List.append_cancel_left hdays)
  refine ⟨?_, htail.symm⟩
  cases a
  cases b
  rw [mk.injEq]
  exact ⟨(eq_of_sign hsign habs).symm, hmonth.symm, hday.symm⟩

theorem text_inj {a b : Date} (h : a.text = b.text) : a = b :=
  (@text_append_inj _ _ [] [] rfl rfl (by rw [h])).1

end Date

namespace Timestamp

/-- A time that a clock shows: the nanoseconds of the last second of a minute may count on through a
leap second. -/
structure OnClock (t : Timestamp) : Prop where
  second_lt : t.second < 60
  nanosecond_lt : t.nanosecond < 1000000000 ∨ t.second = 59 ∧ t.nanosecond < 2000000000

/-- The nanoseconds that the digits behind the point say: nine digits, with zeros for those left out. -/
def fractionOf (cs : List Char) : Nat := ofDigits (cs.drop 1) * 10 ^ (9 - (cs.drop 1).length)

theorem fractionOf_padded {width n : Nat} (hpos : 0 < width) (h : n < 10 ^ width) :
    fractionOf ("." ++ padded width n).toList = n * 10 ^ (9 - width) := by
  have hdrop : ("." ++ padded width n).toList.drop 1 = (padded width n).toList := by simp
  rw [fractionOf, hdrop, ofDigits_padded, length_padded hpos h]

theorem fractionOf_fractionText {n : Nat} (h : n < 1000000000) :
    fractionOf (fractionText n).toList = n := by
  unfold fractionText
  split
  · next hzero => exact hzero.symm
  · split
    · rw [fractionOf_padded (by decide) (by omega)]
      omega
    · split
      · rw [fractionOf_padded (by decide) (by omega)]
        omega
      · rw [fractionOf_padded (by decide) (by omega)]
        omega

theorem head_fractionText (n : Nat) : (fractionText n).toList.head?.any Char.isDigit = false := by
  unfold fractionText
  split
  · rfl
  · split
    · simp [Char.isDigit]
    · split <;> simp [Char.isDigit]

/-- Times with one text differ at most in how a second is told from the nanoseconds. -/
theorem parts_eq_of_text_eq {t u : Timestamp} (h : t.text = u.text) :
    t.date = u.date ∧ t.hour = u.hour ∧ t.minute = u.minute ∧
      t.second + t.nanosecond / 1000000000 = u.second + u.nanosecond / 1000000000 ∧
      t.nanosecond % 1000000000 = u.nanosecond % 1000000000 := by
  have hlist := congrArg String.toList h
  simp only [text, String.toList_append, List.append_assoc] at hlist
  obtain ⟨hdate, hhours⟩ := Date.text_append_inj rfl rfl hlist
  obtain ⟨hhour, hminutes⟩ := padded_append_inj rfl rfl (List.append_cancel_left hhours)
  obtain ⟨hminute, hseconds⟩ := padded_append_inj rfl rfl (List.append_cancel_left hminutes)
  obtain ⟨hsecond, hfraction⟩ := padded_append_inj (head_fractionText _) (head_fractionText _)
    (List.append_cancel_left hseconds)
  refine ⟨hdate, hhour, hminute, hsecond, ?_⟩
  have hpos : 0 < 1000000000 := by decide
  rw [← fractionOf_fractionText (Nat.mod_lt t.nanosecond hpos), hfraction,
    fractionOf_fractionText (Nat.mod_lt _ hpos)]

theorem OnClock.text_inj {t u : Timestamp} (ht : t.OnClock) (hu : u.OnClock)
    (h : t.text = u.text) : t = u := by
  obtain ⟨hdate, hhour, hminute, hsecond, hnanosecond⟩ := parts_eq_of_text_eq h
  have hseconds := ht.second_lt
  have hseconds' := hu.second_lt
  have hleap := ht.nanosecond_lt
  have hleap' := hu.nanosecond_lt
  have hsecond : t.second = u.second := by omega
  have hnanosecond : t.nanosecond = u.nanosecond := by omega
  cases t
  cases u
  rw [mk.injEq]
  exact ⟨hdate, hhour, hminute, hsecond, hnanosecond⟩

end Timestamp

theorem Interval.text_inj {i j : Interval} (h : i.text = j.text) : i = j := by
  have hlist := congrArg String.toList h
  simp only [text, String.toList_append, List.append_assoc] at hlist
  obtain ⟨hmonths, hlist⟩ := signed_append_inj rfl rfl (List.append_cancel_left hlist)
  obtain ⟨hdays, hlist⟩ := signed_append_inj rfl rfl (List.append_cancel_left hlist)
  obtain ⟨hmicroseconds, -⟩ := signed_append_inj rfl rfl (List.append_cancel_left hlist)
  cases i
  cases j
  rw [mk.injEq]
  exact ⟨Int32.toInt_inj.mp hmonths, Int32.toInt_inj.mp hdays, Int64.toInt_inj.mp hmicroseconds⟩

end Columnar
