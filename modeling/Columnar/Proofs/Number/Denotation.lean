import Mathlib.Algebra.Order.Field.Power
import Mathlib.Algebra.Order.Ring.Rat
import Mathlib.Tactic.FieldSimp
import Mathlib.Tactic.NormNum
import Columnar.Proofs.Number.Numeral
import Columnar.Proofs.Number.Rounding
import Columnar.Proofs.Text.Reading

/-! The number that a numeral denotes. The texts of decimals and of floating-point numbers are read back
as decimals of the same value, whatever form they take. -/
namespace Columnar

open Number

namespace Decimal

def value (d : Decimal) : ℚ := d.unscaled * 10 ^ (-d.scale)

theorem value_mul_tenTo (d : Decimal) (scale : Int) :
    d.value * 10 ^ max d.scale scale = d.unscaled * 10 ^ (scale - d.scale).toNat := by
  rw [value, mul_assoc, ← zpow_add₀ (by norm_num), ← zpow_natCast]
  congr 2
  omega

theorem same_iff_value_eq {a b : Decimal} : a.same b = true ↔ a.value = b.value := by
  have hpos : (10 : ℚ) ^ max a.scale b.scale ≠ 0 := by positivity
  rw [same, beq_iff_eq, ← mul_left_inj' hpos, value_mul_tenTo, max_comm, value_mul_tenTo]
  change a.unscaled * ((10 ^ (b.scale - a.scale).toNat : Nat) : Int) =
    b.unscaled * ((10 ^ (a.scale - b.scale).toNat : Nat) : Int) ↔ _
  rw [← Int.cast_inj (α := ℚ)]
  push_cast
  rfl

end Decimal

/-! Digits. -/

namespace Number

theorem ofDigits_concat_zeros (cs : List Char) (n : Nat) :
    ofDigits (cs ++ List.replicate n '0') = ofDigits cs * 10 ^ n := by
  induction n with
  | zero => simp
  | succ n ih =>
    rw [List.replicate_succ', ← List.append_assoc, ofDigits, List.foldl_append]
    change 10 * ofDigits (cs ++ List.replicate n '0') + 0 = _
    rw [ih, Nat.add_zero, Nat.pow_succ', Nat.mul_left_comm]

theorem ofDigits_zeros_append (cs : List Char) (n : Nat) :
    ofDigits (List.replicate n '0' ++ cs) = ofDigits cs := by
  induction n with
  | zero => rfl
  | succ n ih => exact ih

theorem ofDigits?_eq_some {ds : List Char} (hne : ds ≠ []) (h : ∀ d ∈ ds, d.isDigit) :
    ofDigits? ds = some (ofDigits ds) := by
  have hall : ds.all Char.isDigit = true := List.all_eq_true.mpr h
  simp [ofDigits?, hne, hall]

end Number

/-! The parts of a numeral. -/

/-- Digits, and more of them behind a point. -/
def pointed (whole places : List Char) : List Char :=
  if places = [] then whole else whole ++ '.' :: places

/-- The end of a numeral that says which power of ten it is multiplied by. -/
inductive ExponentText : List Char → Int → Prop
  | absent : ExponentText [] 0
  | unsigned {mark : Char} {ds : List Char} : mark = 'e' ∨ mark = 'E' → ds ≠ [] →
      (∀ d ∈ ds, d.isDigit) → ExponentText (mark :: ds) (ofDigits ds)
  | plus {mark : Char} {ds : List Char} : mark = 'e' ∨ mark = 'E' → ds ≠ [] →
      (∀ d ∈ ds, d.isDigit) → ExponentText (mark :: '+' :: ds) (ofDigits ds)
  | minus {mark : Char} {ds : List Char} : mark = 'e' ∨ mark = 'E' → ds ≠ [] →
      (∀ d ∈ ds, d.isDigit) → ExponentText (mark :: '-' :: ds) (-(ofDigits ds : Int))

/-- The number that a numeral without a sign denotes. -/
inductive Denotes : List Char → ℚ → Prop
  | intro {whole places tail : List Char} {exponent : Int} : whole ≠ [] →
      (∀ c ∈ whole, c.isDigit) → (∀ c ∈ places, c.isDigit) → ExponentText tail exponent →
      Denotes (pointed whole places ++ tail)
        (ofDigits (whole ++ places) * 10 ^ (exponent - places.length))

theorem isDigit_pointed {whole places : List Char} (hwhole : ∀ c ∈ whole, c.isDigit)
    (hplaces : ∀ c ∈ places, c.isDigit) : ∀ c ∈ pointed whole places, c.isDigit ∨ c = '.' := by
  intro c hc
  unfold pointed at hc
  split at hc
  · exact .inl (hwhole c hc)
  · rcases List.mem_append.mp hc with hc | hc
    · exact .inl (hwhole c hc)
    · rcases List.mem_cons.mp hc with rfl | hc
      · exact .inr rfl
      · exact .inl (hplaces c hc)

theorem span_pointed {whole places : List Char} (hwhole : ∀ c ∈ whole, c.isDigit) :
    (pointed whole places).takeWhile (· != '.') = whole ∧
      ((pointed whole places).dropWhile (· != '.')).drop 1 = places := by
  have hdigits : ∀ c ∈ whole, (c != '.') = true := by
    intro c hc
    have hne : c ≠ '.' := by
      rintro rfl
      cases hwhole '.' hc
    simp [hne]
  unfold pointed
  split
  · next hnil =>
    obtain ⟨htake, hdrop⟩ := @span_append _ whole [] hdigits rfl
    rw [List.append_nil] at htake hdrop
    rw [htake, hdrop, hnil]
    exact ⟨rfl, rfl⟩
  · obtain ⟨htake, hdrop⟩ := @span_append _ whole ('.' :: places) hdigits rfl
    rw [htake, hdrop]
    exact ⟨rfl, rfl⟩

namespace Decimal

theorem splitSign_of_isDigit {c : Char} (h : c.isDigit) (cs : List Char) :
    splitSign (c :: cs) = (false, c :: cs) := by
  unfold splitSign
  split
  · next heq =>
    obtain ⟨rfl, -⟩ := List.cons.inj heq
    cases h
  · next heq =>
    obtain ⟨rfl, -⟩ := List.cons.inj heq
    cases h
  · rfl

/-- A numeral is read as its digits and the place of its point, with the sign in front of it. -/
theorem ofText?_of_parts {cs whole places tail : List Char} {exponent : Int} {negative : Bool}
    (hsign : splitSign cs = (negative, pointed whole places ++ tail)) (hne : whole ≠ [])
    (hwhole : ∀ c ∈ whole, c.isDigit) (hplaces : ∀ c ∈ places, c.isDigit)
    (htail : ExponentText tail exponent) :
    ofText? (String.ofList cs) = some
      ⟨if negative then -(ofDigits (whole ++ places) : Int) else ofDigits (whole ++ places),
        places.length - exponent⟩ := by
  have hmark : tail.head?.any (fun c => !(c == 'e' || c == 'E')) = false := by
    cases htail with
    | absent => rfl
    | unsigned h | plus h | minus h => rcases h with rfl | rfl <;> rfl
  have hbody : ∀ c ∈ pointed whole places, (!(c == 'e' || c == 'E')) = true := by
    intro c hc
    rcases isDigit_pointed hwhole hplaces c hc with hdigit | rfl
    · have : c ≠ 'e' ∧ c ≠ 'E' := by
        constructor <;> · rintro rfl; cases hdigit
      simp [this]
    · rfl
  obtain ⟨hmantissa, hrest⟩ := span_append hbody hmark
  have hpoint := @span_pointed whole places hwhole
  have hdigits : ofDigits? (whole ++ places) = some (ofDigits (whole ++ places)) :=
    ofDigits?_eq_some (by simp [hne]) fun c hc =>
      (List.mem_append.mp hc).elim (hwhole c) (hplaces c)
  unfold ofText?
  simp only [String.toList_ofList, hsign, hmantissa, hrest, hpoint.1, hpoint.2, hdigits]
  cases htail with
  | absent => rfl
  | @unsigned _ ds _ hne hds =>
    obtain ⟨d, rest, rfl⟩ := List.exists_cons_of_ne_nil hne
    simp only [splitSign_of_isDigit (hds d (by simp)), ofDigits?_eq_some hne hds]
    rfl
  | plus _ hne hds =>
    simp only [splitSign, ofDigits?_eq_some hne hds]
    rfl
  | minus _ hne hds =>
    simp only [splitSign, ofDigits?_eq_some hne hds]
    rfl

/-- A numeral is read as the number it denotes, with the sign in front of it. -/
theorem ofText?_of_denotes {cs : List Char} {q : ℚ} (h : Denotes cs q) (isNegative : Prop)
    [Decidable isNegative] :
    ∃ d, ofText? ((if isNegative then "-" else "") ++ String.ofList cs) = some d ∧
      d.value = if isNegative then -q else q := by
  obtain @⟨whole, places, tail, exponent, hne, hwhole, hplaces, htail⟩ := h
  have hpower : -((places.length : Int) - exponent) = exponent - places.length := by omega
  split
  · have htext : "-" ++ String.ofList (pointed whole places ++ tail) =
        String.ofList ('-' :: (pointed whole places ++ tail)) := by simp
    have hsign : splitSign ('-' :: (pointed whole places ++ tail)) =
        (true, pointed whole places ++ tail) := rfl
    refine ⟨_, htext ▸ ofText?_of_parts hsign hne hwhole hplaces htail, ?_⟩
    simp [value, hpower]
  · have htext : "" ++ String.ofList (pointed whole places ++ tail) =
        String.ofList (pointed whole places ++ tail) := by simp
    have hsign : splitSign (pointed whole places ++ tail) =
        (false, pointed whole places ++ tail) := by
      obtain ⟨c, rest, rfl⟩ := List.exists_cons_of_ne_nil hne
      have hcons : pointed (c :: rest) places = c :: pointed rest places := by
        unfold pointed
        split <;> rfl
      rw [hcons]
      exact splitSign_of_isDigit (hwhole c (by simp)) _
    refine ⟨_, htext ▸ ofText?_of_parts hsign hne hwhole hplaces htail, ?_⟩
    simp [value, hpower]

end Decimal

theorem Number.toList_zeros (n : Nat) : (zeros n).toList = List.replicate n '0' := by
  simp [zeros]

theorem Number.isDigit_of_mem_replicate {n : Nat} {c : Char} (h : c ∈ List.replicate n '0') :
    c.isDigit := by
  rw [List.eq_of_mem_replicate h]
  rfl

namespace Denotes

variable {ds whole places tail : List Char} {exponent : Int}

theorem of_eq {cs : List Char} {q r : ℚ} (h : Denotes cs q) (heq : q = r) : Denotes cs r :=
  heq ▸ h

theorem plain (hne : ds ≠ []) (hds : ∀ d ∈ ds, d.isDigit) (htail : ExponentText tail exponent) :
    Denotes (ds ++ tail) (ofDigits ds * 10 ^ exponent) := by
  have h := @Denotes.intro ds [] tail exponent hne hds (by simp) htail
  simpa [pointed] using h

/-- Digits with the point behind the first of them, if there are more. -/
theorem leading {c : Char} {rest : List Char} (hds : ∀ d ∈ c :: rest, d.isDigit)
    (htail : ExponentText tail exponent) :
    Denotes (pointed [c] rest ++ tail)
      (ofDigits (c :: rest) * 10 ^ (exponent - rest.length)) :=
  .intro (by simp) (fun d hd => hds d (by simp_all)) (fun d hd => hds d (by simp [hd])) htail

theorem split (hne : whole ≠ []) (hne' : places ≠ []) (hds : ∀ d ∈ whole ++ places, d.isDigit) :
    Denotes (whole ++ '.' :: places)
      (ofDigits (whole ++ places) * 10 ^ (-(places.length : Int))) := by
  have h := Denotes.intro hne (fun d hd => hds d (List.mem_append_left _ hd))
    (fun d hd => hds d (List.mem_append_right _ hd)) .absent
  simpa [pointed, hne'] using h

theorem zerosBehind (hne : ds ≠ []) (hds : ∀ d ∈ ds, d.isDigit) (n : Nat) :
    Denotes (ds ++ (zeros n).toList) (ofDigits ds * 10 ^ n) := by
  have hall : ∀ d ∈ ds ++ List.replicate n '0', d.isDigit := fun d hd =>
    (List.mem_append.mp hd).elim (hds d) isDigit_of_mem_replicate
  have h := plain (by simp [hne]) hall .absent
  rw [List.append_nil, ofDigits_concat_zeros] at h
  rw [toList_zeros]
  exact h.of_eq (by simp)

/-- Zeros behind the digits, and one more behind a point. -/
theorem zerosAndPlace (hne : ds ≠ []) (hds : ∀ d ∈ ds, d.isDigit) (n : Nat) :
    Denotes (ds ++ List.replicate n '0' ++ ['.', '0']) (ofDigits ds * 10 ^ n) := by
  have hall : ∀ d ∈ (ds ++ List.replicate n '0') ++ ['0'], d.isDigit := fun d hd => by
    rw [List.append_assoc, ← List.replicate_succ'] at hd
    exact (List.mem_append.mp hd).elim (hds d) isDigit_of_mem_replicate
  have hnumber : ofDigits ((ds ++ List.replicate n '0') ++ ['0']) = ofDigits ds * 10 ^ (n + 1) := by
    rw [List.append_assoc, ← List.replicate_succ', ofDigits_concat_zeros]
  have h := split (by simp [hne]) (by simp) hall
  rw [hnumber] at h
  refine h.of_eq ?_
  push_cast
  rw [List.length_singleton, Nat.cast_one, zpow_neg_one, pow_succ]
  field_simp

/-- Zeros in front of the digits move their point to the left. -/
theorem zerosInFront (hne : ds ≠ []) (hds : ∀ d ∈ ds, d.isDigit) (n : Nat) :
    Denotes ("0." ++ zeros n ++ String.ofList ds).toList
      (ofDigits ds * 10 ^ (-((n + ds.length : Nat) : Int))) := by
  have hall : ∀ d ∈ ['0'] ++ (List.replicate n '0' ++ ds), d.isDigit := fun d hd => by
    rw [← List.append_assoc] at hd
    exact (List.mem_append.mp hd).elim (isDigit_of_mem_replicate (n := n + 1)) (hds d)
  have h := split (by simp) (by simp [hne]) hall
  have hfront : ofDigits (['0'] ++ (List.replicate n '0' ++ ds)) = ofDigits ds :=
    ofDigits_zeros_append ds (n + 1)
  rw [hfront, List.length_append, List.length_replicate] at h
  simpa [toList_zeros] using h

/-- The point stands behind the first `n` digits. -/
theorem pointBehind {n : Nat} (hpos : 0 < n) (hlt : n < ds.length) (hds : ∀ d ∈ ds, d.isDigit) :
    Denotes (String.ofList (ds.take n) ++ "." ++ String.ofList (ds.drop n)).toList
      (ofDigits ds * 10 ^ ((n : Int) - ds.length)) := by
  have h := @split (ds.take n) (ds.drop n)
    (List.ne_nil_of_length_pos (by rw [List.length_take]; omega))
    (List.ne_nil_of_length_pos (by rw [List.length_drop]; omega))
    (by rwa [List.take_append_drop])
  have hpower : -((ds.drop n).length : Int) = n - ds.length := by
    rw [List.length_drop]
    omega
  rw [List.take_append_drop, hpower] at h
  simpa using h

end Denotes

theorem Decimal.denotes_magnitudeText (n : Nat) (scale : Int) :
    Denotes (magnitudeText n scale).toList (n * 10 ^ (-scale)) := by
  have hdigits : ∀ c ∈ digits n, c.isDigit := fun _ => isDigit_of_mem_digits
  have hnumber : (n : ℚ) = ofDigits (digits n) := by rw [ofDigits_digits]
  unfold magnitudeText
  dsimp only
  split
  · next hzero =>
    have h := @Denotes.plain ['0'] [] 0 (by simp) (by simp [Char.isDigit]) .absent
    exact h.of_eq (by simp [ofDigits, hzero])
  · split
    · split
      · rw [String.toList_append, String.toList_ofList]
        refine (Denotes.zerosBehind (digits_ne_nil n) hdigits _).of_eq ?_
        have hpower : -scale = (-scale).toNat := by omega
        rw [hpower, zpow_natCast, ← hnumber, Int.toNat_natCast]
      · rw [String.toList_append, String.toList_append, String.toList_ofList,
          toList_signed_of_nonneg (by omega), List.append_assoc]
        refine (Denotes.plain (digits_ne_nil n) hdigits (.plus (Or.inl rfl)
          (digits_ne_nil (-scale).toNat) fun _ => isDigit_of_mem_digits)).of_eq ?_
        have hpower : ((-scale).toNat : Int) = -scale := by omega
        rw [ofDigits_digits (-scale).toNat, hpower, ← hnumber]
    · next hscale =>
      obtain ⟨places, rfl⟩ := Int.eq_ofNat_of_zero_le (by omega : 0 ≤ scale)
      rw [Int.toNat_natCast, hnumber]
      split
      · -- an exponent behind one digit, or behind several with a point
        have hleading {c : Char} {rest : List Char} (hds : digits n = c :: rest) :
            Denotes (pointed [c] rest ++ ("E-" ++ natural (places + 1 - (digits n).length)).toList)
              (ofDigits (digits n) * 10 ^ (-(places : Int))) := by
          have h := Denotes.leading (hds ▸ hdigits) (.minus (Or.inr rfl)
            (digits_ne_nil (places + 1 - (digits n).length)) fun _ => isDigit_of_mem_digits)
          have hlength : (digits n).length = rest.length + 1 := by simp [hds]
          have hpower : -((places + 1 - (digits n).length : Nat) : Int) - rest.length =
              -(places : Int) := by omega
          rw [ofDigits_digits (places + 1 - (digits n).length), hpower, ← hds] at h
          simpa using h
        split
        · next c d rest hds => simpa [pointed] using hleading hds
        · next hshort =>
          obtain ⟨c, rest, hds⟩ := List.exists_cons_of_ne_nil (digits_ne_nil n)
          cases rest with
          | nil => simpa [pointed, hds] using hleading hds
          | cons d ds => exact (hshort c d ds hds).elim
      · split
        · refine (Denotes.zerosInFront (digits_ne_nil n) hdigits _).of_eq ?_
          congr 3
          omega
        · refine (Denotes.pointBehind (by omega) (by omega) hdigits).of_eq ?_
          congr 2
          omega

theorem exponentText_signed (i : Int) : ExponentText ('e' :: (signed i).toList) i := by
  have hmark : 'e' = 'e' ∨ 'e' = 'E' := .inl rfl
  by_cases hneg : i < 0
  · have h := ExponentText.minus hmark (digits_ne_nil (-i).toNat) fun _ => isDigit_of_mem_digits
    have hpower : -((-i).toNat : Int) = i := by omega
    rw [toList_signed_of_neg hneg]
    rwa [ofDigits_digits, hpower] at h
  · have h := ExponentText.unsigned hmark (digits_ne_nil i.toNat) fun _ => isDigit_of_mem_digits
    have hpower : (i.toNat : Int) = i := by omega
    rw [toList_signed_of_nonneg (by omega)]
    rwa [ofDigits_digits, hpower] at h

/-- Digits with a point denote what their place says, however they are laid out. -/
theorem Floating.Layout.denotes_place (l : Layout) {ds : List Char} (hne : ds ≠ [])
    (hds : ∀ c ∈ ds, c.isDigit) (point : Int) :
    Denotes (l.place ds point).toList (ofDigits ds * 10 ^ (point - ds.length)) := by
  unfold place
  split
  · split
    · refine (Denotes.zerosInFront hne hds _).of_eq ?_
      congr 2
      omega
    · split
      · refine (Denotes.pointBehind (by omega) (by omega) hds).of_eq ?_
        congr 2
        omega
      · next hlength =>
        obtain ⟨n, hn⟩ := Int.eq_ofNat_of_zero_le (by omega : 0 ≤ point - ds.length)
        have hzeros := Denotes.zerosAndPlace hne hds n
        rw [hn, Int.toNat_natCast, zpow_natCast, String.toList_append, String.toList_append,
          String.toList_ofList, toList_zeros]
        exact hzeros
  · have hleading {c : Char} {rest : List Char} (heq : ds = c :: rest) :
        Denotes (pointed [c] rest ++ ("e" ++ signed (point - 1)).toList)
          (ofDigits ds * 10 ^ (point - ds.length)) := by
      subst heq
      have hpower : point - 1 - rest.length = point - (c :: rest).length := by
        rw [List.length_cons]
        omega
      have h := Denotes.leading hds (exponentText_signed (point - 1))
      rw [hpower] at h
      simpa using h
    split
    · next c d rest => simpa [pointed] using hleading rfl
    · next hshort =>
      obtain ⟨c, rest, rfl⟩ := List.exists_cons_of_ne_nil hne
      cases rest with
      | nil => simpa [pointed] using hleading rfl
      | cons d ds => exact (hshort c d ds rfl).elim

theorem Denotes.unique {cs : List Char} {q r : ℚ} (h : Denotes cs q) (h' : Denotes cs r) :
    q = r := by
  obtain ⟨d, hd, hq⟩ := Decimal.ofText?_of_denotes h False
  obtain ⟨e, he, hr⟩ := Decimal.ofText?_of_denotes h' False
  rw [hd] at he
  obtain rfl := Option.some.inj he
  rw [if_neg not_false] at hq hr
  rw [← hq, hr]

/-- A decimal is read back from its text as the same number. -/
theorem Decimal.ofText?_text (d : Decimal) : ∃ e, ofText? d.text = some e ∧ e.same d = true := by
  obtain ⟨e, he, hvalue⟩ := ofText?_of_denotes (denotes_magnitudeText d.unscaled.natAbs d.scale)
    (d.unscaled < 0)
  rw [String.ofList_toList] at he
  refine ⟨e, he, same_iff_value_eq.mpr ?_⟩
  rw [hvalue, value]
  split
  · next hneg =>
    have habs : (d.unscaled : ℚ) = -(d.unscaled.natAbs : ℚ) := by
      rw [← Int.cast_natCast, ← Int.cast_neg]
      congr 1
      omega
    rw [habs, neg_mul]
  · next hpos =>
    have habs : (d.unscaled : ℚ) = (d.unscaled.natAbs : ℚ) := by
      rw [← Int.cast_natCast]
      congr 1
      omega
    rw [habs]

theorem Decimal.same_of_text_eq {a b : Decimal} (h : a.text = b.text) : a.same b = true := by
  obtain ⟨e, he, hsame⟩ := a.ofText?_text
  obtain ⟨e', he', hsame'⟩ := b.ofText?_text
  rw [h, he'] at he
  obtain rfl := Option.some.inj he
  rw [same_iff_value_eq] at hsame hsame' ⊢
  rw [← hsame, hsame']

namespace Floating

variable {w : Width}

/-- What a finite number is written as, without its sign, rounds to the number. -/
def shortestText (x : Floating w) (l : Layout) : String :=
  l.place (digits (x.shortest l.tiesUp).1)
    ((digits (x.shortest l.tiesUp).1).length + (x.shortest l.tiesUp).2)

theorem finiteText_eq (x : Floating w) (l : Layout) :
    x.finiteText l = (if x.isNegative then "-" else "") ++ x.shortestText l := rfl

theorem denotes_shortestText (x : Floating w) (l : Layout) :
    Denotes (x.shortestText l).toList
      ((x.shortest l.tiesUp).1 * 10 ^ (x.shortest l.tiesUp).2) := by
  have h := l.denotes_place (digits_ne_nil (x.shortest l.tiesUp).1)
    (fun _ => isDigit_of_mem_digits)
    ((digits (x.shortest l.tiesUp).1).length + (x.shortest l.tiesUp).2)
  rw [ofDigits_digits, add_sub_cancel_left] at h
  exact h

theorem splitSign_finiteText (x : Floating w) (l : Layout) :
    Decimal.splitSign (x.finiteText l).toList = (x.isNegative, (x.shortestText l).toList) := by
  rw [finiteText_eq, String.toList_append]
  split
  · next hneg => rw [hneg]; rfl
  · next hpos =>
    obtain ⟨c, rest, hcons, hc⟩ := (l.numeral_place (digits_ne_nil (x.shortest l.tiesUp).1)
      (fun _ => isDigit_of_mem_digits)
      ((digits (x.shortest l.tiesUp).1).length + (x.shortest l.tiesUp).2)).exists_cons
    have htext : (x.shortestText l).toList = c :: rest := hcons
    rw [htext, Bool.eq_false_iff.mpr hpos]
    exact Decimal.splitSign_of_isDigit hc rest

/-- No two floating-point numbers have the same digits, point, exponent and sign. -/
theorem finiteText_inj {x y : Floating w} {l : Layout} (h : x.finiteText l = y.finiteText l) :
    x = y := by
  have hsplit := x.splitSign_finiteText l
  rw [h, splitSign_finiteText] at hsplit
  obtain ⟨hsign, htext⟩ := Prod.mk.inj hsplit
  have hvalue := (htext ▸ y.denotes_shortestText l).unique (x.denotes_shortestText l)
  exact eq_of_magnitude hsign.symm
    ((x.roundsTo_shortest _).magnitude_eq (y.roundsTo_shortest _) hvalue.symm)

end Floating

end Columnar
