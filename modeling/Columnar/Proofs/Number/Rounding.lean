import Mathlib.Algebra.Order.Field.Power
import Mathlib.Algebra.Order.Ring.Rat
import Mathlib.Order.Monotone.Basic
import Mathlib.Tactic.FieldSimp
import Mathlib.Tactic.Linarith
import Mathlib.Tactic.NormNum
import Mathlib.Tactic.Positivity
import Columnar.Number.Shortest

/-! The numbers that round to a floating-point number. They lie between the midpoints to the two
neighbouring ones, and the intervals of two different magnitudes have no number in common: of two
neighbours only one has an even significand and owns the midpoint. The shortest decimal of a
floating-point number lies in its interval. -/
namespace Columnar.Floating

open Number

variable {w : Width}

/-- The word below the sign bit. -/
def magnitude (x : Floating w) : Nat := twoTo w.fractionBits * x.exponentField + x.fraction

theorem fraction_lt (x : Floating w) : x.fraction < twoTo w.fractionBits :=
  Nat.mod_lt _ (Nat.two_pow_pos _)

/-- A word is its sign bit and its magnitude. -/
theorem toNat_bits (x : Floating w) :
    x.bits.toNat = (if x.isNegative then twoTo (w.size - 1) else 0) + x.magnitude := by
  have hbits := x.bits.isLt
  unfold isNegative magnitude exponentField fraction
  cases w <;> simp only [Width.size, Width.fractionBits, Width.exponentBits] at hbits ⊢ <;>
    norm_num at hbits ⊢ <;> split <;> omega

theorem eq_of_magnitude {x y : Floating w} (hsign : x.isNegative = y.isNegative)
    (h : x.magnitude = y.magnitude) : x = y := by
  have hbits : x.bits.toNat = y.bits.toNat := by rw [toNat_bits, toNat_bits, hsign, h]
  exact congrArg Floating.mk (BitVec.eq_of_toNat_eq hbits)

/-! The ends of the interval of a magnitude, counted in quarters of the last place of the smallest
numbers. -/

/-- The exponent of the last place, above that of the smallest numbers. -/
def shift (fractionBits magnitude : Nat) : Nat := max (magnitude / twoTo fractionBits) 1 - 1

/-- The significand of the number with this magnitude. -/
def digitsOf (fractionBits magnitude : Nat) : Nat :=
  if magnitude / twoTo fractionBits = 0 then magnitude % twoTo fractionBits
  else twoTo fractionBits + magnitude % twoTo fractionBits

def upper (fractionBits magnitude : Nat) : Nat :=
  (4 * digitsOf fractionBits magnitude + 2) * twoTo (shift fractionBits magnitude)

def lower (fractionBits magnitude : Nat) : Nat :=
  (4 * digitsOf fractionBits magnitude -
    if magnitude % twoTo fractionBits = 0 ∧ 1 < magnitude / twoTo fractionBits then 1 else 2) *
      twoTo (shift fractionBits magnitude)

section Neighbours

variable {b : Nat}

theorem fields_eq {e f : Nat} (hf : f < twoTo b) :
    (twoTo b * e + f) / twoTo b = e ∧ (twoTo b * e + f) % twoTo b = f := by
  have hpos : 0 < twoTo b := Nat.two_pow_pos b
  rw [Nat.mul_add_div hpos, Nat.div_eq_of_lt hf, Nat.mul_add_mod, Nat.mod_eq_of_lt hf]
  exact ⟨rfl, rfl⟩

theorem upper_eq {e f : Nat} (hf : f < twoTo b) :
    upper b (twoTo b * e + f) =
      (4 * (if e = 0 then f else twoTo b + f) + 2) * twoTo (max e 1 - 1) := by
  rw [upper, digitsOf, shift, (fields_eq hf).1, (fields_eq hf).2]

theorem lower_eq {e f : Nat} (hf : f < twoTo b) :
    lower b (twoTo b * e + f) =
      (4 * (if e = 0 then f else twoTo b + f) - if f = 0 ∧ 1 < e then 1 else 2) *
        twoTo (max e 1 - 1) := by
  rw [lower, digitsOf, shift, (fields_eq hf).1, (fields_eq hf).2]

/-- Neighbours meet at the midpoint between them. -/
theorem lower_succ (m : Nat) : lower b (m + 1) = upper b m := by
  have hpos : 0 < twoTo b := Nat.two_pow_pos b
  obtain ⟨e, f, hf, rfl⟩ : ∃ e f, f < twoTo b ∧ m = twoTo b * e + f :=
    ⟨m / twoTo b, m % twoTo b, Nat.mod_lt _ hpos, (Nat.div_add_mod m _).symm⟩
  rw [upper_eq hf]
  by_cases hnext : f + 1 < twoTo b
  · rw [Nat.add_assoc, lower_eq hnext, if_neg (by simp : ¬ (f + 1 = 0 ∧ 1 < e))]
    congr 1
    split <;> omega
  · -- the next number has the next exponent
    have hcarry : twoTo b * e + f + 1 = twoTo b * (e + 1) + 0 := by
      rw [Nat.mul_add]
      omega
    rw [hcarry, lower_eq hpos, if_neg (Nat.succ_ne_zero e)]
    cases e with
    | zero =>
      rw [if_neg (by decide), if_pos rfl]
      congr 1
      omega
    | succ e =>
      rw [if_pos (by omega), if_neg (Nat.succ_ne_zero e)]
      have hpower : twoTo (max (e + 1 + 1) 1 - 1) = 2 * twoTo (max (e + 1) 1 - 1) := by
        change 2 ^ _ = 2 * 2 ^ _
        rw [← Nat.pow_succ']
        congr 1
        omega
      rw [hpower, ← Nat.mul_assoc]
      congr 1
      omega

theorem lower_lt_upper (m : Nat) : lower b m < upper b m := by
  refine Nat.mul_lt_mul_of_pos_right ?_ (Nat.two_pow_pos _)
  omega

theorem strictMono_upper : StrictMono (upper b) :=
  strictMono_nat_of_lt_succ fun m => lower_succ (b := b) m ▸ lower_lt_upper (m + 1)

/-- The interval of a greater magnitude begins behind that of a smaller one, or where it ends if the
two are neighbours. -/
theorem upper_le_lower {m n : Nat} (h : m < n) :
    upper b m ≤ lower b n ∧ (upper b m = lower b n → n = m + 1) := by
  obtain ⟨k, rfl⟩ : ∃ k, n = k + 1 := ⟨n - 1, by omega⟩
  rw [lower_succ]
  refine ⟨strictMono_upper.monotone (Nat.le_of_lt_succ h), fun heq => ?_⟩
  rw [strictMono_upper.injective heq]

/-- The significand has the parity of the magnitude. -/
theorem digitsOf_mod_two (hb : 0 < b) (m : Nat) : digitsOf b m % 2 = m % 2 := by
  obtain ⟨k, rfl⟩ : ∃ k, b = k + 1 := ⟨b - 1, by omega⟩
  have htop : twoTo (k + 1) = 2 * twoTo k := by
    change 2 ^ (k + 1) = 2 * 2 ^ k
    exact Nat.pow_succ'
  have hdiv := Nat.div_add_mod m (twoTo (k + 1))
  unfold digitsOf
  rw [htop] at hdiv ⊢
  rw [Nat.mul_assoc] at hdiv
  generalize twoTo k * (m / (2 * twoTo k)) = front at hdiv
  split <;> omega

end Neighbours

/-- The number, counted in quarters of the last place of the smallest numbers, rounds to one of this
magnitude; an end of the interval does if the significand is even. -/
structure Near (b magnitude : Nat) (q : ℚ) : Prop where
  lower_le : (lower b magnitude : ℚ) ≤ q
  le_upper : q ≤ (upper b magnitude : ℚ)
  inside : magnitude % 2 = 1 → (lower b magnitude : ℚ) < q ∧ q < (upper b magnitude : ℚ)

theorem Near.le {b m n : Nat} {q : ℚ} (hm : Near b m q) (hn : Near b n q) : n ≤ m := by
  by_contra hlt
  obtain ⟨hle, hneighbour⟩ := upper_le_lower (b := b) (Nat.lt_of_not_le hlt)
  have hends : (upper b m : ℚ) ≤ lower b n := Nat.cast_le.mpr hle
  have hq : (upper b m : ℚ) = q := le_antisymm (hends.trans hn.lower_le) hm.le_upper
  have hq' : (lower b n : ℚ) = q := le_antisymm hn.lower_le (hm.le_upper.trans hends)
  have hnext := hneighbour (Nat.cast_injective (R := ℚ) (hq.trans hq'.symm))
  -- one of the two significands is odd, and an odd one does not own its ends
  rcases Nat.mod_two_eq_zero_or_one m with heven | hodd
  · exact (hn.inside (by omega)).1.ne hq'
  · exact (hm.inside hodd).2.ne hq.symm

theorem Near.unique {b m n : Nat} {q : ℚ} (hm : Near b m q) (hn : Near b n q) : m = n :=
  Nat.le_antisymm (hn.le hm) (hm.le hn)

/-- A number rounds to itself. -/
theorem near_self {b : Nat} (hb : 0 < b) (m : Nat) :
    Near b m (4 * digitsOf b m * twoTo (shift b m) : Nat) where
  lower_le := Nat.cast_le.mpr (Nat.mul_le_mul_right _ (Nat.sub_le _ _))
  le_upper := Nat.cast_le.mpr (Nat.mul_le_mul_right _ (Nat.le_add_right _ _))
  inside hodd := by
    have hdigits := digitsOf_mod_two hb m
    have hpos : 0 < twoTo (shift b m) := Nat.two_pow_pos _
    constructor
    · refine Nat.cast_lt.mpr (Nat.mul_lt_mul_of_pos_right ?_ hpos)
      split <;> omega
    · exact Nat.cast_lt.mpr (Nat.mul_lt_mul_of_pos_right (by omega) hpos)

/-! Decimals. -/

/-- A quarter of the last place of the smallest numbers. -/
def quarter (w : Width) : ℚ := 2 ^ (w.leastScale - 2)

theorem quarter_pos (w : Width) : 0 < quarter w := by
  unfold quarter
  positivity

theorem cast_twoTo (n : Nat) : ((twoTo n : Nat) : ℚ) = 2 ^ n := Nat.cast_pow 2 n

theorem zpow_eq_div (a : ℚ) (ha : a ≠ 0) (e : Int) : a ^ e = a ^ e.toNat / a ^ (-e).toNat := by
  rw [eq_div_iff (pow_ne_zero _ ha), ← zpow_natCast, ← zpow_natCast, ← zpow_add₀ ha]
  congr 1
  omega

section Grid

variable {a c : Nat} {e k : Int}

theorem gridRatio_pos (a : Nat) (e k : Int) : 0 < (gridRatio a e k).2 :=
  Nat.mul_pos (Nat.two_pow_pos _) (Nat.pow_pos (by decide))

theorem gridRatio_eq (a : Nat) (e k : Int) :
    ((gridRatio a e k).1 : ℚ) * 10 ^ k = a * 2 ^ e * (gridRatio a e k).2 := by
  have htwo : ((2 : ℚ) ^ (-e).toNat) ≠ 0 := by positivity
  have hten : ((10 : ℚ) ^ (-k).toNat) ≠ 0 := by positivity
  rw [zpow_eq_div 2 (by norm_num) e, zpow_eq_div 10 (by norm_num) k]
  change ((a * 2 ^ e.toNat * 10 ^ (-k).toNat : Nat) : ℚ) * _ =
    _ * ((2 ^ (-e).toNat * 10 ^ k.toNat : Nat) : ℚ)
  push_cast
  field_simp

theorem le_gridRatio_iff :
    c * (gridRatio a e k).2 ≤ (gridRatio a e k).1 ↔ (c : ℚ) * 10 ^ k ≤ a * 2 ^ e := by
  have hten : (0 : ℚ) < 10 ^ k := by positivity
  have hden : (0 : ℚ) < (gridRatio a e k).2 := Nat.cast_pos.mpr (gridRatio_pos a e k)
  rw [← Nat.cast_le (α := ℚ), ← mul_le_mul_iff_left₀ hten, gridRatio_eq, Nat.cast_mul,
    mul_right_comm, mul_le_mul_iff_left₀ hden]

theorem lt_gridRatio_iff :
    c * (gridRatio a e k).2 < (gridRatio a e k).1 ↔ (c : ℚ) * 10 ^ k < a * 2 ^ e := by
  have hten : (0 : ℚ) < 10 ^ k := by positivity
  have hden : (0 : ℚ) < (gridRatio a e k).2 := Nat.cast_pos.mpr (gridRatio_pos a e k)
  rw [← Nat.cast_lt (α := ℚ), ← mul_lt_mul_iff_left₀ hten, gridRatio_eq, Nat.cast_mul,
    mul_right_comm, mul_lt_mul_iff_left₀ hden]

end Grid

section Fields

variable (x : Floating w)

theorem digitsOf_magnitude : digitsOf w.fractionBits x.magnitude = x.significand := by
  rw [digitsOf, magnitude, (fields_eq x.fraction_lt).1, (fields_eq x.fraction_lt).2, significand]

theorem scale_eq : x.scale = w.leastScale + shift w.fractionBits x.magnitude := by
  rw [scale, shift, magnitude, (fields_eq x.fraction_lt).1]

theorem upper_magnitude :
    (upper w.fractionBits x.magnitude : ℚ) * quarter w =
      (4 * x.significand + 2 : Nat) * 2 ^ (x.scale - 2) := by
  have hscale : x.scale - 2 = (shift w.fractionBits x.magnitude : Int) + (w.leastScale - 2) := by
    rw [scale_eq]
    omega
  rw [upper, digitsOf_magnitude, hscale, zpow_add₀ (by norm_num), quarter, zpow_natCast,
    Nat.cast_mul, cast_twoTo, mul_assoc]

theorem lower_magnitude :
    (lower w.fractionBits x.magnitude : ℚ) * quarter w =
      (4 * x.significand - (if x.isBinadeStart then 1 else 2) : Nat) * 2 ^ (x.scale - 2) := by
  have hscale : x.scale - 2 = (shift w.fractionBits x.magnitude : Int) + (w.leastScale - 2) := by
    rw [scale_eq]
    omega
  have hstart : (if x.magnitude % twoTo w.fractionBits = 0 ∧
      1 < x.magnitude / twoTo w.fractionBits then 1 else 2) =
        if x.isBinadeStart then 1 else 2 := by
    rw [magnitude, (fields_eq x.fraction_lt).1, (fields_eq x.fraction_lt).2]
    simp [isBinadeStart]
  rw [lower, digitsOf_magnitude, hstart, hscale, zpow_add₀ (by norm_num), quarter, zpow_natCast,
    Nat.cast_mul, cast_twoTo, mul_assoc]

/-- A decimal that reads back as a number rounds to it. -/
theorem near_of_readsBack {c : Nat} {k : Int} (h : x.readsBack c k) :
    Near w.fractionBits x.magnitude (c * 10 ^ k / quarter w) := by
  have hquarter := quarter_pos w
  have hb : 0 < w.fractionBits := by cases w <;> decide
  have hparity := digitsOf_mod_two hb x.magnitude
  rw [digitsOf_magnitude] at hparity
  unfold readsBack at h
  dsimp only at h
  split at h
  · next heven =>
    simp only [Bool.and_eq_true, decide_eq_true_eq] at h
    obtain ⟨hlow, hhigh⟩ := h
    rw [← not_lt, lt_gridRatio_iff, not_lt, ← lower_magnitude] at hlow
    rw [le_gridRatio_iff, ← upper_magnitude] at hhigh
    exact ⟨(le_div_iff₀ hquarter).mpr hlow, (div_le_iff₀ hquarter).mpr hhigh, by omega⟩
  · simp only [Bool.and_eq_true, decide_eq_true_eq] at h
    obtain ⟨hlow, hhigh⟩ := h
    rw [← not_le, le_gridRatio_iff, not_le, ← lower_magnitude] at hlow
    rw [lt_gridRatio_iff, ← upper_magnitude] at hhigh
    have hinside := And.intro ((lt_div_iff₀ hquarter).mpr hlow) ((div_lt_iff₀ hquarter).mpr hhigh)
    exact ⟨hinside.1.le, hinside.2.le, fun _ => hinside⟩

/-- The number itself rounds to it. -/
theorem near_value :
    Near w.fractionBits x.magnitude (x.significand * 2 ^ x.scale / quarter w) := by
  have hb : 0 < w.fractionBits := by cases w <;> decide
  have hvalue : (x.significand * 2 ^ x.scale / quarter w : ℚ) =
      (4 * digitsOf w.fractionBits x.magnitude * twoTo (shift w.fractionBits x.magnitude) : Nat) := by
    rw [div_eq_iff (quarter_pos w).ne', scale_eq, zpow_add₀ (by norm_num), quarter,
      zpow_sub₀ (by norm_num), digitsOf_magnitude, Nat.cast_mul, cast_twoTo, zpow_natCast]
    push_cast
    field_simp
  rw [hvalue]
  exact near_self hb x.magnitude

theorem value_exact : (x.exact.1 : ℚ) * 10 ^ x.exact.2 = x.significand * 2 ^ x.scale := by
  change ((x.significand * 2 ^ x.scale.toNat * 5 ^ (-x.scale).toNat : Nat) : ℚ) *
    10 ^ min x.scale 0 = _
  rcases le_total 0 x.scale with h | h
  · obtain ⟨n, hn⟩ := Int.eq_ofNat_of_zero_le h
    rw [min_eq_right h, hn]
    simp
  · obtain ⟨n, hn⟩ := Int.exists_eq_neg_ofNat h
    have hten : (10 : ℚ) ^ n = 2 ^ n * 5 ^ n := by rw [← mul_pow]; norm_num
    rw [min_eq_left h, hn, zpow_neg, zpow_neg, zpow_natCast, zpow_natCast, hten]
    simp only [neg_neg, Int.toNat_neg_natCast, Int.toNat_natCast]
    push_cast
    field_simp

/-- Whether a decimal, as a coefficient and a power of ten, rounds to the number. -/
def RoundsTo (decimal : Nat × Int) : Prop :=
  Near w.fractionBits x.magnitude (decimal.1 * 10 ^ decimal.2 / quarter w)

theorem readsBack_of_onGrid? {tiesUp : Bool} {k : Int} {c : Nat}
    (h : x.onGrid? tiesUp k = some c) : x.readsBack c k := by
  unfold onGrid? at h
  dsimp only at h
  split at h
  · next hbelow habove =>
    split at h
    · exact Option.some.inj h ▸ habove
    · exact Option.some.inj h ▸ hbelow
  · next hbelow _ => exact Option.some.inj h ▸ hbelow
  · next _ habove => exact Option.some.inj h ▸ habove
  · cases h

theorem roundsTo_exact : x.RoundsTo x.exact := by
  rw [RoundsTo, value_exact]
  exact x.near_value

theorem roundsTo_search (tiesUp : Bool) (point : Int) (fuel tried : Nat) :
    x.RoundsTo (x.search tiesUp point fuel tried) := by
  induction fuel generalizing tried with
  | zero => exact x.roundsTo_exact
  | succ fuel ih =>
    rw [search]
    split
    · next c hc =>
      have hnear := x.near_of_readsBack (x.readsBack_of_onGrid? hc)
      split
      · next hten =>
        -- ten of one place are one of the next
        rw [hten] at hnear
        rw [RoundsTo, zpow_add_one₀ (by norm_num), Nat.cast_one, one_mul, mul_comm]
        exact hnear
      · exact hnear
    · exact ih (tried + 1)

/-- The shortest decimal of a number rounds to the number. -/
theorem roundsTo_shortest (tiesUp : Bool) : x.RoundsTo (x.shortest tiesUp) := by
  unfold shortest
  split
  · next hzero =>
    have hnear := x.near_value
    rw [hzero] at hnear
    simpa [RoundsTo] using hnear
  · exact x.roundsTo_search ..

end Fields

/-- One decimal rounds to numbers of one magnitude only. -/
theorem RoundsTo.magnitude_eq {x y : Floating w} {d e : Nat × Int} (hx : x.RoundsTo d)
    (hy : y.RoundsTo e) (h : (d.1 : ℚ) * 10 ^ d.2 = e.1 * 10 ^ e.2) :
    x.magnitude = y.magnitude := by
  rw [RoundsTo, h] at hx
  exact hx.unique hy

end Columnar.Floating
