import Mathlib.Data.Int.CharZero
import Mathlib.Data.Prod.Lex
import Columnar.Expr.Basic

/-! Frame bounds in the order in which they lie around the current row. A signed distance and its
bound lie in the same order, so no two distances share a bound, and only the two extreme distances
are without one. -/
namespace Columnar

namespace Number

/-- A signed word is the unsigned word of its bits, or that word less one turn. -/
theorem toInt_cases (n : Int64) :
    (0 ≤ n.toInt ∧ n.toInt = n.toUInt64.toNat) ∨
      (n.toInt < 0 ∧ n.toInt = (n.toUInt64.toNat : Int) - 2 ^ 64) := by
  have hword := BitVec.toInt_eq_toNat_cond n.toBitVec
  rw [Int64.toInt_toBitVec, Int64.toNat_toBitVec] at hword
  have hlt := n.toUInt64.toNat_lt
  split at hword
  · left
    omega
  · right
    omega

/-- The magnitude of a signed word fits into an unsigned one, that of the least word too. -/
theorem toNat_toUInt64_abs (n : Int64) : n.abs.toUInt64.toNat = n.toInt.natAbs := by
  rw [← Int64.toNat_toBitVec, Int64.toBitVec_abs, BitVec.toNat_abs, BitVec.msb_eq_toInt,
    Int64.toInt_toBitVec, Int64.toNat_toBitVec]
  rcases toInt_cases n with ⟨hsign, hword⟩ | ⟨hsign, hword⟩
  · rw [if_neg (by simpa using hsign)]
    omega
  · rw [if_pos (by simpa using hsign)]
    omega

end Number

namespace FrameBound

/-- The place of a bound: its kind, and its distance among the bounds of that kind. -/
def place : FrameBound → Nat ×ₗ Int
  | unboundedPreceding => toLex (0, 0)
  | preceding offset => toLex (1, -offset.toNat)
  | currentRow => toLex (2, 0)
  | following offset => toLex (3, offset.toNat)
  | unboundedFollowing => toLex (4, 0)

theorem place_injective : Function.Injective place := by
  intro a b h
  cases a <;> cases b <;> simp_all [place, UInt64.toNat_inj]

/-- No bound in front comes first, then the bounds before the current row with the larger distance
first, the current row, the bounds behind it with the smaller distance first, and no bound behind. -/
instance : LinearOrder FrameBound := LinearOrder.lift' place place_injective

theorem lt_iff_place {a b : FrameBound} : a < b ↔ a.place < b.place := Iff.rfl

example : preceding 3 < preceding 2 ∧ preceding 0 < currentRow ∧ following 2 < following 3 := by
  decide

/-- Whether a bound is the one at a distance that a signed word can hold. -/
def LiesAt : FrameBound → Int → Prop
  | unboundedPreceding, distance => distance = Int64.minValue.toInt
  | preceding offset, distance =>
    Int64.minValue.toInt < distance ∧ distance < 0 ∧ distance = -offset.toNat
  | currentRow, distance => distance = 0
  | following offset, distance =>
    0 < distance ∧ distance < Int64.maxValue.toInt ∧ distance = offset.toNat
  | unboundedFollowing, distance => distance = Int64.maxValue.toInt

theorem liesAt_ofOffset (n : Int64) : (ofOffset n).LiesAt n.toInt := by
  have hmin := n.minValue_le_toInt
  have hmax := n.toInt_le
  have habs := Number.toNat_toUInt64_abs n
  unfold ofOffset
  simp only [← Int64.toInt_inj, Int64.lt_iff_toInt_lt, Int64.toInt_zero]
  split
  · assumption
  split
  · assumption
  split
  · assumption
  split
  · simp only [LiesAt]
    omega
  -- what is left is above zero, where a word keeps its bits
  · simp only [LiesAt]
    rcases Number.toInt_cases n with ⟨-, hword⟩ | ⟨hneg, -⟩ <;> omega

/-- Bounds lie as their distances do. -/
theorem LiesAt.lt_iff {a b : FrameBound} {x y : Int} (ha : a.LiesAt x) (hb : b.LiesAt y) :
    a < b ↔ x < y := by
  have hmin := Int64.toInt_minValue
  have hmax := Int64.toInt_maxValue
  rw [lt_iff_place]
  cases a <;> cases b <;> simp only [LiesAt] at ha hb <;>
    simp only [place, Prod.Lex.toLex_lt_toLex, true_and] <;> omega

theorem LiesAt.bound_unique {a b : FrameBound} {x : Int} (ha : a.LiesAt x) (hb : b.LiesAt x) :
    a = b := by
  have hle : a ≤ b := not_lt.mp fun h => lt_irrefl x ((hb.lt_iff ha).mp h)
  have hge : b ≤ a := not_lt.mp fun h => lt_irrefl x ((ha.lt_iff hb).mp h)
  exact le_antisymm hle hge

theorem ofOffset_lt_iff {m n : Int64} : ofOffset m < ofOffset n ↔ m < n := by
  rw [(liesAt_ofOffset m).lt_iff (liesAt_ofOffset n), Int64.lt_iff_toInt_lt]

theorem ofOffset_le_iff {m n : Int64} : ofOffset m ≤ ofOffset n ↔ m ≤ n := by
  rw [← not_lt, ofOffset_lt_iff, Int64.not_lt]

theorem ofOffset_injective : Function.Injective ofOffset := by
  intro m n h
  have hle : m ≤ n := ofOffset_le_iff.mp h.le
  have hge : n ≤ m := ofOffset_le_iff.mp h.ge
  exact Int64.le_antisymm hle hge

theorem ofOffset_eq_iff {n : Int64} {b : FrameBound} : ofOffset n = b ↔ b.LiesAt n.toInt := by
  constructor
  · rintro rfl
    exact liesAt_ofOffset n
  · exact (liesAt_ofOffset n).bound_unique

theorem ofOffset_eq_unboundedPreceding_iff {n : Int64} :
    ofOffset n = unboundedPreceding ↔ n = Int64.minValue := by
  rw [ofOffset_eq_iff, LiesAt, Int64.toInt_inj]

theorem ofOffset_eq_preceding_iff {n : Int64} {k : UInt64} : ofOffset n = preceding k ↔
    Int64.minValue < n ∧ n < 0 ∧ (k.toNat : Int) = -n.toInt := by
  rw [ofOffset_eq_iff, LiesAt, Int64.lt_iff_toInt_lt, Int64.lt_iff_toInt_lt, Int64.toInt_zero]
  omega

theorem ofOffset_eq_currentRow_iff {n : Int64} : ofOffset n = currentRow ↔ n = 0 := by
  rw [ofOffset_eq_iff, LiesAt, ← Int64.toInt_zero, Int64.toInt_inj]

theorem ofOffset_eq_following_iff {n : Int64} {k : UInt64} : ofOffset n = following k ↔
    0 < n ∧ n < Int64.maxValue ∧ (k.toNat : Int) = n.toInt := by
  rw [ofOffset_eq_iff, LiesAt, Int64.lt_iff_toInt_lt, Int64.lt_iff_toInt_lt, Int64.toInt_zero]
  omega

theorem ofOffset_eq_unboundedFollowing_iff {n : Int64} :
    ofOffset n = unboundedFollowing ↔ n = Int64.maxValue := by
  rw [ofOffset_eq_iff, LiesAt, Int64.toInt_inj]

end FrameBound

end Columnar
