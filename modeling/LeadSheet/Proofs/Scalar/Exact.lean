import Mathlib.Data.Rat.Floor
import LeadSheet.Scalar.Rational

/-!
# The exact scalar in known terms

Over the rationals each scalar operation is the ordinary one: the larger value is the maximum, and
rounding a value that is not below zero is the floor of half a unit more.
-/

namespace LeadSheet.Scalar
set_option autoImplicit false

theorem larger_eq_max (x y : Rat) : larger x y = max x y := by
  unfold larger
  split
  · rename_i h
    exact (max_eq_right h.le).symm
  · rename_i h
    have hNumber : isNumber x = true := beq_self_eq_true x
    rw [if_pos hNumber, max_eq_left (not_lt.mp h)]

theorem atMost_eq_decide (x y : Rat) : atMost x y = decide (x ≤ y) := by
  rw [Bool.eq_iff_iff, decide_eq_true_eq]
  exact isLE_cmpRat_iff

theorem toNat_eq_floor (x : Rat) : Scalar.toNat x = ⌊x⌋.toNat := by
  change (truncRat x).toNat = ⌊x⌋.toNat
  unfold truncRat
  split
  · rename_i h
    have hNeg : ⌊x⌋ < 0 := Int.floor_lt_zero.mpr h
    have hPos : 0 ≤ (-x).floor := Rat.le_floor_iff.mpr (by simpa using h.le)
    omega
  · rfl

theorem round_eq_floor {x : Rat} (h : 0 ≤ x) : Scalar.round x = (⌊x + 1 / 2⌋ : Rat) := by
  change roundRat x = _
  rw [roundRat, if_neg (not_lt.mpr h)]
  rfl

theorem floor_eq_floor (x : Rat) : Scalar.floor x = (⌊x⌋ : Rat) := rfl

theorem abs_eq_abs (x : Rat) : Scalar.abs x = |x| := by
  change (if x < 0 then -x else x) = |x|
  split
  · rename_i h
    exact (abs_of_neg h).symm
  · rename_i h
    exact (abs_of_nonneg (not_lt.mp h)).symm

theorem toInt_intCast (n : Int) : Scalar.toInt (n : Rat) = n := by
  change truncRat (n : Rat) = n
  unfold truncRat
  split
  · rw [← Int.cast_neg, Rat.floor_intCast, neg_neg]
  · exact Rat.floor_intCast n

theorem mul_floor_div_le {y : Rat} (hy : 0 < y) (x : Rat) : y * ⌊x / y⌋ ≤ x := by
  have hFloor := mul_le_mul_of_nonneg_left (Int.floor_le (x / y)) hy.le
  rwa [mul_div_cancel₀ _ hy.ne'] at hFloor

theorem lt_mul_floor_div_add_one {y : Rat} (hy : 0 < y) (x : Rat) : x < y * (⌊x / y⌋ + 1) := by
  have hFloor := mul_lt_mul_of_pos_left (Int.lt_floor_add_one (x / y)) hy
  rwa [mul_div_cancel₀ _ hy.ne'] at hFloor

theorem modulo_eq {x y : Rat} (hx : 0 ≤ x) (hy : 0 < y) : modulo x y = x - y * ⌊x / y⌋ := by
  have hRatio : 0 ≤ x / y := div_nonneg hx hy.le
  have hTrunc : truncRat (x / y) = ⌊x / y⌋ := by
    rw [truncRat, if_neg (not_lt.mpr hRatio)]
    rfl
  have hRest : 0 ≤ x - y * ⌊x / y⌋ := sub_nonneg.mpr (mul_floor_div_le hy x)
  have hRemainder : Scalar.remainder x y = x - y * ⌊x / y⌋ := by
    change x - y * truncRat (x / y) = _
    rw [hTrunc]
  unfold modulo
  rw [hRemainder]
  exact if_neg (not_lt.mpr hRest)

theorem round_of_neg {x : Rat} (h : x < 0) : Scalar.round x = -Scalar.round (-x) := by
  have hPos : ¬ -x < 0 := by linarith
  change roundRat x = -roundRat (-x)
  rw [roundRat, roundRat, if_pos h, if_neg hPos]

theorem exists_round_eq (x : Rat) : ∃ n : Int, Scalar.round x = n := by
  rcases lt_or_ge x 0 with hNeg | hPos
  · exact ⟨-⌊-x + 1 / 2⌋, by rw [round_of_neg hNeg, round_eq_floor (by linarith), Int.cast_neg]⟩
  · exact ⟨_, round_eq_floor hPos⟩

theorem abs_round_sub_le_half (x : Rat) : |Scalar.round x - x| ≤ 1 / 2 := by
  have hPart {y : Rat} (h : 0 ≤ y) : |Scalar.round y - y| ≤ 1 / 2 := by
    have hLow := Int.floor_le (y + 1 / 2)
    have hHigh := Int.lt_floor_add_one (y + 1 / 2)
    rw [round_eq_floor h, abs_le]
    constructor <;> linarith
  rcases lt_or_ge x 0 with hNeg | hPos
  · have h := hPart (y := -x) (by linarith)
    rwa [← abs_neg, round_of_neg hNeg, neg_sub', neg_neg]
  · exact hPart hPos

theorem round_eq_of_abs_sub_lt {x : Rat} {n : Int} (h : |x - n| < 1 / 2) :
    Scalar.round x = n := by
  obtain ⟨m, hm⟩ := exists_round_eq x
  have hNear := abs_round_sub_le_half x
  rw [hm] at hNear ⊢
  have hLt : |m - n| < 1 := by
    have hCast := abs_sub_le (m : Rat) x n
    rw [← Int.cast_sub, ← Int.cast_abs] at hCast
    have hRat : ((|m - n| : Int) : Rat) < 1 := by linarith
    exact_mod_cast hRat
  rw [sub_eq_zero.mp (Int.abs_lt_one_iff.mp hLt)]

/-- No whole number is nearer to a value than the one that it is rounded to. -/
theorem abs_round_sub_le (x : Rat) (n : Int) : |Scalar.round x - x| ≤ |x - n| := by
  by_contra hNearer
  have hLt : |x - n| < 1 / 2 := (not_le.mp hNearer).trans_le (abs_round_sub_le_half x)
  rw [round_eq_of_abs_sub_lt hLt, abs_sub_comm] at hNearer
  exact hNearer le_rfl

theorem round_intCast (n : Int) : Scalar.round (n : Rat) = n := by
  apply round_eq_of_abs_sub_lt
  rw [sub_self, abs_zero]
  norm_num

theorem round_nonpos {x : Rat} (h : x < 0) : Scalar.round x ≤ 0 := by
  change roundRat x ≤ 0
  rw [roundRat, if_pos h, Left.neg_nonpos_iff]
  have hPos : 0 ≤ (-x + 1 / 2).floor := Rat.le_floor_iff.mpr (by push_cast; linarith)
  exact_mod_cast hPos

theorem round_nonneg {x : Rat} (h : 0 ≤ x) : 0 ≤ Scalar.round x := by
  rw [round_eq_floor h]
  exact_mod_cast Int.floor_nonneg.mpr (by linarith)

theorem round_mono {x y : Rat} (h : x ≤ y) : Scalar.round x ≤ Scalar.round y := by
  rcases lt_or_ge x 0 with hx | hx
  · rcases lt_or_ge y 0 with hy | hy
    · rw [round_of_neg hx, round_of_neg hy, round_eq_floor (by linarith),
        round_eq_floor (by linarith)]
      exact neg_le_neg (Int.cast_le.mpr (Int.floor_le_floor (by linarith)))
    · exact (round_nonpos hx).trans (round_nonneg hy)
  · rw [round_eq_floor hx, round_eq_floor (hx.trans h)]
    exact Int.cast_le.mpr (Int.floor_le_floor (by linarith))

/-- Rounding two values apart gains at most one on rounding their sum. -/
theorem round_add_round_le (x y : Rat) :
    Scalar.round x + Scalar.round y ≤ Scalar.round (x + y) + 1 := by
  have hx := abs_le.mp (abs_round_sub_le_half x)
  have hy := abs_le.mp (abs_round_sub_le_half y)
  have hSum := abs_le.mp (abs_round_sub_le_half (x + y))
  obtain ⟨k, hk⟩ := exists_round_eq x
  obtain ⟨m, hm⟩ := exists_round_eq y
  obtain ⟨n, hn⟩ := exists_round_eq (x + y)
  rw [hk] at hx
  rw [hm] at hy
  rw [hn] at hSum
  rw [hk, hm, hn]
  have hLt : (k : Rat) + m < n + 2 := by linarith
  have hInt : k + m < n + 2 := by exact_mod_cast hLt
  exact_mod_cast (show k + m ≤ n + 1 by omega)

/-- A whole number comes out of the rounding, unless it takes the sign with it. -/
theorem round_add_intCast {x : Rat} {n : Int} (hx : 0 ≤ x) (hSum : 0 ≤ x + n) :
    Scalar.round (x + n) = Scalar.round x + n := by
  rw [round_eq_floor hx, round_eq_floor hSum, add_right_comm, Int.floor_add_intCast, Int.cast_add]

end LeadSheet.Scalar
