import LeadSheet.Grid.ChordRows
import LeadSheet.Proofs.Scalar.Exact

/-!
# How far rounding moves a beat

Each rule of the grid moves a value by no more than its tolerance, and no rule moves a value that is
a whole number of eighths. The rules for beats keep the order, and it is all one whether a beat is
rounded in its bar or in the song.
-/

namespace LeadSheet
set_option autoImplicit false

namespace Grid

variable {x y v step tolerance raw beatsPerBar : Rat}

def IsEighths (x : Rat) : Prop := ∃ n : Int, x = n / 8

namespace IsEighths

theorem intCast (n : Int) : IsEighths n := ⟨8 * n, by push_cast; ring⟩

theorem one : IsEighths 1 := ⟨8, by norm_num⟩

theorem quarters (n : Int) : IsEighths (n * (1 / 4)) := ⟨2 * n, by push_cast; ring⟩

theorem add (hx : IsEighths x) (hy : IsEighths y) : IsEighths (x + y) := by
  obtain ⟨m, rfl⟩ := hx
  obtain ⟨n, rfl⟩ := hy
  exact ⟨m + n, by push_cast; ring⟩

theorem sub (hx : IsEighths x) (hy : IsEighths y) : IsEighths (x - y) := by
  obtain ⟨m, rfl⟩ := hx
  obtain ⟨n, rfl⟩ := hy
  exact ⟨m - n, by push_cast; ring⟩

theorem mul_left (hx : IsEighths x) (n : Int) : IsEighths (n * x) := by
  obtain ⟨m, rfl⟩ := hx
  exact ⟨n * m, by push_cast; ring⟩

theorem eq_of_abs_sub_lt (hx : IsEighths x) (hy : IsEighths y) (h : |x - y| < 1 / 8) : x = y := by
  obtain ⟨n, hn⟩ := hx.sub hy
  rw [hn, abs_div, abs_of_pos (by norm_num : (0 : Rat) < 8),
    div_lt_div_iff_of_pos_right (by norm_num), ← Int.cast_abs] at h
  have hZero : n = 0 := Int.abs_lt_one_iff.mp (by exact_mod_cast h)
  rw [hZero, Int.cast_zero, zero_div] at hn
  exact sub_eq_zero.mp hn

theorem eighth_le (hx : IsEighths x) (h : 0 < x) : 1 / 8 ≤ x := by
  obtain ⟨n, rfl⟩ := hx
  have hn : (0 : Rat) < n := by linarith
  have hOne : (1 : Rat) ≤ n := by exact_mod_cast (show (0 : Int) < n by exact_mod_cast hn)
  linarith

theorem thousandths_eq (hx : IsEighths x) : Scalar.thousandths x = x := by
  obtain ⟨n, rfl⟩ := hx
  have hWhole : (n : Rat) / 8 * 1000 = ((125 * n : Int) : Rat) := by push_cast; ring
  change Scalar.round ((n : Rat) / 8 * 1000) / 1000 = _
  rw [hWhole, Scalar.round_intCast]
  push_cast
  ring

end IsEighths

theorem abs_thousandths_sub_le (x : Rat) : |Scalar.thousandths x - x| ≤ 1 / 2000 := by
  have h := abs_le.mp (Scalar.abs_round_sub_le_half (x * 1000))
  change |Scalar.round (x * 1000) / 1000 - x| ≤ _
  rw [abs_le]
  constructor <;> linarith [h.1, h.2]

theorem thousandths_mono (h : x ≤ y) : Scalar.thousandths x ≤ Scalar.thousandths y :=
  div_le_div_of_nonneg_right (Scalar.round_mono (by linarith)) (by norm_num)

theorem thousandths_add_thousandths_le (x y : Rat) :
    Scalar.thousandths x + Scalar.thousandths y ≤ Scalar.thousandths (x + y) + 1 / 1000 := by
  have h := Scalar.round_add_round_le (x * 1000) (y * 1000)
  rw [← add_mul] at h
  change Scalar.round (x * 1000) / 1000 + Scalar.round (y * 1000) / 1000 ≤
    Scalar.round ((x + y) * 1000) / 1000 + 1 / 1000
  linarith

theorem IsEighths.thousandths_add (hy : IsEighths y) (hx : 0 ≤ x) (hSum : 0 ≤ x + y) :
    Scalar.thousandths (x + y) = Scalar.thousandths x + y := by
  obtain ⟨n, rfl⟩ := hy
  have hWhole : (x + (n : Rat) / 8) * 1000 = x * 1000 + ((125 * n : Int) : Rat) := by
    push_cast
    ring
  have hRound := Scalar.round_add_intCast (x := x * 1000) (n := 125 * n) (by linarith) (by linarith)
  change Scalar.round ((x + (n : Rat) / 8) * 1000) / 1000 = Scalar.round (x * 1000) / 1000 + _
  rw [hWhole, hRound]
  push_cast
  ring

theorem snapWithin_eq (v : Rat) (h : 0 < step) (tolerance : Rat) :
    snapWithin v step tolerance =
      if |v - Scalar.round (v / step) * step| ≤ tolerance then Scalar.round (v / step) * step
      else v := by
  unfold snapWithin
  simp only [Scalar.abs_eq_abs]
  exact if_neg (not_le.mpr h)

theorem abs_snapWithin_sub_le (v : Rat) (hStep : 0 < step) (hTolerance : 0 ≤ tolerance) :
    |snapWithin v step tolerance - v| ≤ tolerance := by
  rw [snapWithin_eq v hStep]
  split
  · rename_i h
    rwa [abs_sub_comm]
  · rwa [sub_self, abs_zero]

theorem IsEighths.snapWithin_eq_self (hv : IsEighths v) (hStep : IsEighths step) (hPos : 0 < step)
    (hTolerance : tolerance < 1 / 8) : snapWithin v step tolerance = v := by
  rw [snapWithin_eq v hPos]
  split
  · rename_i h
    obtain ⟨n, hn⟩ := Scalar.exists_round_eq (v / step)
    rw [hn] at h ⊢
    rw [abs_sub_comm] at h
    exact (hStep.mul_left n).eq_of_abs_sub_lt hv (h.trans_lt hTolerance)
  · rfl

/-- A value near to a multiple of the step becomes that multiple, and any other value stays. -/
theorem snapWithin_cases (v : Rat) (hStep : 0 < step) (hTolerance : tolerance < step / 2) :
    (∃ n : Int, |v - n * step| ≤ tolerance ∧ snapWithin v step tolerance = n * step) ∨
      (∀ n : Int, tolerance < |v - n * step|) ∧ snapWithin v step tolerance = v := by
  rw [snapWithin_eq v hStep]
  by_cases hNear : ∃ n : Int, |v - n * step| ≤ tolerance
  · obtain ⟨n, hn⟩ := hNear
    have hRound : Scalar.round (v / step) = n := by
      apply Scalar.round_eq_of_abs_sub_lt
      rw [div_sub' hStep.ne', abs_div, abs_of_pos hStep, div_lt_iff₀ hStep, mul_comm step]
      linarith
    exact .inl ⟨n, hn, by rw [hRound, if_pos hn]⟩
  · have hFar (n : Int) : tolerance < |v - n * step| := lt_of_not_ge fun hn => hNear ⟨n, hn⟩
    obtain ⟨n, hn⟩ := Scalar.exists_round_eq (v / step)
    exact .inr ⟨hFar, by rw [hn, if_neg (not_le.mpr (hFar n))]⟩

theorem snapWithin_eq_of_near (hStep : 0 < step) (hTolerance : tolerance < step / 2) {n : Int}
    (h : |v - n * step| ≤ tolerance) : snapWithin v step tolerance = n * step := by
  rcases snapWithin_cases v hStep hTolerance with ⟨m, hm, hEq⟩ | ⟨hFar, -⟩
  · have hLt : |(m : Rat) - n| * step < 1 * step := by
      have hSum := abs_sub_le (m * step) v (n * step)
      rw [abs_sub_comm] at hm
      rw [← abs_of_pos hStep, ← abs_mul, sub_mul, abs_of_pos hStep]
      linarith
    have hInt : |m - n| < 1 := by exact_mod_cast lt_of_mul_lt_mul_right hLt hStep.le
    rw [hEq, sub_eq_zero.mp (Int.abs_lt_one_iff.mp hInt)]
  · exact absurd h (not_le.mpr (hFar n))

theorem snapWithin_mul (hStep : 0 < step) (hTolerance : tolerance < step / 2)
    (hPos : 0 ≤ tolerance) (n : Int) : snapWithin (n * step) step tolerance = n * step := by
  apply snapWithin_eq_of_near hStep hTolerance
  rwa [sub_self, abs_zero]

theorem snapWithin_eq_self_of_far (hStep : 0 < step) (hTolerance : tolerance < step / 2)
    (h : ∀ n : Int, tolerance < |v - n * step|) : snapWithin v step tolerance = v := by
  rcases snapWithin_cases v hStep hTolerance with ⟨m, hm, -⟩ | ⟨-, hEq⟩
  · exact absurd hm (not_le.mpr (h m))
  · exact hEq

theorem snapWithin_add_mul (v : Rat) (hStep : 0 < step) (hTolerance : tolerance < step / 2)
    (n : Int) :
    snapWithin (v + n * step) step tolerance = snapWithin v step tolerance + n * step := by
  have hShift (m : Int) : v + n * step - m * step = v - (m - n : Int) * step := by
    push_cast
    ring
  rcases snapWithin_cases v hStep hTolerance with ⟨m, hm, hEq⟩ | ⟨hFar, hEq⟩
  · have hNear : |v + n * step - (m + n : Int) * step| ≤ tolerance := by
      rwa [hShift, add_sub_cancel_right]
    rw [hEq, snapWithin_eq_of_near hStep hTolerance hNear, Int.cast_add, add_mul]
  · rw [hEq]
    apply snapWithin_eq_self_of_far hStep hTolerance
    intro m
    rw [hShift]
    exact hFar (m - n)

theorem snapWithin_mono (hStep : 0 < step) (hTolerance : tolerance < step / 2) (h : x ≤ y) :
    snapWithin x step tolerance ≤ snapWithin y step tolerance := by
  rcases snapWithin_cases x hStep hTolerance with ⟨m, hm, hx⟩ | ⟨hFarX, hx⟩ <;>
    rcases snapWithin_cases y hStep hTolerance with ⟨n, hn, hy⟩ | ⟨hFarY, hy⟩ <;> rw [hx, hy]
  · have hm := abs_le.mp hm
    have hn := abs_le.mp hn
    have hLt : (m : Rat) < n + 1 := lt_of_mul_lt_mul_right (by linarith) hStep.le
    have hle : m ≤ n := Int.lt_add_one_iff.mp (by exact_mod_cast hLt)
    exact mul_le_mul_of_nonneg_right (Int.cast_le.mpr hle) hStep.le
  · have hm := abs_le.mp hm
    by_contra hlt
    refine absurd (hFarY m) (not_lt.mpr (abs_le.mpr ⟨?_, ?_⟩)) <;> linarith
  · have hn := abs_le.mp hn
    by_contra hlt
    refine absurd (hFarX n) (not_lt.mpr (abs_le.mpr ⟨?_, ?_⟩)) <;> linarith
  · exact h

/-- What stays below a multiple of the step stays clear of it. -/
theorem snapWithin_le_sub (hStep : 0 < step) (hTolerance : tolerance < step / 2) {n : Int}
    (h : snapWithin v step tolerance < n * step) :
    snapWithin v step tolerance ≤ n * step - tolerance := by
  rcases snapWithin_cases v hStep hTolerance with ⟨m, -, hEq⟩ | ⟨hFar, hEq⟩ <;> rw [hEq] at h ⊢
  · have hLt : m < n := by exact_mod_cast lt_of_mul_lt_mul_right h hStep.le
    have hle : (m : Rat) + 1 ≤ n := by exact_mod_cast Int.add_one_le_of_lt hLt
    have hMul := mul_le_mul_of_nonneg_right hle hStep.le
    linarith
  · have hFar := hFar n
    rw [abs_of_neg (by linarith)] at hFar
    linarith

theorem snapBeat_eq (raw : Rat) :
    snapBeat raw =
      if snapWithin raw 1 (1 / 50) = raw then snapWithin raw (1 / 4) (1 / 50)
      else snapWithin raw 1 (1 / 50) := by
  have hWhole : snapWithin raw 1 (0.02 : Rat) = snapWithin raw 1 (1 / 50) := by norm_num
  have hQuarter : snapWithin raw (0.25 : Rat) 0.02 = snapWithin raw (1 / 4) (1 / 50) := by norm_num
  unfold snapBeat
  rw [← hWhole, ← hQuarter]
  simp only [beq_iff_eq]

/-- Whole beats are quarters, so the finer of the two rules is the whole rule. -/
theorem snapBeat_eq_quarter (raw : Rat) : snapBeat raw = snapWithin raw (1 / 4) (1 / 50) := by
  have hNarrow : (1 / 50 : Rat) < 1 / 2 := by norm_num
  have hOne := snapWithin_cases raw one_pos hNarrow
  rw [snapBeat_eq]
  split
  · rfl
  · rename_i hMoved
    rcases hOne with ⟨n, hn, hEq⟩ | ⟨-, hEq⟩
    · have hQuarters : (n : Rat) * 1 = (4 * n : Int) * (1 / 4) := by
        push_cast
        ring
      rw [hEq, hQuarters]
      rw [hQuarters] at hn
      exact (snapWithin_eq_of_near (by norm_num) (by norm_num) hn).symm
    · exact absurd hEq hMoved

theorem abs_snapBeat_sub_le (raw : Rat) : |snapBeat raw - raw| ≤ 1 / 50 := by
  rw [snapBeat_eq]
  split <;> exact abs_snapWithin_sub_le raw (by norm_num) (by norm_num)

theorem IsEighths.snapBeat_eq_self (h : IsEighths raw) : snapBeat raw = raw := by
  have hQuarter : IsEighths (1 / 4) := ⟨2, by norm_num⟩
  rw [snapBeat_eq, if_pos (h.snapWithin_eq_self .one one_pos (by norm_num)),
    h.snapWithin_eq_self hQuarter (by norm_num) (by norm_num)]

/-- A duration to whole bars, where `bars` is how many of them are nearest to it. -/
theorem quantizeDuration_eq (raw : Rat) (h : 0 < beatsPerBar) :
    quantizeDuration raw beatsPerBar =
      if 1 ≤ Scalar.round (raw / beatsPerBar) ∧
          |raw - Scalar.round (raw / beatsPerBar) * beatsPerBar| ≤ 1 / 10 then
        max (Scalar.round (raw / beatsPerBar) * beatsPerBar) (1 / 4)
      else max (snapWithin raw (1 / 8) (3 / 50)) (1 / 8) := by
  have hFine : snapWithin raw (0.125 : Rat) 0.06 = snapWithin raw (1 / 8) (3 / 50) := by norm_num
  have hQuarter : (0.25 : Rat) = 1 / 4 := by norm_num
  have hTenth : (0.10 : Rat) = 1 / 10 := by norm_num
  have hEighth : (0.125 : Rat) = 1 / 8 := by norm_num
  unfold quantizeDuration
  simp only [Scalar.larger_eq_max, Scalar.abs_eq_abs]
  rw [← hFine, ← hQuarter, ← hTenth, ← hEighth]
  exact if_pos h

theorem abs_fine_sub_le (raw : Rat) : |snapWithin raw (1 / 8) (3 / 50) - raw| ≤ 3 / 50 :=
  abs_snapWithin_sub_le raw (by norm_num) (by norm_num)

theorem sub_tenth_le_quantizeDuration (raw : Rat) (h : 0 < beatsPerBar) :
    raw - 1 / 10 ≤ quantizeDuration raw beatsPerBar := by
  rw [quantizeDuration_eq raw h]
  split
  · rename_i hBars
    have hNear := (abs_le.mp hBars.2).2
    exact le_max_of_le_left (by linarith)
  · have hNear := (abs_le.mp (abs_fine_sub_le raw)).1
    exact le_max_of_le_left (by linarith)

theorem quantizeDuration_le (raw : Rat) (h : 0 < beatsPerBar) :
    quantizeDuration raw beatsPerBar ≤ max raw (1 / 4) + 1 / 10 := by
  have hRaw := le_max_left raw (1 / 4)
  have hQuarter := le_max_right raw (1 / 4)
  rw [quantizeDuration_eq raw h]
  split
  · rename_i hBars
    have hNear := (abs_le.mp hBars.2).1
    exact max_le (by linarith) (by linarith)
  · have hNear := (abs_le.mp (abs_fine_sub_le raw)).2
    exact max_le (by linarith) (by linarith)

theorem eighth_le_quantizeDuration (raw : Rat) (h : 0 < beatsPerBar) :
    1 / 8 ≤ quantizeDuration raw beatsPerBar := by
  rw [quantizeDuration_eq raw h]
  split
  · exact le_max_of_le_right (by norm_num)
  · exact le_max_right _ _

theorem IsEighths.quantizeDuration_eq_self (hRaw : IsEighths raw) (hPos : 0 < raw)
    (hBar : IsEighths beatsPerBar) (hLong : 1 / 4 ≤ beatsPerBar) :
    quantizeDuration raw beatsPerBar = raw := by
  rw [quantizeDuration_eq raw (by linarith)]
  split
  · rename_i hBars
    obtain ⟨n, hn⟩ := Scalar.exists_round_eq (raw / beatsPerBar)
    rw [hn] at hBars ⊢
    have hWhole : raw = n * beatsPerBar :=
      hRaw.eq_of_abs_sub_lt (hBar.mul_left n) (hBars.2.trans_lt (by norm_num))
    have hLe : beatsPerBar ≤ n * beatsPerBar := le_mul_of_one_le_left (by linarith) hBars.1
    rw [← hWhole] at hLe ⊢
    exact max_eq_left (by linarith)
  · have hEighth : IsEighths (1 / 8) := ⟨1, by norm_num⟩
    rw [hRaw.snapWithin_eq_self hEighth (by norm_num) (by norm_num)]
    exact max_eq_left (hRaw.eighth_le hPos)

end Grid

end LeadSheet
