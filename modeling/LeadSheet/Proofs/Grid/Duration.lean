import LeadSheet.Proofs.Grid.Rounding

/-!
# Durations in order

A duration within a tenth of a beat of whole bars becomes these bars, and any other goes to eighths
of a beat, which moves it by less than a tenth. So the lengths that the two rules write do not cross
where one takes over from the other, however long a bar is: a longer chord is not written shorter.
-/

namespace LeadSheet.Grid
set_option autoImplicit false

variable {x y raw beatsPerBar : Rat} {n : Int}

def eighthDuration (raw : Rat) : Rat := max (snapWithin raw (1 / 8) (3 / 50)) (1 / 8)

structure OnBars (beatsPerBar raw : Rat) (n : Int) : Prop where
  nearest : Scalar.round (raw / beatsPerBar) = n
  one_le : 1 ≤ n
  near : |raw - n * beatsPerBar| ≤ 1 / 10

section Eighths

theorem eighthDuration_mono : Monotone eighthDuration := fun _ _ h =>
  max_le_max_right _ (snapWithin_mono (by norm_num) (by norm_num) h)

theorem sub_le_eighthDuration (raw : Rat) : raw - 3 / 50 ≤ eighthDuration raw := by
  have hNear := (abs_le.mp (abs_fine_sub_le raw)).1
  exact le_max_of_le_left (by linarith)

theorem eighthDuration_le {bound : Rat} (hEighth : 1 / 8 ≤ bound) (h : raw + 3 / 50 ≤ bound) :
    eighthDuration raw ≤ bound := by
  have hNear := (abs_le.mp (abs_fine_sub_le raw)).2
  exact max_le (by linarith) hEighth

/-- Three tenths of a beat are near enough to two eighths. -/
theorem quarter_le_eighthDuration (h : 3 / 10 ≤ raw) : 1 / 4 ≤ eighthDuration raw := by
  have hTwo : snapWithin (3 / 10 : Rat) (1 / 8) (3 / 50) = (2 : Int) * (1 / 8) :=
    snapWithin_eq_of_near (by norm_num) (by norm_num) (abs_le.mpr (by norm_num))
  have hThree : 1 / 4 ≤ eighthDuration (3 / 10) := by
    rw [eighthDuration, hTwo]
    norm_num
  exact hThree.trans (eighthDuration_mono h)

end Eighths

section Bars

variable (h : 0 < beatsPerBar)
include h

/-- How far a duration is from the bars nearest to it, in bars and in beats. -/
theorem abs_sub_round_mul_eq (raw : Rat) :
    |raw - Scalar.round (raw / beatsPerBar) * beatsPerBar| =
      |Scalar.round (raw / beatsPerBar) - raw / beatsPerBar| * beatsPerBar := by
  rw [← abs_of_pos h, ← abs_mul, abs_of_pos h, sub_mul, div_mul_cancel₀ _ h.ne', abs_sub_comm]

theorem abs_sub_round_mul_le_half (raw : Rat) :
    |raw - Scalar.round (raw / beatsPerBar) * beatsPerBar| ≤ beatsPerBar / 2 := by
  have hRound := mul_le_mul_of_nonneg_right (Scalar.abs_round_sub_le_half (raw / beatsPerBar)) h.le
  rw [abs_sub_round_mul_eq h]
  linarith

theorem abs_sub_round_mul_le (raw : Rat) (m : Int) :
    |raw - Scalar.round (raw / beatsPerBar) * beatsPerBar| ≤ |raw - m * beatsPerBar| := by
  have hRound := mul_le_mul_of_nonneg_right (Scalar.abs_round_sub_le (raw / beatsPerBar) m) h.le
  rwa [abs_sub_round_mul_eq h, ← div_mul_cancel₀ raw h.ne', ← sub_mul, abs_mul, abs_of_pos h,
    div_mul_cancel₀ raw h.ne']

theorem lt_half_of_round_lt_one (hRound : Scalar.round (raw / beatsPerBar) < 1) :
    raw < beatsPerBar / 2 := by
  by_contra hHalf
  have hRatio : 1 / 2 ≤ raw / beatsPerBar := by
    rw [le_div_iff₀ h]
    linarith
  have hOne : Scalar.round (1 / 2 : Rat) = 1 := by
    rw [Scalar.round_eq_floor (by norm_num)]
    norm_num
  have hMono := Scalar.round_mono hRatio
  linarith

theorem OnBars.bar_le (hBars : OnBars beatsPerBar raw n) : beatsPerBar ≤ n * beatsPerBar :=
  le_mul_of_one_le_left h.le (by exact_mod_cast hBars.one_le)

theorem OnBars.half_le (hBars : OnBars beatsPerBar raw n) : beatsPerBar / 2 ≤ raw := by
  have hNear := (abs_le.mp (abs_sub_round_mul_le_half h raw)).1
  have hBar := hBars.bar_le h
  rw [hBars.nearest] at hNear
  linarith

/-- A duration on no bars is before the middle of the first bar, or it is far from the ends of all
bars, which are long then. -/
theorem lt_half_or_far (hNone : ∀ n, ¬ OnBars beatsPerBar raw n) :
    raw < beatsPerBar / 2 ∨
      1 / 5 < beatsPerBar ∧ ∀ m : Int, 1 / 10 < |raw - m * beatsPerBar| := by
  rcases lt_or_ge (Scalar.round (raw / beatsPerBar)) 1 with hFirst | hLater
  · exact .inl (lt_half_of_round_lt_one h hFirst)
  · obtain ⟨n, hn⟩ := Scalar.exists_round_eq (raw / beatsPerBar)
    have hHalf := abs_sub_round_mul_le_half h raw
    have hNearest := abs_sub_round_mul_le h raw
    rw [hn] at hLater hHalf hNearest
    have hFar : 1 / 10 < |raw - n * beatsPerBar| := by
      by_contra hNear
      exact hNone n ⟨hn, by exact_mod_cast hLater, not_lt.mp hNear⟩
    exact .inr ⟨by linarith, fun m => hFar.trans_le (hNearest m)⟩

theorem quantizeDuration_cases (raw : Rat) :
    (∃ n : Int, OnBars beatsPerBar raw n ∧
      quantizeDuration raw beatsPerBar = max (n * beatsPerBar) (1 / 4)) ∨
    (∀ n, ¬ OnBars beatsPerBar raw n) ∧ quantizeDuration raw beatsPerBar = eighthDuration raw := by
  obtain ⟨n, hn⟩ := Scalar.exists_round_eq (raw / beatsPerBar)
  rw [quantizeDuration_eq raw h, hn]
  split
  · rename_i hBars
    exact .inl ⟨n, ⟨hn, by exact_mod_cast hBars.1, hBars.2⟩, rfl⟩
  · rename_i hBars
    refine .inr ⟨fun m hm => hBars ?_, rfl⟩
    have hSame : m = n := by exact_mod_cast hm.nearest.symm.trans hn
    exact ⟨by exact_mod_cast hSame ▸ hm.one_le, hSame ▸ hm.near⟩

end Bars

section Order

variable (h : 0 < beatsPerBar) (hxy : x ≤ y)
include h hxy

/-- Behind its tenth of a beat a number of bars is passed by the eighths too. -/
theorem OnBars.le_eighthDuration (hx : OnBars beatsPerBar x n)
    (hy : ∀ m, ¬ OnBars beatsPerBar y m) : max (n * beatsPerBar) (1 / 4) ≤ eighthDuration y := by
  have hHalf := hx.half_le h
  have hBar := hx.bar_le h
  rcases lt_half_or_far h hy with hFirst | ⟨hLong, hFar⟩
  · -- a longer duration is not before the middle of the first bar either
    linarith
  · have hBehind : n * beatsPerBar + 1 / 10 < y := by
      have hNear := (abs_le.mp hx.near).1
      rcases lt_abs.mp (hFar n) with hAbove | hBelow <;> linarith
    have hEighths := sub_le_eighthDuration y
    exact max_le (by linarith) (quarter_le_eighthDuration (by linarith))

/-- Before its tenth of a beat a number of bars is not reached by the eighths. -/
theorem OnBars.eighthDuration_le (hx : ∀ m, ¬ OnBars beatsPerBar x m)
    (hy : OnBars beatsPerBar y n) : eighthDuration x ≤ max (n * beatsPerBar) (1 / 4) := by
  have hBar := hy.bar_le h
  have hEnds := le_max_left (n * beatsPerBar) (1 / 4)
  have hQuarter := le_max_right (n * beatsPerBar) (1 / 4)
  refine Grid.eighthDuration_le (by linarith) ?_
  rcases lt_half_or_far h hx with hFirst | ⟨_, hFar⟩
  · -- half of a short bar is below a quarter of a beat, half of a long one clear of its end
    rcases le_or_gt beatsPerBar (1 / 5) with hShort | hLong <;> linarith
  · have hNear := (abs_le.mp hy.near).2
    rcases lt_abs.mp (hFar n) with hAbove | hBelow <;> linarith

theorem OnBars.le_of_le {m : Int} (hx : OnBars beatsPerBar x m) (hy : OnBars beatsPerBar y n) :
    m * beatsPerBar ≤ n * beatsPerBar := by
  have hRound := Scalar.round_mono (div_le_div_of_nonneg_right hxy h.le)
  rw [hx.nearest, hy.nearest] at hRound
  exact mul_le_mul_of_nonneg_right hRound h.le

end Order

theorem quantizeDuration_of_nonpos (h : beatsPerBar ≤ 0) (raw : Rat) :
    quantizeDuration raw beatsPerBar = eighthDuration raw := by
  have hFine : snapWithin raw (0.125 : Rat) 0.06 = snapWithin raw (1 / 8) (3 / 50) := by norm_num
  have hEighth : (0.125 : Rat) = 1 / 8 := by norm_num
  unfold quantizeDuration eighthDuration
  simp only [Scalar.larger_eq_max]
  rw [← hFine, ← hEighth]
  exact if_neg (not_lt.mpr h)

theorem quantizeDuration_mono (beatsPerBar : Rat) :
    Monotone fun raw => quantizeDuration raw beatsPerBar := by
  intro x y hxy
  change quantizeDuration x beatsPerBar ≤ quantizeDuration y beatsPerBar
  rcases le_or_gt beatsPerBar 0 with hNone | hPos
  · rw [quantizeDuration_of_nonpos hNone, quantizeDuration_of_nonpos hNone]
    exact eighthDuration_mono hxy
  · rcases quantizeDuration_cases hPos x with ⟨m, hx, hxEq⟩ | ⟨hx, hxEq⟩ <;>
      rcases quantizeDuration_cases hPos y with ⟨n, hy, hyEq⟩ | ⟨hy, hyEq⟩ <;> rw [hxEq, hyEq]
    · exact max_le_max_right _ (hx.le_of_le hPos hxy hy)
    · exact hx.le_eighthDuration hPos hxy hy
    · exact hy.eighthDuration_le hPos hxy hx
    · exact eighthDuration_mono hxy

theorem abs_quantizeDuration_sub_le (h : 1 / 4 ≤ raw) (beatsPerBar : Rat) :
    |quantizeDuration raw beatsPerBar - raw| ≤ 1 / 10 := by
  rcases le_or_gt beatsPerBar 0 with hNone | hPos
  · rw [quantizeDuration_of_nonpos hNone, abs_le]
    have hLow := sub_le_eighthDuration raw
    have hHigh : eighthDuration raw ≤ raw + 3 / 50 := eighthDuration_le (by linarith) le_rfl
    constructor <;> linarith
  · have hLow := sub_tenth_le_quantizeDuration raw hPos
    have hHigh := quantizeDuration_le raw hPos
    rw [max_eq_left h] at hHigh
    rw [abs_le]
    constructor <;> linarith

theorem quantizeDuration_mul (h : 0 < beatsPerBar) {bars : Nat}
    (hBars : 1 / 4 ≤ bars * beatsPerBar) :
    quantizeDuration (bars * beatsPerBar) beatsPerBar = bars * beatsPerBar := by
  have hPos : (0 : Rat) < bars := by
    by_contra hNone
    have hNonpos := mul_nonpos_of_nonpos_of_nonneg (not_lt.mp hNone) h.le
    linarith
  have hRound : Scalar.round (bars * beatsPerBar / beatsPerBar) = bars := by
    rw [mul_div_cancel_right₀ _ h.ne']
    exact_mod_cast Scalar.round_intCast bars
  have hOne : (1 : Rat) ≤ bars := by exact_mod_cast Nat.cast_pos.mp hPos
  rw [quantizeDuration_eq _ h, hRound, sub_self, abs_zero, if_pos ⟨hOne, by norm_num⟩,
    max_eq_left hBars]

/-- A longer chord is not written shorter, and none is written shorter than an eighth of a beat.
From a quarter of a beat on none is moved by more than a tenth, and whole bars stay as they are. -/
theorem quantizeDuration_keeps_order (beatsPerBar : Rat) :
    (Monotone fun raw => quantizeDuration raw beatsPerBar) ∧
      (∀ raw, 1 / 8 ≤ quantizeDuration raw beatsPerBar) ∧
      (∀ raw, 1 / 4 ≤ raw → |quantizeDuration raw beatsPerBar - raw| ≤ 1 / 10) ∧
      (0 < beatsPerBar → ∀ bars : Nat, 1 / 4 ≤ bars * beatsPerBar →
        quantizeDuration (bars * beatsPerBar) beatsPerBar = bars * beatsPerBar) := by
  refine ⟨quantizeDuration_mono beatsPerBar, fun raw => ?_,
    fun raw hRaw => abs_quantizeDuration_sub_le hRaw beatsPerBar,
    fun hPos bars hBars => quantizeDuration_mul hPos hBars⟩
  rcases le_or_gt beatsPerBar 0 with hNone | hPos
  · rw [quantizeDuration_of_nonpos hNone]
    exact le_max_right _ _
  · exact eighth_le_quantizeDuration raw hPos

/-- Bars shorter than a quarter of a beat. One bar and a bit is raised to a quarter, and what is a
little longer is beyond the tenth around the bar and goes to three eighths. -/
theorem quantizeDuration_keeps_order_short_bar :
    quantizeDuration (8 / 25) (11 / 50 : Rat) = 1 / 4 ∧
      quantizeDuration (13 / 40) (11 / 50 : Rat) = 3 / 8 ∧
      (8 / 25 : Rat) ≤ 13 / 40 ∧
      quantizeDuration (8 / 25) (11 / 50 : Rat) ≤ quantizeDuration (13 / 40) (11 / 50) ∧
      1 / 8 ≤ quantizeDuration (8 / 25) (11 / 50 : Rat) ∧
      (1 / 4 : Rat) ≤ 13 / 40 ∧
      |quantizeDuration (13 / 40) (11 / 50 : Rat) - 13 / 40| ≤ 1 / 10 ∧
      (0 : Rat) < 11 / 50 ∧ (1 / 4 : Rat) ≤ (2 : Nat) * (11 / 50) ∧
      quantizeDuration (((2 : Nat) : Rat) * (11 / 50)) (11 / 50) = (2 : Nat) * (11 / 50) := by
  have hOrder : (8 / 25 : Rat) ≤ 13 / 40 := by norm_num
  have hRaw : (1 / 4 : Rat) ≤ 13 / 40 := by norm_num
  have hPos : (0 : Rat) < 11 / 50 := by norm_num
  have hBars : (1 / 4 : Rat) ≤ (2 : Nat) * (11 / 50) := by norm_num
  obtain ⟨hMono, hLeast, hNear, hWhole⟩ := quantizeDuration_keeps_order (11 / 50)
  exact ⟨by decide +kernel, by decide +kernel, hOrder, hMono hOrder, hLeast _, hRaw,
    hNear _ hRaw, hPos, hBars, hWhole hPos 2 hBars⟩

end LeadSheet.Grid
