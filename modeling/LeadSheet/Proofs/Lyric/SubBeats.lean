import LeadSheet.Lyric.Align
import LeadSheet.Proofs.Grid.Rounding
import LeadSheet.Proofs.Tempo.Pace
import LeadSheet.Proofs.Tempo.Position

/-!
# Sub-beats on one line

Bar, beat and sub-beat are the digits of one number, the sub-beats since the first downbeat: a bar
has `numerator` beats of `division` sub-beats each, and all before bar 1 is bar 0. So where the grid
cuts a beat into whole and fraction, rounds the fraction and carries over beats and bars, it rounds
that number once, and two places of the grid compare as their numbers do.
-/

namespace LeadSheet
set_option autoImplicit false

theorem lt_iff_ediv_lt_or {d : Int} (hd : 0 < d) (j k : Int) :
    j < k ↔ j / d < k / d ∨ j / d = k / d ∧ j % d < k % d := by
  have hj := Int.emod_add_mul_ediv j d
  have hk := Int.emod_add_mul_ediv k d
  rcases lt_trichotomy (j / d) (k / d) with hlt | heq | hgt
  · have hLess : j < k := lt_of_not_ge fun hle => absurd (Int.ediv_le_ediv hd hle) (not_le.mpr hlt)
    simp [hlt, hLess]
  · rw [heq] at hj
    simp [heq]
    omega
  · have hMore : k < j := lt_of_not_ge fun hle => absurd (Int.ediv_le_ediv hd hle) (not_le.mpr hgt)
    simp [hgt.not_gt, hgt.ne', hMore.not_gt]

theorem floor_one_add (x : Rat) : Scalar.floor (1 + x) = ((1 + ⌊x⌋ : Int) : Rat) := by
  rw [Scalar.floor_eq_floor, add_comm, Int.floor_add_one, add_comm]

theorem GridPoint.before_iff (p q : GridPoint) :
    p.before q = true ↔ p.bar < q.bar ∨
      p.bar = q.bar ∧ (p.beat < q.beat ∨ p.beat = q.beat ∧ p.sub < q.sub) := by
  simp [before]

namespace SubBeat

/-- Rounding the fraction of a beat is rounding all of its sub-beats. -/
theorem snapped_ofBeat (beats : Rat) (division : Nat) : (ofBeat (1 + beats) division).snapped =
    ((⌊division * beats + 1 / 2⌋ - division * ⌊beats⌋ : Int) : Rat) / division := by
  have hRest : (1 + beats - ((1 + ⌊beats⌋ : Int) : Rat)) * division + 1 / 2 =
      division * beats + 1 / 2 - ((division * ⌊beats⌋ : Int) : Rat) := by
    push_cast
    ring
  have hFraction : 0 ≤ (1 + beats - ((1 + ⌊beats⌋ : Int) : Rat)) * division := by
    have hFloor := Int.floor_le beats
    refine mul_nonneg ?_ (Nat.cast_nonneg division)
    push_cast
    linarith
  unfold ofBeat
  simp only
  rw [floor_one_add]
  change Scalar.round ((1 + beats - ((1 + ⌊beats⌋ : Int) : Rat)) * (division : Rat)) /
    (division : Rat) = _
  rw [Scalar.round_eq_floor hFraction, hRest, Int.floor_sub_intCast]

variable {division : Nat} (hDivision : 0 < division) (beats : Rat)

include hDivision

theorem whole_add_snapped_ofBeat :
    (ofBeat (1 + beats) division).whole + (ofBeat (1 + beats) division).snapped =
      1 + (⌊division * beats + 1 / 2⌋ : Rat) / division := by
  have hPos : (division : Rat) ≠ 0 := (Nat.cast_pos.mpr hDivision).ne'
  have hWhole : (ofBeat (1 + beats) division).whole = ((1 + ⌊beats⌋ : Int) : Rat) :=
    floor_one_add beats
  rw [hWhole, snapped_ofBeat]
  push_cast
  field_simp
  ring

theorem index_ofBeat :
    Scalar.toInt (Scalar.round ((ofBeat (1 + beats) division).snapped * Scalar.ofNat division)) %
        (division : Int) = ⌊division * beats + 1 / 2⌋ % (division : Int) := by
  have hPos : (division : Rat) ≠ 0 := (Nat.cast_pos.mpr hDivision).ne'
  change Scalar.toInt (Scalar.round ((ofBeat (1 + beats) division).snapped * (division : Rat))) %
    (division : Int) = _
  rw [snapped_ofBeat, div_mul_cancel₀ _ hPos, Scalar.round_intCast, Scalar.toInt_intCast,
    Int.sub_mul_emod_self_left]

end SubBeat

namespace Aligner

variable (a : Aligner Rat)

/-- The bar of a sub-beat that is counted from the first downbeat. -/
def barOf (k : Int) : Int := if k < 0 then 0 else 1 + k / (a.division * a.numerator)

/-- How many sub-beats its bar has before it; before bar 1, those to the first downbeat. -/
def inBar (k : Int) : Int := if k < 0 then k else k % (a.division * a.numerator)

def beatOf (k : Int) : Rat := 1 + (a.inBar k : Rat) / a.division

def gridPoint (k : Int) : GridPoint := ⟨a.barOf k, 1 + a.inBar k / a.division, k % a.division⟩

def subBeatsAt (t : Rat) : Rat := a.division * (a.tempo.beatsAt t - a.pickup)

/-- The sub-beat that is nearest to a time, the later of two. -/
def nearestSubBeat (t : Rat) : Int := ⌊a.subBeatsAt t + 1 / 2⌋

variable {a}

theorem inBar_emod (k : Int) : a.inBar k % a.division = k % a.division := by
  unfold inBar
  split
  · rfl
  · exact Int.emod_emod_of_dvd k (Int.dvd_mul_right _ _)

section Division

variable (hDivision : 0 < a.division)

include hDivision

theorem subBeatsPerBar_pos : (0 : Int) < a.division * a.numerator := by
  have hNumerator := a.numerator_pos
  positivity

section Order

theorem lt_iff_bar_lt_or (j k : Int) :
    j < k ↔ a.barOf j < a.barOf k ∨ a.barOf j = a.barOf k ∧ a.inBar j < a.inBar k := by
  have hBar := subBeatsPerBar_pos hDivision
  have hFirst {i : Int} (hi : ¬ i < 0) : 0 ≤ i / (a.division * a.numerator) :=
    Int.ediv_nonneg (not_lt.mp hi) hBar.le
  unfold barOf inBar
  split <;> split
  · simp
  · rename_i hk
    have := hFirst hk
    omega
  · rename_i hj _
    have := hFirst hj
    omega
  · have hOrder := lt_iff_ediv_lt_or hBar j k
    omega

theorem before_gridPoint_iff (j k : Int) :
    (a.gridPoint j).before (a.gridPoint k) = true ↔ j < k := by
  have hBeat := lt_iff_ediv_lt_or (Nat.cast_pos.mpr hDivision : (0 : Int) < a.division)
    (a.inBar j) (a.inBar k)
  rw [inBar_emod, inBar_emod] at hBeat
  rw [lt_iff_bar_lt_or hDivision, hBeat, GridPoint.before_iff]
  simp only [gridPoint, add_lt_add_iff_left, add_right_inj]

end Order

theorem place_add {bars rest : Int} (hBars : 0 ≤ bars) (hRest : 0 ≤ rest)
    (hLess : rest < a.division * a.numerator) :
    a.barOf (rest + a.division * a.numerator * bars) = 1 + bars ∧
      a.inBar (rest + a.division * a.numerator * bars) = rest ∧
      (rest + a.division * a.numerator * bars) % a.division = rest % a.division := by
  have hBar := subBeatsPerBar_pos hDivision
  have hNonneg : ¬ rest + a.division * a.numerator * bars < 0 :=
    not_lt.mpr (add_nonneg hRest (mul_nonneg hBar.le hBars))
  rw [barOf, inBar, if_neg hNonneg, if_neg hNonneg, Int.add_mul_ediv_left _ _ hBar.ne',
    Int.ediv_eq_zero_of_lt hRest hLess, zero_add, Int.add_mul_emod_self_left,
    Int.emod_eq_of_lt hRest hLess]
  rw [mul_assoc]
  exact ⟨rfl, rfl, Int.add_mul_emod_self_left _ _ _⟩

/-- A time is before the first downbeat, or a number of bars and less than one bar behind it. -/
theorem position_cases (t : Rat) :
    a.subBeatsAt t < 0 ∧
        a.position t = ⟨0, 1 + (a.tempo.beatsAt t - a.pickup), a.tempo.beatsAt t⟩ ∨
      ∃ (bars : Int) (beats : Rat), 0 ≤ bars ∧ 0 ≤ beats ∧ beats < a.numerator ∧
        a.subBeatsAt t = a.division * beats + (a.division * a.numerator * bars : Int) ∧
        a.position t = ⟨1 + bars, 1 + beats, a.tempo.beatsAt t⟩ := by
  have hSubBeat : (0 : Rat) < a.division := Nat.cast_pos.mpr hDivision
  have hPerBar : (0 : Rat) < a.numerator := Nat.cast_pos.mpr a.numerator_pos
  rcases lt_or_ge (a.tempo.beatsAt t - a.pickup) 0 with hBefore | hAfter
  · exact .inl ⟨mul_neg_of_pos_of_neg hSubBeat hBefore, GridPosition.split_of_neg _ hBefore⟩
  · have hLow := Scalar.mul_floor_div_le hPerBar (a.tempo.beatsAt t - a.pickup)
    have hHigh := Scalar.lt_mul_floor_div_add_one hPerBar (a.tempo.beatsAt t - a.pickup)
    refine .inr ⟨⌊(a.tempo.beatsAt t - a.pickup) / a.numerator⌋, a.tempo.beatsAt t - a.pickup -
      a.numerator * ⌊(a.tempo.beatsAt t - a.pickup) / a.numerator⌋, ?_, ?_, ?_, ?_, ?_⟩
    · exact Int.floor_nonneg.mpr (div_nonneg hAfter hPerBar.le)
    · exact sub_nonneg.mpr hLow
    · linarith
    · rw [subBeatsAt]
      push_cast
      ring
    · exact GridPosition.split_of_nonneg a.numerator_pos hAfter

section Beat

variable {t beats : Rat} {bar : Int}
  (hPosition : a.position t = ⟨bar, 1 + beats, a.tempo.beatsAt t⟩)

include hPosition

theorem pointOf_eq : a.pointOf t =
    ⟨bar, 1 + ⌊(a.division : Rat) * beats⌋ / a.division,
      ⌊(a.division : Rat) * beats⌋ % a.division⟩ := by
  have hPart := Int.natCast_mul_floor_div_cancel (Nat.ne_of_gt hDivision) beats
  have hMod := Int.emod_def ⌊(a.division : Rat) * beats⌋ a.division
  rw [hPart] at hMod
  have hRest : (1 + beats - ((1 + ⌊beats⌋ : Int) : Rat)) * a.division =
      a.division * beats - ((a.division * ⌊beats⌋ : Int) : Rat) := by
    push_cast
    ring
  have hSub : Scalar.toInt (Scalar.floor ((1 + beats - ((1 + ⌊beats⌋ : Int) : Rat)) *
      Scalar.ofNat a.division)) = ⌊(a.division : Rat) * beats⌋ % a.division := by
    change Scalar.toInt (Scalar.floor ((1 + beats - ((1 + ⌊beats⌋ : Int) : Rat)) *
      (a.division : Rat))) = _
    rw [hRest, Scalar.floor_eq_floor, Scalar.toInt_intCast, Int.floor_sub_intCast, hMod]
  have hBounds : 0 ≤ ⌊(a.division : Rat) * beats⌋ % a.division ∧
      ⌊(a.division : Rat) * beats⌋ % a.division < a.division :=
    ⟨Int.emod_nonneg _ (by omega), Int.emod_lt_of_pos _ (by omega)⟩
  unfold pointOf
  simp only [hPosition]
  rw [floor_one_add, hSub, Scalar.toInt_intCast, hPart, min_eq_left (by omega), max_eq_right hBounds.1]

theorem snappedStart_eq : a.snappedStart t =
    if bar = 0 ∧ 0 ≤ ⌊a.division * beats + 1 / 2⌋ then
      (1, 1, ⌊a.division * beats + 1 / 2⌋ % (a.division : Int))
    else if 1 ≤ bar ∧ (a.division * a.numerator : Int) ≤ ⌊a.division * beats + 1 / 2⌋ then
      (bar + 1, 1, ⌊a.division * beats + 1 / 2⌋ % (a.division : Int))
    else (bar, 1 + (⌊a.division * beats + 1 / 2⌋ : Rat) / a.division,
      ⌊a.division * beats + 1 / 2⌋ % (a.division : Int)) := by
  have hPos : (0 : Rat) < a.division := Nat.cast_pos.mpr hDivision
  have hUp : (1 : Rat) ≤ 1 + (⌊a.division * beats + 1 / 2⌋ : Rat) / a.division ↔
      0 ≤ ⌊a.division * beats + 1 / 2⌋ := by
    rw [le_add_iff_nonneg_right, le_div_iff₀ hPos, zero_mul]
    exact Int.cast_nonneg_iff
  have hOver : (Scalar.ofNat a.numerator + 1 : Rat) ≤
      1 + (⌊a.division * beats + 1 / 2⌋ : Rat) / a.division ↔
        (a.division * a.numerator : Int) ≤ ⌊a.division * beats + 1 / 2⌋ := by
    change (a.numerator : Rat) + 1 ≤ _ ↔ _
    rw [add_comm, add_le_add_iff_left, le_div_iff₀ hPos, mul_comm]
    exact_mod_cast Iff.rfl
  unfold snappedStart
  simp only [hPosition]
  rw [SubBeat.whole_add_snapped_ofBeat hDivision, SubBeat.index_ofBeat hDivision]
  simp only [hUp, hOver, Scalar.bar_rat]

end Beat

theorem pointOf_eq_gridPoint (t : Rat) : a.pointOf t = a.gridPoint ⌊a.subBeatsAt t⌋ := by
  rcases position_cases hDivision t with
    ⟨hBefore, hPosition⟩ | ⟨bars, beats, hBars, hBeats, hLess, hSum, hPosition⟩
  · have hNeg : ⌊a.subBeatsAt t⌋ < 0 := Int.floor_lt_zero.mpr hBefore
    rw [pointOf_eq hDivision hPosition, gridPoint, barOf, inBar, if_pos hNeg, if_pos hNeg]
    rfl
  · have hPos : (0 : Rat) < a.division := Nat.cast_pos.mpr hDivision
    have hFirst : 0 ≤ ⌊a.division * beats⌋ := Int.floor_nonneg.mpr (mul_nonneg hPos.le hBeats)
    have hLast : ⌊a.division * beats⌋ < a.division * a.numerator := by
      rw [Int.floor_lt]
      push_cast
      exact mul_lt_mul_of_pos_left hLess hPos
    have hPlace := place_add hDivision hBars hFirst hLast
    rw [pointOf_eq hDivision hPosition, gridPoint, hSum, Int.floor_add_intCast, hPlace.1,
      hPlace.2.1, hPlace.2.2]

/-- A whole bar on from a downbeat is the next one. -/
theorem place_next {bars : Int} (hBars : 0 ≤ bars) :
    a.barOf (a.division * a.numerator + a.division * a.numerator * bars) = 1 + bars + 1 ∧
      a.inBar (a.division * a.numerator + a.division * a.numerator * bars) = 0 ∧
      (a.division * a.numerator + a.division * a.numerator * bars) % (a.division : Int) = 0 := by
  have hNext : (a.division * a.numerator + a.division * a.numerator * bars : Int) =
      0 + a.division * a.numerator * (bars + 1) := by ring
  have hPlace := place_add hDivision (show 0 ≤ bars + 1 by omega) le_rfl
    (subBeatsPerBar_pos hDivision)
  rw [hNext, hPlace.1, hPlace.2.1, hPlace.2.2]
  exact ⟨(add_assoc 1 bars 1).symm, rfl, Int.zero_emod _⟩

theorem nearest_le {beats : Rat} (hBeats : 0 ≤ beats) (hLess : beats < a.numerator) :
    0 ≤ ⌊a.division * beats + 1 / 2⌋ ∧
      ⌊a.division * beats + 1 / 2⌋ ≤ a.division * a.numerator := by
  have hPos : (0 : Rat) < a.division := Nat.cast_pos.mpr hDivision
  have hLow := mul_nonneg hPos.le hBeats
  have hHigh := mul_lt_mul_of_pos_left hLess hPos
  constructor
  · exact Int.floor_nonneg.mpr (by linarith)
  · refine Int.lt_add_one_iff.mp (Int.floor_lt.mpr ?_)
    push_cast
    linarith

/-- Carrying over beats and bars is counting on. -/
theorem snappedStart_eq_gridPoint (t : Rat) :
    a.snappedStart t = (a.barOf (a.nearestSubBeat t), a.beatOf (a.nearestSubBeat t),
      a.nearestSubBeat t % (a.division : Int)) := by
  unfold beatOf nearestSubBeat
  rcases position_cases hDivision t with
    ⟨hBefore, hPosition⟩ | ⟨bars, beats, hBars, hBeats, hLess, hSum, hPosition⟩
  · rw [snappedStart_eq hDivision hPosition, ← subBeatsAt]
    have hNearest : ⌊a.subBeatsAt t + 1 / 2⌋ < 1 := Int.floor_lt.mpr (by push_cast; linarith)
    by_cases hUp : 0 ≤ ⌊a.subBeatsAt t + 1 / 2⌋
    · -- rounded up to the first downbeat
      have hZero : ⌊a.subBeatsAt t + 1 / 2⌋ = 0 := by omega
      rw [if_pos ⟨rfl, hUp⟩, hZero]
      simp [barOf, inBar]
    · rw [if_neg (by omega), if_neg (by omega), barOf, inBar, if_pos (by omega), if_pos (by omega)]
  · obtain ⟨hFirst, hLast⟩ := nearest_le hDivision hBeats hLess
    have hNearest : ⌊a.subBeatsAt t + 1 / 2⌋ =
        ⌊a.division * beats + 1 / 2⌋ + a.division * a.numerator * bars := by
      rw [hSum, add_right_comm, Int.floor_add_intCast]
    rw [snappedStart_eq hDivision hPosition, if_neg (by omega), hNearest]
    by_cases hOver : (a.division * a.numerator : Int) ≤ ⌊a.division * beats + 1 / 2⌋
    · -- rounded up to the next downbeat
      have hPlace := place_next hDivision hBars
      rw [if_pos ⟨by omega, hOver⟩, le_antisymm hLast hOver, hPlace.1, hPlace.2.1, hPlace.2.2,
        Int.mul_emod_right]
      simp
    · have hPlace := place_add hDivision hBars hFirst (not_le.mp hOver)
      rw [if_neg (by omega), hPlace.1, hPlace.2.1, hPlace.2.2]

omit hDivision in
theorem floor_beatOf (k : Int) :
    Scalar.toInt (Scalar.floor (a.beatOf k)) = 1 + a.inBar k / a.division := by
  rw [beatOf, floor_one_add, Scalar.toInt_intCast, Rat.floor_intCast_div_natCast]

theorem beatOf_add_le (k : Int) : a.beatOf k + 1 / a.division ≤ a.numerator + 1 := by
  have hPos : (0 : Rat) < a.division := Nat.cast_pos.mpr hDivision
  have hBar := subBeatsPerBar_pos hDivision
  have hInBar : a.inBar k + 1 ≤ a.division * a.numerator := by
    unfold inBar
    split
    · omega
    · exact Int.emod_lt_of_pos k hBar
  have hBeats : ((a.inBar k : Rat) + 1) / a.division ≤ a.numerator := by
    rw [div_le_iff₀' hPos]
    exact_mod_cast hInBar
  rw [add_div] at hBeats
  rw [beatOf]
  linarith

theorem barOf_beatOf_mono {j k : Int} (h : j ≤ k) :
    a.barOf j < a.barOf k ∨ a.barOf j = a.barOf k ∧ a.beatOf j ≤ a.beatOf k := by
  have hBeat {i l : Int} (hle : a.inBar i ≤ a.inBar l) : a.beatOf i ≤ a.beatOf l := by
    have hPos : (0 : Rat) < a.division := Nat.cast_pos.mpr hDivision
    exact add_le_add_right (div_le_div_of_nonneg_right (Int.cast_le.mpr hle) hPos.le) 1
  rcases h.eq_or_lt with rfl | hlt
  · exact .inr ⟨rfl, le_rfl⟩
  · rcases (lt_iff_bar_lt_or hDivision j k).mp hlt with hBar | ⟨hBar, hLess⟩
    · exact .inl hBar
    · exact .inr ⟨hBar, hBeat hLess.le⟩

omit hDivision in
theorem subBeatsAt_mono (hTempo : a.tempo.IsLine) {t u : Rat} (h : t ≤ u) :
    a.subBeatsAt t ≤ a.subBeatsAt u :=
  mul_le_mul_of_nonneg_left (sub_le_sub_right (hTempo.beatsAt_mono h) _) (Nat.cast_nonneg _)

omit hDivision in
theorem nearestSubBeat_mono (hTempo : a.tempo.IsLine) {t u : Rat} (h : t ≤ u) :
    a.nearestSubBeat t ≤ a.nearestSubBeat u :=
  Int.floor_le_floor (add_le_add_left (subBeatsAt_mono hTempo h) _)

theorem place_snapWord (w : Word Rat) :
    (a.snapWord w).bar = a.barOf (a.nearestSubBeat w.start) ∧
      (a.snapWord w).beat = Scalar.thousandths (a.beatOf (a.nearestSubBeat w.start)) ∧
      (a.snapWord w).subIndex = some (a.nearestSubBeat w.start % a.division).toNat := by
  have hStart := snappedStart_eq_gridPoint hDivision w.start
  unfold snapWord
  rw [hStart]
  exact ⟨rfl, rfl, rfl⟩

theorem melisma_snapWord (w : Word Rat) :
    (a.snapWord w).melisma = some (decide (a.nearestSubBeat w.start <
      ⌊a.subBeatsAt (w.stop.getD (w.start + 1 / 4))⌋)) := by
  have hStart := snappedStart_eq_gridPoint hDivision w.start
  have hLength : (Word.defaultLength : Rat) = 1 / 4 := by
    change (0.25 : Rat) = 1 / 4
    norm_num
  have hBefore := before_gridPoint_iff hDivision (a.nearestSubBeat w.start)
    ⌊a.subBeatsAt (w.stop.getD (w.start + 1 / 4))⌋
  unfold snapWord
  simp only [hStart, floor_beatOf, pointOf_eq_gridPoint hDivision, hLength]
  rw [Option.some_inj, Bool.eq_iff_iff, decide_eq_true_iff]
  exact hBefore

theorem beatOf_lt (k : Int) : a.beatOf k < a.numerator + 1 := by
  have hStep : (0 : Rat) < 1 / a.division := one_div_pos.mpr (Nat.cast_pos.mpr hDivision)
  have hLast := beatOf_add_le hDivision k
  linarith

/-- On a grid that is not finer than the three decimals, rounding to them stays in the bar. -/
theorem beat_snapWord_lt (hCoarse : a.division < 2000) (w : Word Rat) :
    (a.snapWord w).beat < a.numerator + 1 := by
  have hStep : (1 : Rat) / 2000 < 1 / a.division := by
    apply one_div_lt_one_div_of_lt
    · exact Nat.cast_pos.mpr hDivision
    · exact_mod_cast hCoarse
  have hLast := beatOf_add_le hDivision (a.nearestSubBeat w.start)
  have hRounded := abs_le.mp (Grid.abs_thousandths_sub_le (a.beatOf (a.nearestSubBeat w.start)))
  rw [(place_snapWord hDivision w).2.1]
  linarith

theorem place_mono (hTempo : a.tempo.IsLine) {v w : Word Rat} (h : v.start ≤ w.start) :
    (a.snapWord v).bar < (a.snapWord w).bar ∨
      (a.snapWord v).bar = (a.snapWord w).bar ∧
        a.beatOf (a.nearestSubBeat v.start) ≤ a.beatOf (a.nearestSubBeat w.start) ∧
        (a.snapWord v).beat ≤ (a.snapWord w).beat := by
  obtain ⟨hvBar, hvBeat, -⟩ := place_snapWord hDivision v
  obtain ⟨hwBar, hwBeat, -⟩ := place_snapWord hDivision w
  rw [hvBar, hvBeat, hwBar, hwBeat]
  rcases barOf_beatOf_mono hDivision (nearestSubBeat_mono hTempo h) with hBar | ⟨hBar, hBeat⟩
  · exact .inl hBar
  · exact .inr ⟨hBar, hBeat, Grid.thousandths_mono hBeat⟩

end Division

/-- Every word is on the sub-beat nearest to its start. So its beat is one of its bar, and no word
stands before one that starts no later. -/
theorem snapWords_on_nearestSubBeat (hDivision : 0 < a.division) (hTempo : a.tempo.Built)
    (words : List (Word Rat)) :
    (a.snapWords words).map (fun row => (row.bar, row.beat, row.subIndex)) =
        words.map (fun w =>
          (a.barOf (a.nearestSubBeat w.start),
            Scalar.thousandths (a.beatOf (a.nearestSubBeat w.start)),
            some (a.nearestSubBeat w.start % a.division).toNat)) ∧
      (∀ w ∈ words, a.beatOf (a.nearestSubBeat w.start) < a.numerator + 1 ∧
        (a.division < 2000 → (a.snapWord w).beat < a.numerator + 1)) ∧
      ∀ v ∈ words, ∀ w ∈ words, v.start ≤ w.start →
        (a.snapWord v).bar < (a.snapWord w).bar ∨
          (a.snapWord v).bar = (a.snapWord w).bar ∧
            a.beatOf (a.nearestSubBeat v.start) ≤ a.beatOf (a.nearestSubBeat w.start) ∧
            (a.snapWord v).beat ≤ (a.snapWord w).beat := by
  refine ⟨?_, ?_, ?_⟩
  · rw [snapWords, List.map_map]
    apply List.map_congr_left
    intro w _
    obtain ⟨hBar, hBeat, hSub⟩ := place_snapWord hDivision w
    simp [hBar, hBeat, hSub]
  · intro w _
    exact ⟨beatOf_lt hDivision _, fun hCoarse => beat_snapWord_lt hDivision hCoarse w⟩
  · intro v _ w _ h
    exact place_mono hDivision hTempo.isLine h

/-- A word before the first downbeat, one that is rounded up to it, and one that is rounded up to
the next. -/
theorem snapWords_on_nearestSubBeat_carried :
    let a : Aligner Rat := ⟨.constant 60, 4, 1, 4, 3 / 2, 19 / 20, by decide⟩
    let words : List (Word Rat) :=
      [⟨"la", 3 / 10, none, none⟩, ⟨"so", 9 / 10, none, none⟩, ⟨"mi", 99 / 20, none, none⟩]
    0 < a.division ∧ a.tempo.Built ∧
      (a.snapWords words).map (fun row => (row.bar, row.beat, row.subIndex)) =
        [(0, 1 / 4, some 1), (1, 1, some 0), (2, 1, some 0)] := by
  intro a words
  have hDivision : 0 < a.division := by decide
  refine ⟨hDivision, .constant 60, ?_⟩
  rw [(snapWords_on_nearestSubBeat hDivision (.constant 60) words).1]
  decide +kernel

/-- A word is a melisma when it ends in a later sub-beat than it starts on. So none is that ends no
later than it starts, and one that is stays one when it is lengthened. -/
theorem melisma_snapWords (hDivision : 0 < a.division) (hTempo : a.tempo.Built)
    (words : List (Word Rat)) :
    (a.snapWords words).map (·.melisma) =
        words.map (fun w => some (decide (⌊a.subBeatsAt (w.stop.getD (w.start + 1 / 4))⌋ >
          ⌊a.subBeatsAt w.start + 1 / 2⌋))) ∧
      (∀ w ∈ words, w.stop.getD (w.start + 1 / 4) ≤ w.start →
        (a.snapWord w).melisma = some false) ∧
      ∀ w ∈ words, ∀ stop, w.stop.getD (w.start + 1 / 4) ≤ stop →
        (a.snapWord w).melisma = some true →
        (a.snapWord { w with stop := some stop }).melisma = some true := by
  refine ⟨?_, ?_, ?_⟩
  · rw [snapWords, List.map_map]
    apply List.map_congr_left
    intro w _
    exact melisma_snapWord hDivision w
  · intro w _ hStop
    have hReach : ⌊a.subBeatsAt (w.stop.getD (w.start + 1 / 4))⌋ ≤ a.nearestSubBeat w.start := by
      have hEnd := subBeatsAt_mono hTempo.isLine hStop
      exact Int.floor_le_floor (hEnd.trans (by linarith))
    rw [melisma_snapWord hDivision, decide_eq_false (not_lt.mpr hReach)]
  · intro w _ stop hLonger hHeld
    rw [melisma_snapWord hDivision, Option.some_inj, decide_eq_true_iff] at hHeld ⊢
    exact hHeld.trans_le (Int.floor_le_floor (subBeatsAt_mono hTempo.isLine hLonger))

/-- Of two words on one sub-beat, the one that ends just before the next is no melisma. -/
theorem melisma_snapWords_crossing :
    let a : Aligner Rat := ⟨.constant 60, 4, 1, 4, 3 / 2, 19 / 20, by decide⟩
    let words : List (Word Rat) :=
      [⟨"la", 9 / 10, some (49 / 40), none⟩, ⟨"so", 9 / 10, some (5 / 4), none⟩]
    0 < a.division ∧ a.tempo.Built ∧
      (a.snapWords words).map (·.melisma) = [some false, some true] := by
  intro a words
  have hDivision : 0 < a.division := by decide
  refine ⟨hDivision, .constant 60, ?_⟩
  rw [(melisma_snapWords hDivision (.constant 60) words).1]
  decide +kernel

end Aligner

end LeadSheet
