import LeadSheet.Proofs.Form.Reach
import LeadSheet.Proofs.Grid.Rounding

/-!
# Where a chord row stands

Bar and beat of a row are written to a tolerance, and so is how long it is held. Added up, they put
the row into the bars that its chord sounds in, and into no bar that is an eighth of a beat away.
-/

namespace LeadSheet
set_option autoImplicit false

namespace Grid

/-- The beat of the song that the bar and the beat of a row name. -/
def writtenStart (beatsPerBar : Rat) (row : Row Rat) : Rat :=
  (row.bar - 1) * beatsPerBar + (row.beat - 1)

/-- A row that is written for a beat of the song and for a number of beats from there. -/
structure IsWritten (beatsPerBar start held : Rat) (row : Row Rat) : Prop where
  bar_pos : 1 ≤ row.bar
  start_near : |writtenStart beatsPerBar row - start| ≤ 41 / 2000
  before : start < row.bar * beatsPerBar
  after : (row.bar - 1) * beatsPerBar ≤ start + 1 / 50
  held_pos : 0 < row.durBeats.getD 0
  held_low : held - 201 / 2000 ≤ row.durBeats.getD 0
  held_high : row.durBeats.getD 0 ≤ max held (1 / 4) + 201 / 2000

def beatIn (beatsPerBar start : Rat) : Rat := start - beatsPerBar * ⌊start / beatsPerBar⌋ + 1

section Row

variable (ppqn next : Nat) {beatsPerBar : Rat} (tempo : TempoMap Rat) (e : ChordEvent)

theorem bar_beat_chordRow (h : 0 < beatsPerBar) {start : Rat} (hTick : start = e.tick / ppqn) :
    (snapBeat (beatIn beatsPerBar start) < beatsPerBar + 1 ∧
        (chordRow ppqn beatsPerBar tempo e next).bar = ⌊start / beatsPerBar⌋ + 1 ∧
        (chordRow ppqn beatsPerBar tempo e next).beat =
          Scalar.thousandths (snapBeat (beatIn beatsPerBar start))) ∨
      (beatsPerBar + 1 ≤ snapBeat (beatIn beatsPerBar start) ∧
        (chordRow ppqn beatsPerBar tempo e next).bar = ⌊start / beatsPerBar⌋ + 2 ∧
        (chordRow ppqn beatsPerBar tempo e next).beat = 1) := by
  have hStart : 0 ≤ start := by rw [hTick]; positivity
  have hBars : Scalar.toInt (Scalar.floor (start / beatsPerBar)) = ⌊start / beatsPerBar⌋ :=
    Scalar.toInt_intCast _
  have hBeat : snapBeat (Scalar.modulo start beatsPerBar + 1) =
      snapBeat (beatIn beatsPerBar start) := by
    rw [Scalar.modulo_eq hStart h, beatIn]
  have hBarsPos : 1 ≤ ⌊start / beatsPerBar⌋ + 1 := by
    have := Int.floor_nonneg.mpr (div_nonneg hStart h.le)
    omega
  have hRow : (chordRow ppqn beatsPerBar tempo e next).bar =
        (if beatsPerBar + 1 ≤ snapBeat (beatIn beatsPerBar start) ∧ 1 ≤ ⌊start / beatsPerBar⌋ + 1
          then ⌊start / beatsPerBar⌋ + 1 + 1 else ⌊start / beatsPerBar⌋ + 1) ∧
      (chordRow ppqn beatsPerBar tempo e next).beat = Scalar.thousandths
        (if beatsPerBar + 1 ≤ snapBeat (beatIn beatsPerBar start) ∧ 1 ≤ ⌊start / beatsPerBar⌋ + 1
          then 1 else snapBeat (beatIn beatsPerBar start)) := by
    rw [← hBeat, ← hBars, hTick]
    exact ⟨rfl, rfl⟩
  rw [hRow.1, hRow.2]
  by_cases hCarried : beatsPerBar + 1 ≤ snapBeat (beatIn beatsPerBar start)
  · rw [if_pos ⟨hCarried, hBarsPos⟩, if_pos ⟨hCarried, hBarsPos⟩]
    exact .inr ⟨hCarried, by ring, (IsEighths.intCast 1).thousandths_eq⟩
  · rw [if_neg (hCarried ·.1), if_neg (hCarried ·.1)]
    exact .inl ⟨not_le.mp hCarried, rfl, rfl⟩

theorem durBeats_chordRow (beatsPerBar : Rat) :
    (chordRow ppqn beatsPerBar tempo e next).durBeats.getD 0 =
      Scalar.thousandths (quantizeDuration (((next - e.tick : Nat) : Rat) / ppqn) beatsPerBar) :=
  rfl

theorem isWritten_chordRow (h : 0 < beatsPerBar) :
    IsWritten beatsPerBar (e.tick / ppqn) ((next - e.tick : Nat) / ppqn)
      (chordRow ppqn beatsPerBar tempo e next) := by
  have hStart : (0 : Rat) ≤ e.tick / ppqn := by positivity
  have hRow := bar_beat_chordRow ppqn next tempo e h rfl
  have hDur := durBeats_chordRow ppqn next tempo e beatsPerBar
  generalize chordRow ppqn beatsPerBar tempo e next = row at *
  generalize (e.tick : Rat) / ppqn = start at *
  generalize ((next - e.tick : Nat) : Rat) / ppqn = held at *
  have hLow := Scalar.mul_floor_div_le h start
  have hHigh := Scalar.lt_mul_floor_div_add_one h start
  have hBars : 0 ≤ ⌊start / beatsPerBar⌋ := Int.floor_nonneg.mpr (div_nonneg hStart h.le)
  have hSnap := abs_le.mp (abs_snapBeat_sub_le (beatIn beatsPerBar start))
  have hBeat := abs_le.mp (abs_thousandths_sub_le (snapBeat (beatIn beatsPerBar start)))
  have hHeld := abs_le.mp (abs_thousandths_sub_le (quantizeDuration held beatsPerBar))
  have hPlace : 1 ≤ row.bar ∧ |writtenStart beatsPerBar row - start| ≤ 41 / 2000 ∧
      start < row.bar * beatsPerBar ∧ (row.bar - 1) * beatsPerBar ≤ start + 1 / 50 := by
    -- a beat that rounds up to the bar line is written as the first of the next bar
    unfold beatIn at *
    unfold writtenStart
    rcases hRow with ⟨-, hBar, hBeat⟩ | ⟨hCarried, hBar, hBeat⟩ <;> rw [hBar, hBeat]
    all_goals refine ⟨by omega, abs_le.mpr ⟨?_, ?_⟩, ?_, ?_⟩ <;> push_cast <;> linarith
  refine ⟨hPlace.1, hPlace.2.1, hPlace.2.2.1, hPlace.2.2.2, ?_, ?_, ?_⟩
  · linarith [eighth_le_quantizeDuration held h]
  · linarith [sub_tenth_le_quantizeDuration held h]
  · linarith [quantizeDuration_le held h]

/-- On whole eighths a row says exactly what its event does. -/
theorem chordRow_of_isEighths (hBar : IsEighths beatsPerBar) (hLong : 1 / 4 ≤ beatsPerBar)
    (hTick : IsEighths (e.tick / ppqn)) (hHeld : IsEighths ((next - e.tick : Nat) / ppqn))
    (hNext : 0 < ((next - e.tick : Nat) / ppqn : Rat)) :
    writtenStart beatsPerBar (chordRow ppqn beatsPerBar tempo e next) = e.tick / ppqn ∧
      ((chordRow ppqn beatsPerBar tempo e next).bar - 1) * beatsPerBar ≤ (e.tick : Rat) / ppqn ∧
      (chordRow ppqn beatsPerBar tempo e next).durBeats.getD 0 = (next - e.tick : Nat) / ppqn := by
  have h : 0 < beatsPerBar := by linarith
  have hRow := bar_beat_chordRow ppqn next tempo e h rfl
  have hDur := durBeats_chordRow ppqn next tempo e beatsPerBar
  rw [hHeld.quantizeDuration_eq_self hNext hBar hLong, hHeld.thousandths_eq] at hDur
  generalize chordRow ppqn beatsPerBar tempo e next = row at *
  generalize (e.tick : Rat) / ppqn = start at *
  have hLow := Scalar.mul_floor_div_le h start
  have hHigh := Scalar.lt_mul_floor_div_add_one h start
  have hBeat : IsEighths (beatIn beatsPerBar start) := by
    rw [beatIn, mul_comm]
    exact (hTick.sub (hBar.mul_left _)).add (IsEighths.intCast 1)
  rw [hBeat.snapBeat_eq_self, hBeat.thousandths_eq] at hRow
  rw [hDur, writtenStart]
  unfold beatIn at hRow
  rcases hRow with ⟨-, hBar, hBeat⟩ | ⟨hCarried, -, -⟩
  · rw [hBar, hBeat]
    refine ⟨?_, ?_, rfl⟩ <;> push_cast <;> linarith
  · linarith

end Row

section Reach

variable {beatsPerBar start held : Rat} {row : Row Rat}

/-- Beyond its own bar a row reaches into those that start before it ends. -/
theorem IsWritten.reaches_iff (hBar : 0 < beatsPerBar) (h : IsWritten beatsPerBar start held row)
    (b : Nat) :
    Form.Reaches beatsPerBar b row ↔ row.bar ≤ b ∧ (row.bar = b ∨
      (b - 1) * beatsPerBar + 1 / 10 ^ 9 ≤ writtenStart beatsPerBar row + row.durBeats.getD 0) := by
  rw [Form.reaches_iff_lastsInto hBar h.bar_pos, Form.LastsInto, writtenStart,
    and_iff_right h.held_pos]
  generalize row.durBeats.getD 0 = dur
  push_cast
  constructor
  · rintro (hOwn | ⟨hFirst, hMore⟩)
    · exact ⟨hOwn.ge, .inl hOwn.symm⟩
    · exact ⟨hFirst.le, .inr (by linarith)⟩
  · rintro ⟨hFirst, hOwn | hMore⟩
    · exact .inl hOwn.symm
    · rcases hFirst.eq_or_lt with hOwn | hFirst
      · exact .inl hOwn.symm
      · exact .inr ⟨hFirst, by linarith⟩

theorem IsWritten.reaches (hBar : 0 < beatsPerBar) (h : IsWritten beatsPerBar start held row)
    {b : Nat} (hStart : start < b * beatsPerBar - 1 / 8)
    (hStop : (b - 1) * beatsPerBar + 1 / 8 < start + held) : Form.Reaches beatsPerBar b row := by
  have hNear := abs_le.mp h.start_near
  have hHeld := h.held_low
  have hOwn : (row.bar : Rat) - 1 < b :=
    lt_of_mul_lt_mul_right (by linarith [h.after]) hBar.le
  rw [h.reaches_iff hBar]
  constructor
  · have hInt : row.bar - 1 < b := by exact_mod_cast hOwn
    omega
  · exact .inr (by linarith)

theorem IsWritten.of_reaches (hBar : 0 < beatsPerBar) (h : IsWritten beatsPerBar start held row)
    {b : Nat} (hReach : Form.Reaches beatsPerBar b row) :
    start < b * beatsPerBar ∧ (b - 1) * beatsPerBar - 1 / 8 < start + max held (1 / 4) := by
  obtain ⟨hFirst, hLast⟩ := (h.reaches_iff hBar b).mp hReach
  have hNear := abs_le.mp h.start_near
  have hHeld := h.held_high
  have hQuarter := le_max_right held (1 / 4)
  constructor
  · have hLe : (row.bar : Rat) ≤ b := by exact_mod_cast hFirst
    exact h.before.trans_le (mul_le_mul_of_nonneg_right hLe hBar.le)
  · rcases hLast with hOwn | hMore
    · have hEq : (row.bar : Rat) = b := by exact_mod_cast hOwn
      have hAfter := h.after
      rw [hEq] at hAfter
      linarith
    · linarith

/-- A row that says exactly what its event does reaches into the bars that the event sounds in. -/
theorem IsWritten.reaches_iff_of_eq (hBar : 0 < beatsPerBar)
    (h : IsWritten beatsPerBar start held row) (hBars : IsEighths beatsPerBar)
    (hStart : IsEighths start) (hHeld : IsEighths held) (hPos : 0 < held)
    (hPlace : writtenStart beatsPerBar row = start) (hAfter : (row.bar - 1) * beatsPerBar ≤ start)
    (hDur : row.durBeats.getD 0 = held) (b : Nat) :
    Form.Reaches beatsPerBar b row ↔
      start < b * beatsPerBar ∧ (b - 1) * beatsPerBar < start + held := by
  rw [h.reaches_iff hBar, hPlace, hDur]
  constructor
  · rintro ⟨hFirst, hLast⟩
    have hLe : (row.bar : Rat) ≤ b := by exact_mod_cast hFirst
    refine ⟨h.before.trans_le (mul_le_mul_of_nonneg_right hLe hBar.le), ?_⟩
    rcases hLast with hOwn | hMore
    · have hEq : (row.bar : Rat) = b := by exact_mod_cast hOwn
      rw [hEq] at hAfter
      linarith
    · linarith
  · rintro ⟨hBefore, hStop⟩
    have hOwn : (row.bar : Rat) - 1 < b := lt_of_mul_lt_mul_right (by linarith) hBar.le
    have hInt : row.bar - 1 < b := by exact_mod_cast hOwn
    have hLine : IsEighths ((b - 1) * beatsPerBar) := by
      exact_mod_cast hBars.mul_left (b - 1)
    -- between different eighths there is more than the billionth that a row's end is cut by
    have hGap := ((hStart.add hHeld).sub hLine).eighth_le (by linarith)
    exact ⟨by omega, .inr (by linarith)⟩

end Reach

end Grid

end LeadSheet
