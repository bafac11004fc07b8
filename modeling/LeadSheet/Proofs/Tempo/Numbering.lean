import LeadSheet.Proofs.Tempo.Position
import LeadSheet.Proofs.Tempo.Ticks

/-!
# Bars and beats number the line of beats

A bar with a beat in it is one beat of the song: the bar says at which downbeat to start, the beat
how far to go from there. No two beats of the song have the same place, every place is one of them,
and a later beat has a later place. The downbeats themselves come back from their times as beat 1,
since a tempo map turns the beats behind the start of a song into times and back.
-/

namespace LeadSheet.GridPosition
set_option autoImplicit false

/-- What can stand as a bar and a beat in it. Before the first downbeat the beats count back from
one without an end. -/
def IsPlace (numerator : Nat) (bar : Int) (beat : Rat) : Prop :=
  bar = 0 ∧ beat < 1 ∨ 1 ≤ bar ∧ 1 ≤ beat ∧ beat < numerator + 1

/-- A position that numbers a beat of the song. -/
structure Numbers (numerator : Nat) (pickup x : Rat) (p : GridPosition Rat) : Prop where
  bar_nonneg : 0 ≤ p.bar
  bar_eq_zero_iff : p.bar = 0 ↔ x < pickup
  beat_bounds : 1 ≤ p.bar → 1 ≤ p.beat ∧ p.beat < numerator + 1
  beats_eq : x = pickup + numerator * ((max p.bar 1 : Int) - 1) + (p.beat - 1)
  beatAbs_eq : p.beatAbs = x

def Before (p q : GridPosition Rat) : Prop :=
  p.bar < q.bar ∨ p.bar = q.bar ∧ p.beat < q.beat

variable {numerator : Nat} {pickup x y : Rat} {p q : GridPosition Rat}

namespace Numbers

theorem eq_downbeat_add (h : Numbers numerator pickup x p) :
    x = downbeat p.bar numerator pickup + (p.beat - 1) := by
  rw [downbeat_eq]
  exact h.beats_eq

theorem isPlace (h : Numbers numerator pickup x p) : IsPlace numerator p.bar p.beat := by
  rcases h.bar_nonneg.eq_or_lt with hZero | hBar
  · have hBefore := h.bar_eq_zero_iff.mp hZero.symm
    have hBeats := h.beats_eq
    rw [← hZero] at hBeats
    exact .inl ⟨hZero.symm, by norm_num at hBeats; linarith⟩
  · exact .inr ⟨hBar, h.beat_bounds hBar⟩

theorem downbeat_le (h : Numbers numerator pickup x p) (hBar : 1 ≤ p.bar) :
    downbeat p.bar numerator pickup ≤ x := by
  rw [h.eq_downbeat_add]
  exact le_add_of_nonneg_right (sub_nonneg.mpr (h.beat_bounds hBar).1)

theorem lt_downbeat (h : Numbers numerator pickup x p) :
    x < downbeat (p.bar + 1) numerator pickup := by
  rcases h.bar_nonneg.eq_or_lt with hZero | hBar
  · rw [downbeat_eq, ← hZero]
    simpa using h.bar_eq_zero_iff.mp hZero.symm
  · have hBeat := (h.beat_bounds hBar).2
    have hNext := downbeat_add_one numerator pickup p.bar
    rw [max_eq_left hBar] at hNext
    rw [hNext, h.eq_downbeat_add]
    linarith

theorem bar_le (h : Numbers numerator pickup x p) (h' : Numbers numerator pickup y q)
    (hle : x ≤ y) : p.bar ≤ q.bar := by
  by_contra hlt
  have hBar : 1 ≤ p.bar := by
    have hFirst := h'.bar_nonneg
    omega
  have hNext := downbeat_le_downbeat numerator pickup (Int.add_one_le_of_lt (not_le.mp hlt))
  exact absurd (h'.lt_downbeat.trans_le (hNext.trans (h.downbeat_le hBar))) (not_lt.mpr hle)

theorem beat_sub_beat (h : Numbers numerator pickup x p) (h' : Numbers numerator pickup y q)
    (hBar : p.bar = q.bar) : q.beat - p.beat = y - x := by
  rw [h.beats_eq, h'.beats_eq, hBar]
  ring

theorem lt_iff_before (h : Numbers numerator pickup x p) (h' : Numbers numerator pickup y q) :
    x < y ↔ p.Before q := by
  constructor
  · intro hlt
    rcases (h.bar_le h' hlt.le).lt_or_eq with hBar | hBar
    · exact .inl hBar
    · have hBeat := h.beat_sub_beat h' hBar
      exact .inr ⟨hBar, sub_pos.mp (hBeat ▸ sub_pos.mpr hlt)⟩
  · rintro (hBar | ⟨hBar, hBeat⟩)
    · by_contra hle
      exact absurd (h'.bar_le h (not_lt.mp hle)) (not_le.mpr hBar)
    · exact sub_pos.mp (h.beat_sub_beat h' hBar ▸ sub_pos.mpr hBeat)

theorem unique (h : Numbers numerator pickup x p) (h' : Numbers numerator pickup x q) :
    p = q := by
  have hBar := le_antisymm (h.bar_le h' le_rfl) (h'.bar_le h le_rfl)
  have hBeat := h.beat_sub_beat h' hBar
  rw [sub_self, sub_eq_zero] at hBeat
  have hAbs := h.beatAbs_eq.trans h'.beatAbs_eq.symm
  cases p
  cases q
  simp only at hBar hBeat hAbs
  rw [hBar, hBeat, hAbs]

end Numbers

theorem numbers_of_isPlace (pickup : Rat) {bar : Int} {beat : Rat}
    (h : IsPlace numerator bar beat) :
    Numbers numerator pickup (downbeat bar numerator pickup + (beat - 1))
      ⟨bar, beat, downbeat bar numerator pickup + (beat - 1)⟩ := by
  have hStart := downbeat_eq numerator pickup bar
  rcases h with ⟨rfl, hBeat⟩ | ⟨hBar, hBeat, hLast⟩
  · refine ⟨le_rfl, iff_of_true rfl ?_, fun h => absurd h Int.zero_lt_one.not_ge,
      congrArg (· + _) hStart, rfl⟩
    rw [hStart]
    simpa using hBeat
  · refine ⟨Int.zero_lt_one.le.trans hBar, iff_of_false (Int.zero_lt_one.trans_le hBar).ne' ?_,
      fun _ => ⟨hBeat, hLast⟩, congrArg (· + _) hStart, rfl⟩
    have hFirst := downbeat_le_downbeat numerator pickup hBar
    have hOne : downbeat 1 numerator pickup = pickup := by simp [downbeat_eq]
    rw [hOne] at hFirst
    exact not_lt.mpr (hFirst.trans (le_add_of_nonneg_right (sub_nonneg.mpr hBeat)))

section Split

variable (hBar : 0 < numerator)

include hBar

theorem numbers_split (pickup x : Rat) : Numbers numerator pickup x (split x numerator pickup) := by
  have hPerBar : (0 : Rat) < numerator := Nat.cast_pos.mpr hBar
  rcases lt_or_ge (x - pickup) 0 with hBefore | hAfter
  · rw [split_of_neg numerator hBefore]
    exact ⟨le_rfl, iff_of_true rfl (sub_neg.mp hBefore), fun h => absurd h Int.zero_lt_one.not_ge,
      by simp, rfl⟩
  · have hBars : 0 ≤ ⌊(x - pickup) / numerator⌋ :=
      Int.floor_nonneg.mpr (div_nonneg hAfter hPerBar.le)
    have hLow := Scalar.mul_floor_div_le hPerBar (x - pickup)
    have hHigh := Scalar.lt_mul_floor_div_add_one hPerBar (x - pickup)
    have hFirst : 1 ≤ 1 + ⌊(x - pickup) / numerator⌋ := le_add_of_nonneg_right hBars
    rw [split_of_nonneg hBar hAfter]
    refine ⟨Int.zero_lt_one.le.trans hFirst, iff_of_false (Int.zero_lt_one.trans_le hFirst).ne'
      (not_lt.mpr (sub_nonneg.mp hAfter)), fun _ => ⟨?_, ?_⟩, ?_, rfl⟩
    · exact le_add_of_nonneg_right (sub_nonneg.mpr hLow)
    · simp only
      linarith
    · simp only [max_eq_left hFirst]
      push_cast
      ring

theorem split_eq_of_numbers (h : Numbers numerator pickup x p) : split x numerator pickup = p :=
  (numbers_split hBar pickup x).unique h

theorem split_downbeat {bar : Int} (h : 1 ≤ bar) :
    split (downbeat bar numerator pickup) numerator pickup =
      ⟨bar, 1, downbeat bar numerator pickup⟩ := by
  have hPlace : IsPlace numerator bar 1 :=
    .inr ⟨h, le_rfl, lt_add_of_pos_left 1 (Nat.cast_pos.mpr hBar)⟩
  have hNumbers := numbers_of_isPlace pickup hPlace
  rw [sub_self, add_zero] at hNumbers
  exact split_eq_of_numbers hBar hNumbers

theorem ofBeats_eq_split (pickup x : Rat) :
    ofBeats x numerator pickup = .ok (split x numerator pickup) :=
  if_neg hBar.ne'

end Split

/-- Bars and beats number the beats of a song in order, each place once, and every downbeat comes
back from its time. -/
theorem ofBeats_numbers (hBar : 0 < numerator) (pickup : Rat) :
    (∀ x, ∃ p, ofBeats x numerator pickup = .ok p ∧ Numbers numerator pickup x p ∧
      IsPlace numerator p.bar p.beat) ∧
      (∀ bar beat, IsPlace numerator bar beat →
        ∃ x, ofBeats x numerator pickup = .ok ⟨bar, beat, x⟩) ∧
      (∀ x y p q, ofBeats x numerator pickup = .ok p → ofBeats y numerator pickup = .ok q →
        (x < y ↔ p.Before q)) ∧
      (0 ≤ pickup → ∀ m, TempoMap.Built m → ∀ bar, 1 ≤ bar →
        m.positionAt (m.secondsAt (downbeat bar numerator pickup)) numerator pickup =
          .ok ⟨bar, 1, downbeat bar numerator pickup⟩) := by
  have hNumbers {x : Rat} {p : GridPosition Rat} (h : ofBeats x numerator pickup = .ok p) :
      Numbers numerator pickup x p := by
    rw [ofBeats_eq_split hBar] at h
    exact Except.ok.inj h ▸ numbers_split hBar pickup x
  refine ⟨fun x => ?_, fun bar beat hPlace => ?_, fun x y p q hp hq => ?_,
    fun hPickup m hMap bar hFirst => ?_⟩
  · have hSplit := numbers_split hBar pickup x
    exact ⟨_, ofBeats_eq_split hBar pickup x, hSplit, hSplit.isPlace⟩
  · have hSplit := split_eq_of_numbers hBar (numbers_of_isPlace pickup hPlace)
    exact ⟨_, (ofBeats_eq_split hBar pickup _).trans (congrArg _ hSplit)⟩
  · exact (hNumbers hp).lt_iff_before (hNumbers hq)
  · have hMeets := hMap.isLine.meets_secondsAt (downbeat_nonneg numerator pickup hPickup bar)
    rw [TempoMap.positionAt, hMeets.beatsAt_eq hMap.isLine, ofBeats_eq_split hBar,
      split_downbeat hBar hFirst]

/-- Bars of three beats behind a pickup of one. The tempo changes in bar 1, and bar 3 starts on
beat 7 all the same. -/
theorem ofBeats_numbers_tempo_change :
    0 < 3 ∧ (∃ x : Rat, ofBeats x 3 1 = .ok ⟨0, 1 / 2, x⟩) ∧
      (TempoMap.ofTickTempos 480 [(0, (120 : Rat)), (720, 60)]).positionAt
        ((TempoMap.ofTickTempos 480 [(0, 120), (720, 60)]).secondsAt 7) 3 1 = .ok ⟨3, 1, 7⟩ := by
  have hBar : 0 < 3 := by decide
  obtain ⟨-, hPlaces, -, hDownbeats⟩ := ofBeats_numbers hBar 1
  have hStart : downbeat 3 3 (1 : Rat) = 7 := by norm_num [downbeat_eq]
  have hBack := hDownbeats zero_le_one _ (.ofTickTempos 480 [(0, 120), (720, 60)]) 3 (by decide)
  rw [hStart] at hBack
  exact ⟨hBar, hPlaces 0 (1 / 2) (.inl ⟨rfl, by norm_num⟩), hBack⟩

end LeadSheet.GridPosition
