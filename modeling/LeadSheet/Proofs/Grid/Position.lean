import LeadSheet.Proofs.Grid.Sounding
import LeadSheet.Proofs.Tempo.Ticks

/-!
# One place for each chord row

Bar and beat of a row are rounded in the bar, the beat of the song is rounded in the song. Where a
bar is a whole number of quarter beats, both ways end at the same place, also when the beat is
rounded up to the bar line. Rounding keeps the order of ticks, so rows follow each other by bar and
beat, by beats and by time.
-/

namespace LeadSheet
set_option autoImplicit false

namespace Grid

/-- A row that names one place by bar and beat and by beats, and lasts long enough to be seen. -/
structure Coherent (beatsPerBar : Rat) (row : Row Rat) : Prop where
  bar_pos : 1 ≤ row.bar
  one_le_beat : 1 ≤ row.beat
  beat_lt : row.beat < beatsPerBar + 1
  place : writtenStart beatsPerBar row = row.beatAbs
  durBeats : ∃ dur, row.durBeats = some dur ∧ 1 / 8 ≤ dur
  dur : ∃ dur, row.dur = some dur ∧ 1 / 4 ≤ dur

/-- The row of an event: its symbol, its time, and its tick in beats. -/
structure Tells (ppqn : Nat) (tempo : TempoMap Rat) (e : ChordEvent) (row : Row Rat) : Prop where
  kind : row.kind = .chord
  chord : row.chord = some e.symbol
  time : row.time = Scalar.thousandths (tempo.secondsAtTick e.tick ppqn)
  near : |row.beatAbs - e.tick / (max ppqn 1 : Nat)| ≤ 41 / 2000

/-- A row that stands no later than another, by bar and beat, by beats and by time. -/
structure UpTo (row next : Row Rat) : Prop where
  place : row.bar < next.bar ∨ row.bar = next.bar ∧ row.beat ≤ next.beat
  beatAbs : row.beatAbs ≤ next.beatAbs
  time : row.time ≤ next.time

section Beat

variable {beatsPerBar : Rat}

/-- A beat of a bar is rounded into the bar, at most up to the next bar line. -/
theorem snapBeat_beatIn_bounds (start : Rat) (h : 0 < beatsPerBar)
    (hBar : ∃ n : Int, beatsPerBar = n / 4) :
    1 ≤ snapBeat (beatIn beatsPerBar start) ∧
      snapBeat (beatIn beatsPerBar start) ≤ beatsPerBar + 1 := by
  obtain ⟨n, hn⟩ := hBar
  have hStep : (0 : Rat) < 1 / 4 := by norm_num
  have hNarrow : (1 / 50 : Rat) < 1 / 4 / 2 := by norm_num
  have hLow := Scalar.mul_floor_div_le h start
  have hHigh := Scalar.lt_mul_floor_div_add_one h start
  have hLine : snapWithin (beatsPerBar + 1) (1 / 4) (1 / 50) = beatsPerBar + 1 := by
    have hWhole : beatsPerBar + 1 = (n + 4 : Int) * (1 / 4) := by
      rw [hn]
      push_cast
      ring
    rw [hWhole]
    exact snapWithin_mul hStep hNarrow (by norm_num) _
  have hOne : snapWithin (1 : Rat) (1 / 4) (1 / 50) = 1 := by
    rw [← snapBeat_eq_quarter, IsEighths.one.snapBeat_eq_self]
  rw [snapBeat_eq_quarter, beatIn]
  constructor
  · exact hOne.ge.trans (snapWithin_mono hStep hNarrow (by linarith))
  · exact (snapWithin_mono hStep hNarrow (by linarith)).trans hLine.le

/-- Rounding in the song is rounding in the bar, a whole number of bars later. -/
theorem thousandths_snapWithin_eq {start : Rat} (h : 0 < beatsPerBar)
    (hBar : ∃ n : Int, beatsPerBar = n / 4) (hStart : 0 ≤ start) :
    Scalar.thousandths (snapWithin start (1 / 4) (1 / 50)) =
      Scalar.thousandths (snapBeat (beatIn beatsPerBar start)) +
        (beatsPerBar * ⌊start / beatsPerBar⌋ - 1) := by
  have hBounds := snapBeat_beatIn_bounds start h hBar
  have hBars : (0 : Rat) ≤ ⌊start / beatsPerBar⌋ := by
    exact_mod_cast Int.floor_nonneg.mpr (div_nonneg hStart h.le)
  have hBefore := mul_nonneg h.le hBars
  obtain ⟨n, hn⟩ := hBar
  have hQuarters : beatsPerBar * ⌊start / beatsPerBar⌋ - 1 =
      (n * ⌊start / beatsPerBar⌋ - 4 : Int) * (1 / 4) := by
    rw [hn]
    push_cast
    ring
  have hEighths : IsEighths (beatsPerBar * ⌊start / beatsPerBar⌋ - 1) := by
    rw [hQuarters]
    exact .quarters _
  have hSong : snapWithin start (1 / 4) (1 / 50) =
      snapBeat (beatIn beatsPerBar start) + (beatsPerBar * ⌊start / beatsPerBar⌋ - 1) := by
    have hSplit : start =
        beatIn beatsPerBar start + (beatsPerBar * ⌊start / beatsPerBar⌋ - 1) := by
      rw [beatIn]
      ring
    rw [hQuarters] at hSplit ⊢
    rw [snapBeat_eq_quarter, ← snapWithin_add_mul _ (by norm_num) (by norm_num), ← hSplit]
  rw [hSong, hEighths.thousandths_add (by linarith) (by linarith)]

end Beat

section Row

variable (ppqn next : Nat) {beatsPerBar : Rat} (tempo : TempoMap Rat) (e : ChordEvent)

theorem beatAbs_chordRow (beatsPerBar : Rat) :
    (chordRow ppqn beatsPerBar tempo e next).beatAbs =
      Scalar.thousandths (snapWithin ((e.tick : Rat) / ppqn) (1 / 4) (1 / 50)) := by
  have hQuarter : (0.25 : Rat) = 1 / 4 := by norm_num
  have hNear : (0.02 : Rat) = 1 / 50 := by norm_num
  rw [← hQuarter, ← hNear]
  rfl

theorem eighth_le_durBeats_chordRow (h : 0 < beatsPerBar) :
    ∃ dur, (chordRow ppqn beatsPerBar tempo e next).durBeats = some dur ∧ 1 / 8 ≤ dur := by
  refine ⟨_, rfl, ?_⟩
  have hEighth : IsEighths (1 / 8) := ⟨1, by norm_num⟩
  rw [← hEighth.thousandths_eq]
  exact thousandths_mono (eighth_le_quantizeDuration _ h)

theorem quarter_le_dur_chordRow (beatsPerBar : Rat) :
    ∃ dur, (chordRow ppqn beatsPerBar tempo e next).dur = some dur ∧ 1 / 4 ≤ dur := by
  refine ⟨_, rfl, ?_⟩
  have hQuarter : (minDuration : Rat) = 1 / 4 := by
    change (0.25 : Rat) = 1 / 4
    norm_num
  rw [Scalar.larger_eq_max, hQuarter]
  exact le_max_right _ _

theorem coherent_chordRow (h : 0 < beatsPerBar) (hBar : ∃ n : Int, beatsPerBar = n / 4) :
    Coherent beatsPerBar (chordRow ppqn beatsPerBar tempo e next) := by
  have hStart : (0 : Rat) ≤ e.tick / ppqn := by positivity
  have hRow := bar_beat_chordRow ppqn next tempo e h rfl
  have hAbs := beatAbs_chordRow ppqn next tempo e beatsPerBar
  have hDurBeats := eighth_le_durBeats_chordRow ppqn next tempo e h
  have hDur := quarter_le_dur_chordRow ppqn next tempo e beatsPerBar
  generalize chordRow ppqn beatsPerBar tempo e next = row at *
  generalize (e.tick : Rat) / ppqn = start at *
  rw [thousandths_snapWithin_eq h hBar hStart] at hAbs
  obtain ⟨hOne, hLine⟩ := snapBeat_beatIn_bounds start h hBar
  have hBars : 0 ≤ ⌊start / beatsPerBar⌋ := Int.floor_nonneg.mpr (div_nonneg hStart h.le)
  obtain ⟨n, hn⟩ := hBar
  have hWhole : beatsPerBar + 1 = (n + 4 : Int) * (1 / 4) := by
    rw [hn]
    push_cast
    ring
  rcases hRow with ⟨hInside, hRowBar, hRowBeat⟩ | ⟨hCarried, hRowBar, hRowBeat⟩
  · have hBeat : 1 ≤ row.beat := by
      rw [hRowBeat, ← IsEighths.one.thousandths_eq]
      exact thousandths_mono hOne
    -- a beat that was not rounded up to the line is too far from it to be written as the line
    have hClear : snapBeat (beatIn beatsPerBar start) ≤ beatsPerBar + 1 - 1 / 50 := by
      rw [snapBeat_eq_quarter, hWhole] at hInside ⊢
      exact snapWithin_le_sub (by norm_num) (by norm_num) hInside
    have hNear := abs_le.mp (abs_thousandths_sub_le (snapBeat (beatIn beatsPerBar start)))
    refine ⟨by omega, hBeat, by linarith, ?_, hDurBeats, hDur⟩
    rw [writtenStart, hRowBar, hRowBeat, hAbs]
    push_cast
    ring
  · have hUp : snapBeat (beatIn beatsPerBar start) = beatsPerBar + 1 := le_antisymm hLine hCarried
    have hEighths : IsEighths (beatsPerBar + 1) := by
      rw [hWhole]
      exact .quarters _
    refine ⟨by omega, hRowBeat.ge, by linarith, ?_, hDurBeats, hDur⟩
    rw [writtenStart, hRowBar, hRowBeat, hAbs, hUp, hEighths.thousandths_eq]
    push_cast
    ring

theorem tells_chordRow (h : 1 ≤ ppqn) (beatsPerBar : Rat) :
    Tells ppqn tempo e (chordRow ppqn beatsPerBar tempo e next) where
  kind := rfl
  chord := rfl
  time := rfl
  near := by
    have hStep : (0 : Rat) < 1 / 4 := by norm_num
    have hNear : (0 : Rat) ≤ 1 / 50 := by norm_num
    rw [max_eq_left h, beatAbs_chordRow, abs_le]
    generalize (e.tick : Rat) / ppqn = start
    have hSnap := abs_le.mp (abs_snapWithin_sub_le start hStep hNear)
    have hRound := abs_le.mp (abs_thousandths_sub_le (snapWithin start (1 / 4) (1 / 50)))
    constructor <;> linarith

end Row

/-- Beats in the song say which of two rows stands first by bar and beat. -/
theorem Coherent.place_le {beatsPerBar : Rat} {r s : Row Rat} (h : 0 < beatsPerBar)
    (hr : Coherent beatsPerBar r) (hs : Coherent beatsPerBar s) (hle : r.beatAbs ≤ s.beatAbs) :
    r.bar < s.bar ∨ r.bar = s.bar ∧ r.beat ≤ s.beat := by
  rw [← hr.place, ← hs.place, writtenStart, writtenStart] at hle
  have hBeat := hr.one_le_beat
  have hLine := hs.beat_lt
  rcases lt_trichotomy r.bar s.bar with hlt | hEq | hgt
  · exact .inl hlt
  · rw [hEq] at hle
    exact .inr ⟨hEq, by linarith⟩
  · have hBars : (s.bar : Rat) + 1 ≤ r.bar := by exact_mod_cast Int.add_one_le_of_lt hgt
    have hMul := mul_le_mul_of_nonneg_right hBars h.le
    linarith

theorem anchored_eq (events : List ChordEvent) :
    anchored events =
      (if 0 < events.head?.elim 0 (·.tick) then [⟨0, Chord.noChord, .text⟩] else []) ++ events := by
  cases events with
  | nil => rfl
  | cons e events =>
    rw [anchored, List.head?_cons, Option.elim_some]
    by_cases hLate : 0 < e.tick
    · rw [if_pos hLate, if_pos hLate, List.singleton_append]
    · rw [if_neg hLate, if_neg hLate, List.nil_append]

theorem pairwise_anchored {events : List ChordEvent}
    (h : events.Pairwise fun e f => e.tick ≤ f.tick) :
    (anchored events).Pairwise fun e f => e.tick ≤ f.tick := by
  rw [anchored_eq]
  refine List.pairwise_append.mpr ⟨?_, h, ?_⟩
  · split
    · exact List.pairwise_singleton _ _
    · exact List.Pairwise.nil
  · intro e he f _
    split at he
    · cases List.mem_singleton.mp he
      exact Nat.zero_le _
    · cases he

theorem chordRows_eq_map {events : List ChordEvent} (ppqn : Nat) (meter : Meter)
    (tempo : TempoMap Rat) (h : events.Pairwise fun e f => e.tick ≤ f.tick) :
    chordRows events ppqn meter tempo =
      (Span.ofEvents (meter.ticksPerBar Rat (max ppqn 1)) (anchored events)).map
        (Span.row (max ppqn 1) meter.beatsPerBar tempo) :=
  Span.rowsFrom_eq_map (pairwise_anchored h)

/-- Each event has one row, a song that starts late one more that says so. Every row stands at one
place however it is read, and none stands before the row in front of it. -/
theorem coherent_chordRows {events : List ChordEvent} {ppqn : Nat} {meter : Meter}
    (hEvents : events.Pairwise fun e f => e.tick ≤ f.tick) (hPpqn : 1 ≤ ppqn)
    (hMeter : 1 ≤ meter.numerator) (hBar : ∃ n : Int, (meter.beatsPerBar : Rat) = n / 4)
    (tempos : List (Nat × Rat)) :
    List.Forall₂ (Tells ppqn (TempoMap.ofTickTempos ppqn tempos))
        ((if 0 < events.head?.elim 0 (·.tick) then [⟨0, Chord.noChord, .text⟩] else []) ++ events)
        (chordRows events ppqn meter (TempoMap.ofTickTempos ppqn tempos)) ∧
      (∀ row ∈ chordRows events ppqn meter (TempoMap.ofTickTempos ppqn tempos),
        Coherent meter.beatsPerBar row) ∧
      (chordRows events ppqn meter (TempoMap.ofTickTempos ppqn tempos)).Pairwise UpTo := by
  have hPos := Meter.beatsPerBar_pos hMeter
  have hSorted := pairwise_anchored hEvents
  rw [← anchored_eq, chordRows_eq_map ppqn meter _ hEvents, max_eq_left hPpqn]
  generalize hTempo : TempoMap.ofTickTempos ppqn tempos = tempo
  generalize anchored events = events at hSorted
  have hMap := Span.map_event_ofEvents (meter.ticksPerBar Rat ppqn) events
  generalize Span.ofEvents (meter.ticksPerBar Rat ppqn) events = spans at hMap
  have hCoherent (x : Span) : Coherent meter.beatsPerBar (x.row ppqn meter.beatsPerBar tempo) :=
    coherent_chordRow ppqn x.stop tempo x.event hPos hBar
  rw [← hMap] at hSorted ⊢
  refine ⟨?_, ?_, ?_⟩
  · rw [List.forall₂_map_left_iff, List.forall₂_map_right_iff, List.forall₂_same]
    intro x _
    exact tells_chordRow ppqn x.stop tempo x.event hPpqn meter.beatsPerBar
  · intro row hRow
    obtain ⟨x, _, rfl⟩ := List.mem_map.mp hRow
    exact hCoherent x
  · rw [List.pairwise_map] at hSorted ⊢
    refine hSorted.imp fun {x y} hle => ?_
    have hTime := (TempoMap.secondsAtTick_strictMono ppqn tempos).monotone hle
    have hBeats : ((x.event.tick : Nat) : Rat) / ppqn ≤ y.event.tick / ppqn :=
      div_le_div_of_nonneg_right (by exact_mod_cast hle) (by positivity)
    have hAbs : (x.row ppqn meter.beatsPerBar tempo).beatAbs ≤
        (y.row ppqn meter.beatsPerBar tempo).beatAbs := by
      rw [Span.row, Span.row, beatAbs_chordRow, beatAbs_chordRow]
      exact thousandths_mono (snapWithin_mono (by norm_num) (by norm_num) hBeats)
    refine ⟨(hCoherent x).place_le hPos (hCoherent y) hAbs, hAbs, ?_⟩
    rw [← hTempo]
    exact thousandths_mono hTime

/-- A tick just below the bar line of 3/8 is the first beat of the next bar both ways. -/
theorem coherent_chordRows_below_line :
    (chordRows [⟨149, "C", .text⟩, ⟨260, "G", .text⟩] 100 ⟨3, 8⟩
        (TempoMap.ofTickTempos 100 [])).map
          (fun r : Row Rat => (r.bar, r.beat, r.beatAbs, r.chord)) =
          [(1, 1, 0, some "N.C."), (2, 1, 3 / 2, some "C"), (2, 21 / 10, 13 / 5, some "G")] ∧
      (∀ row ∈ chordRows [⟨149, "C", .text⟩, ⟨260, "G", .text⟩] 100 ⟨3, 8⟩
        (TempoMap.ofTickTempos 100 []), Coherent (Meter.beatsPerBar ⟨3, 8⟩) row) ∧
      (chordRows [⟨149, "C", .text⟩, ⟨260, "G", .text⟩] 100 ⟨3, 8⟩
        (TempoMap.ofTickTempos 100 [])).Pairwise UpTo := by
  have hBar : (Meter.beatsPerBar ⟨3, 8⟩ : Rat) = (6 : Int) / 4 := by decide +kernel
  have hRows := @coherent_chordRows [⟨149, "C", .text⟩, ⟨260, "G", .text⟩] 100 ⟨3, 8⟩
    (by decide) (by decide) (by decide) ⟨6, hBar⟩ []
  exact ⟨by decide +kernel, hRows.2⟩

end Grid

end LeadSheet
