import LeadSheet.Proofs.Grid.Position
import LeadSheet.Proofs.Grid.Resnapping
import LeadSheet.Proofs.Midi.Sources

/-!
# A song without chords

A song that says no chord has one event for each bar line. Where the grid of eighth beats does not
meet a bar line, the first snapping may leave its event beside it, but less than half a grid step
away, and no two events meet; so all of them count as near, and the second snapping brings each one
back. Their rows are the first beats of the bars, one after the other.
-/

namespace LeadSheet
set_option autoImplicit false

namespace Grid

variable {step bar line : Nat}

theorem distance_self (tick : Nat) : distance tick tick = 0 := by
  rw [distance, Nat.sub_self]

theorem distance_halfUp_le_half (hStep : 0 < step) (tick : Nat) :
    2 * distance (halfUp tick step) tick ≤ step := by
  obtain ⟨hUp, hDown⟩ := halfUp_bounds hStep tick
  unfold distance
  omega

section Line

variable (hStep : 0 < step) (hLong : step ≤ bar) (hLine : bar ∣ line)

include hStep hLong hLine

/-- A bar line is the nearest one to the tick of the grid that is nearest to it. -/
theorem halfUp_halfUp_of_dvd : halfUp (halfUp line step) bar = line := by
  obtain ⟨hUp, hDown⟩ := halfUp_bounds hStep line
  rcases hLong.lt_or_eq with hlt | rfl
  · exact halfUp_eq hLine (by omega) (by omega)
  · rw [halfUp_of_dvd hStep hLine, halfUp_of_dvd hStep hLine]

theorem pull_halfUp_cases (window : Nat) :
    pull bar window (halfUp line step) = line ∨
      pull bar window (halfUp line step) = halfUp line step := by
  unfold pull
  split
  · exact .inl (halfUp_halfUp_of_dvd hStep hLong hLine)
  · exact .inr rfl

theorem halfUp_bar_pull (window : Nat) :
    halfUp (pull bar window (halfUp line step)) bar = line := by
  rcases pull_halfUp_cases hStep hLong hLine window with hEq | hEq
  · rw [hEq, halfUp_of_dvd (by omega) hLine]
  · rw [hEq, halfUp_halfUp_of_dvd hStep hLong hLine]

theorem halfUp_step_pull (window : Nat) :
    halfUp (pull bar window (halfUp line step)) step = halfUp line step := by
  rcases pull_halfUp_cases hStep hLong hLine window with hEq | hEq
  · rw [hEq]
  · rw [hEq, halfUp_halfUp hStep]

theorem distance_pull_le (window : Nat) :
    2 * distance line (pull bar window (halfUp line step)) ≤ step := by
  rcases pull_halfUp_cases hStep hLong hLine window with hEq | hEq
  · rw [hEq, distance_self]
    omega
  · rw [hEq, distance_comm]
    exact distance_halfUp_le_half hStep line

theorem pull_eq_line {window : Nat} (hNear : distance line (halfUp line step) ≤ window) :
    pull bar window (halfUp line step) = line := by
  rw [pull, halfUp_halfUp_of_dvd hStep hLong hLine, if_pos hNear]

end Line

end Grid

namespace ChordEvent

theorem symbol_barLine (tick : Nat) : (barLine tick).symbol = Chord.noChord := by
  change Chord.spellOrNone Chord.noChord = Chord.noChord
  decide +kernel

theorem sorted_barLines {ticks : List Nat} (h : ticks.Pairwise (· < ·)) :
    sorted (ticks.map barLine) = ticks.map barLine := by
  apply sorted_of_pairwise
  exact List.pairwise_map.mpr h

/-- Bar lines that go to different ticks are only moved. -/
theorem snapToDownbeats_barLines {ppqn : Nat} {meter : Meter} {snapBeats : Rat} {ticks : List Nat}
    (h : (ticks.map (downbeatTick ppqn meter snapBeats)).Pairwise (· < ·)) :
    snapToDownbeats (ticks.map barLine) ppqn meter snapBeats =
      (ticks.map (downbeatTick ppqn meter snapBeats)).map barLine := by
  have hTicks : ticks.Pairwise (· < ·) := by
    refine (List.pairwise_map.mp h).imp fun {s t} hlt => ?_
    by_contra hle
    exact absurd hlt (not_lt.mpr (downbeatTick_mono ppqn meter snapBeats (not_lt.mp hle)))
  have hMoved : moved ppqn meter snapBeats (ticks.map barLine) =
      (ticks.map (downbeatTick ppqn meter snapBeats)).map barLine := by
    rw [moved, sorted_barLines hTicks, List.map_map, List.map_map]
    rfl
  rw [← hMoved]
  apply snapToDownbeats_eq_moved
  · rw [hMoved]
    exact List.pairwise_map.mpr h
  · rw [hMoved]
    refine List.Pairwise.isChain (List.pairwise_map.mpr (List.pairwise_of_forall fun s t => ?_))
    rfl

section Lines

variable {ppqn bar line : Nat} {meter : Meter} (hBar : meter.ticksPerBar Rat ppqn = bar)
  (hLong : max (ppqn / 8) 1 ≤ bar)

theorem le_windowTicks {d : Nat} {snapBeats : Rat} (h : 16 * d ≤ ppqn)
    (hWide : 9 / 10 ≤ snapBeats) : d ≤ Grid.windowTicks ppqn snapBeats := by
  have hCast : (16 : Rat) * d ≤ ppqn := by exact_mod_cast h
  have hWindow := mul_le_mul_of_nonneg_left hWide (Nat.cast_nonneg ppqn)
  have hFloor : (d : Int) ≤ ⌊(ppqn : Rat) * snapBeats + 1 / 2⌋ := by
    rw [Int.le_floor]
    push_cast
    linarith
  rw [Grid.windowTicks]
  omega

theorem nearDownbeats_eq_length {events : List ChordEvent}
    (h : ∀ e ∈ events,
      16 * Grid.distance (Grid.halfUp e.tick (meter.ticksPerBar Rat ppqn)) e.tick ≤ ppqn) :
    nearDownbeats events ppqn meter Rat = events.length := by
  have hAll : events.filter (fun e => decide (Grid.distance (Grid.nearestMultiple Rat e.tick
      (meter.ticksPerBar Rat ppqn)) e.tick ≤
        Scalar.toNat (Scalar.ofNat ppqn * (tightenBeats : Rat)))) = events := by
    rw [List.filter_eq_self]
    intro e he
    have hNear := h e he
    rw [Grid.nearestMultiple_eq_halfUp (meter.ticksPerBar_pos ppqn), decide_eq_true_eq]
    generalize Grid.distance _ e.tick = d at hNear
    have hCast : (16 : Rat) * d ≤ ppqn := by exact_mod_cast hNear
    have hFloor : (d : Int) ≤ ⌊(ppqn : Rat) * (0.9 : Rat)⌋ := by
      rw [Int.le_floor]
      push_cast
      linarith
    change d ≤ Scalar.toNat ((ppqn : Rat) * (0.9 : Rat))
    rw [Scalar.toNat_eq_floor]
    omega
  exact congrArg List.length hAll

/-- Events that all lie near bar lines are snapped twice. -/
theorem adaptiveSnap_of_near {snapBeats : Rat} {events : List ChordEvent} (hPos : 0 < snapBeats)
    (hSome : snapToDownbeats events ppqn meter snapBeats ≠ [])
    (hNear : nearDownbeats (snapToDownbeats events ppqn meter snapBeats) ppqn meter Rat =
      (snapToDownbeats events ppqn meter snapBeats).length) :
    adaptiveSnap events ppqn meter snapBeats =
      snapToDownbeats (snapToDownbeats events ppqn meter snapBeats) ppqn meter
        (max snapBeats (9 / 10)) := by
  have hWide : Scalar.larger snapBeats (tightenBeats : Rat) = max snapBeats (9 / 10) := by
    have hTighten : (tightenBeats : Rat) = 9 / 10 := by
      change (0.9 : Rat) = 9 / 10
      norm_num
    rw [Scalar.larger_eq_max, hTighten]
  rw [adaptiveSnap, if_neg (not_le.mpr hPos)]
  simp only [mostlyNear, hNear, hWide]
  generalize snapToDownbeats events ppqn meter snapBeats = snapped at hSome
  have hLength : (snapped.length : Rat) ≠ 0 :=
    Nat.cast_ne_zero.mpr (List.length_pos_iff.mpr hSome).ne'
  have hRatio : (tightenRatio : Rat) ≤ snapped.length / snapped.length := by
    rw [div_self hLength]
    change (0.7 : Rat) ≤ 1
    norm_num
  rw [if_pos]
  rw [Bool.and_eq_true, Bool.not_eq_true', List.isEmpty_eq_false_iff, decide_eq_true_eq]
  exact ⟨hSome, hRatio⟩

include hBar hLong

theorem halfUp_downbeatTick (snapBeats : Rat) (hLine : bar ∣ line) :
    Grid.halfUp (downbeatTick ppqn meter snapBeats line) bar = line := by
  rw [downbeatTick, hBar]
  exact Grid.halfUp_bar_pull (by omega) hLong hLine _

theorem distance_downbeatTick_le (snapBeats : Rat) (hLine : bar ∣ line) :
    16 * Grid.distance line (downbeatTick ppqn meter snapBeats line) ≤ ppqn := by
  have hHalf := Grid.distance_pull_le (by omega) hLong hLine (Grid.windowTicks ppqn snapBeats)
  rw [downbeatTick, hBar]
  omega

/-- A wide window pulls a bar line back from wherever the first snapping left it. -/
theorem downbeatTick_downbeatTick_line (narrow : Rat) {wide : Rat} (hWide : 9 / 10 ≤ wide)
    (hLine : bar ∣ line) :
    downbeatTick ppqn meter wide (downbeatTick ppqn meter narrow line) = line := by
  have hStep : 0 < max (ppqn / 8) 1 := by omega
  have hHalf := Grid.distance_halfUp_le_half hStep line
  have hNear : 16 * Grid.distance line (Grid.halfUp line (max (ppqn / 8) 1)) ≤ ppqn := by
    rw [Grid.distance_comm]
    omega
  unfold downbeatTick
  rw [hBar, Grid.halfUp_step_pull hStep hLong hLine]
  exact Grid.pull_eq_line hStep hLong hLine (le_windowTicks hNear hWide)

theorem pairwise_downbeatTick (snapBeats : Rat) {ticks : List Nat} (hTicks : ticks.Pairwise (· < ·))
    (hLines : ∀ tick ∈ ticks, bar ∣ tick) :
    (ticks.map (downbeatTick ppqn meter snapBeats)).Pairwise (· < ·) := by
  rw [List.pairwise_map]
  refine hTicks.imp_of_mem fun {s t} hs ht hlt => ?_
  refine lt_of_le_of_ne (downbeatTick_mono ppqn meter snapBeats hlt.le) fun hEq => hlt.ne ?_
  rw [← halfUp_downbeatTick hBar hLong snapBeats (hLines s hs), hEq,
    halfUp_downbeatTick hBar hLong snapBeats (hLines t ht)]

theorem adaptiveSnap_barLines (snapBeats : Rat) {ticks : List Nat} (hSome : ticks ≠ [])
    (hTicks : ticks.Pairwise (· < ·)) (hLines : ∀ tick ∈ ticks, bar ∣ tick) :
    adaptiveSnap (ticks.map barLine) ppqn meter snapBeats = ticks.map barLine := by
  rcases le_or_gt snapBeats 0 with hNone | hPos
  · rw [adaptiveSnap, if_pos hNone, sorted_barLines hTicks]
  · have hOnce :=
      snapToDownbeats_barLines (pairwise_downbeatTick hBar hLong snapBeats hTicks hLines)
    -- the first pass moves no line to the next one, and the second pass has the wider window
    have hBack : (ticks.map (downbeatTick ppqn meter snapBeats)).map
        (downbeatTick ppqn meter (max snapBeats (9 / 10))) = ticks := by
      rw [List.map_map]
      refine (List.map_congr_left fun tick hTick => ?_).trans (List.map_id ticks)
      exact downbeatTick_downbeatTick_line hBar hLong _ (le_max_right _ _) (hLines tick hTick)
    rw [adaptiveSnap_of_near hPos, hOnce, snapToDownbeats_barLines (hBack.symm ▸ hTicks), hBack]
    · rw [hOnce]
      simpa using hSome
    · apply nearDownbeats_eq_length
      intro e he
      rw [hOnce, List.map_map] at he
      obtain ⟨tick, hTick, rfl⟩ := List.mem_map.mp he
      have hLine := hLines tick hTick
      change 16 * Grid.distance (Grid.halfUp (downbeatTick ppqn meter snapBeats tick) _)
        (downbeatTick ppqn meter snapBeats tick) ≤ ppqn
      rw [hBar, halfUp_downbeatTick hBar hLong snapBeats hLine]
      exact distance_downbeatTick_le hBar hLong snapBeats hLine

end Lines

end ChordEvent

namespace Grid

section Rows

variable {ppqn bar : Nat} {meter : Meter} (hBar : (ppqn : Rat) * meter.beatsPerBar = bar)
  (hPos : 0 < bar)

include hBar hPos

theorem pos_of_whole_bar : (0 : Rat) < ppqn ∧ 0 < (meter.beatsPerBar : Rat) := by
  have hTicks : (0 : Rat) < ppqn * meter.beatsPerBar := by
    rw [hBar]
    exact_mod_cast hPos
  exact (pos_and_pos_or_neg_and_neg_of_mul_pos hTicks).resolve_right fun hNeg =>
    absurd hNeg.1 (not_lt.mpr (Nat.cast_nonneg ppqn))

theorem chordRow_barLine (tempo : TempoMap Rat) (next i : Nat) :
    (chordRow ppqn meter.beatsPerBar tempo (.barLine (i * bar)) next).bar = i + 1 ∧
      (chordRow ppqn meter.beatsPerBar tempo (.barLine (i * bar)) next).beat = 1 := by
  obtain ⟨hPpqn, hBeats⟩ := pos_of_whole_bar hBar hPos
  have hStart : (i : Rat) * meter.beatsPerBar = (ChordEvent.barLine (i * bar)).tick / ppqn := by
    change _ = ((i * bar : Nat) : Rat) / ppqn
    rw [Nat.cast_mul, ← hBar]
    field_simp
  have hFloor : ⌊(i : Rat) * meter.beatsPerBar / meter.beatsPerBar⌋ = i := by
    rw [mul_div_cancel_right₀ _ hBeats.ne', Int.floor_natCast]
  have hBeat : beatIn meter.beatsPerBar (i * meter.beatsPerBar) = 1 := by
    rw [beatIn, hFloor, Int.cast_natCast, mul_comm, sub_self, zero_add]
  have hRow := bar_beat_chordRow ppqn next tempo (.barLine (i * bar)) hBeats hStart
  rw [hFloor, hBeat, IsEighths.one.snapBeat_eq_self, IsEighths.one.thousandths_eq] at hRow
  -- beat 1 lies below the bar line, so it is not carried
  rcases hRow with ⟨-, hRow⟩ | ⟨hCarried, -⟩
  · exact hRow
  · linarith

/-- The rows of bar lines are the first beats of bars that are numbered from 1. -/
theorem chordRows_barLines (tempo : TempoMap Rat) (count : Nat) :
    (chordRows ((List.range count).map fun i => .barLine (i * bar)) ppqn meter tempo).map
        (fun row => (row.bar, row.beat, row.chord)) =
      (List.range count).map fun i : Nat => ((i : Int) + 1, 1, some Chord.noChord) := by
  have hPpqn : 1 ≤ ppqn := by exact_mod_cast (pos_of_whole_bar hBar hPos).1
  have hOrder : ((List.range count).map fun i => ChordEvent.barLine (i * bar)).Pairwise
      fun e f => e.tick ≤ f.tick := by
    rw [List.pairwise_map]
    exact List.pairwise_lt_range.imp fun hlt => Nat.mul_le_mul_right bar hlt.le
  -- the first bar line is tick 0, so no row is put in front of it
  have hFirst : anchored ((List.range count).map fun i => .barLine (i * bar)) =
      (List.range count).map fun i => .barLine (i * bar) := by
    cases count with
    | zero => rfl
    | succ count =>
      rw [List.range_succ_eq_map, List.map_cons, anchored, if_neg]
      change ¬ 0 < 0 * bar
      omega
  have hEvents := Span.map_event_ofEvents (meter.ticksPerBar Rat ppqn)
    ((List.range count).map fun i => .barLine (i * bar))
  have hRow : ∀ x ∈ Span.ofEvents (meter.ticksPerBar Rat ppqn)
      ((List.range count).map fun i => .barLine (i * bar)),
      ((x.row ppqn meter.beatsPerBar tempo).bar, (x.row ppqn meter.beatsPerBar tempo).beat,
        (x.row ppqn meter.beatsPerBar tempo).chord) =
          (((x.event.tick / bar : Nat) : Int) + 1, 1, some Chord.noChord) := by
    intro x hx
    obtain ⟨i, -, hi⟩ := List.mem_map.mp (Span.mem_of_mem_ofEvents hx).1
    obtain ⟨hRowBar, hRowBeat⟩ := chordRow_barLine hBar hPos tempo x.stop i
    have hChord : (x.row ppqn meter.beatsPerBar tempo).chord = some x.event.symbol := rfl
    have hTick : (ChordEvent.barLine (i * bar)).tick / bar = i := Nat.mul_div_cancel i hPos
    rw [hChord, Span.row, ← hi, hRowBar, hRowBeat, hTick, ChordEvent.symbol_barLine]
  rw [chordRows_eq_map ppqn meter tempo hOrder, hFirst, max_eq_left hPpqn, List.map_map]
  have hNumbers := congrArg (List.map fun e : ChordEvent =>
    (((e.tick / bar : Nat) : Int) + 1, (1 : Rat), some Chord.noChord)) hEvents
  rw [List.map_map, List.map_map] at hNumbers
  refine ((List.map_congr_left hRow).trans hNumbers).trans (List.map_congr_left fun i _ => ?_)
  change ((((i * bar) / bar : Nat) : Int) + 1, _, _) = _
  rw [Nat.mul_div_cancel i hPos]

end Rows

end Grid

namespace Recording

/-- A recording without chords has one event for each bar line up to its end. Snapping leaves them
where they are, however wide the window is, and each is the row of the first beat of its bar. -/
theorem chordEvents_of_no_chords {r : Recording Rat} {settings : MidiSettings Rat} {bar : Nat}
    (hTexts : ∀ e ∈ r.texts, e.kind ≠ .lyric → ChordSymbol.isLabel (Text.trimmed e.text) = false)
    (hNotes : r.inferredChords settings = []) (hLength : 0 < r.maxTick)
    (hMin : 1 ≤ settings.minTextChords) (hBar : (r.ppqn : Rat) * r.meter.beatsPerBar = bar)
    (hLong : max (r.ppqn / 8) 1 ≤ bar) (snapBeats : Rat) (tempo : TempoMap Rat) :
    r.chordEvents settings =
        (List.range (r.maxTick / bar + 1)).map (fun i => .barLine (i * bar)) ∧
      ChordEvent.adaptiveSnap (r.chordEvents settings) r.ppqn r.meter snapBeats =
        r.chordEvents settings ∧
      (Grid.chordRows (ChordEvent.adaptiveSnap (r.chordEvents settings) r.ppqn r.meter snapBeats)
          r.ppqn r.meter tempo).map (fun row => (row.bar, row.beat, row.chord)) =
        (List.range (r.maxTick / bar + 1)).map fun i : Nat => ((i : Int) + 1, 1, some "N.C.") := by
  have hPos : 0 < bar := by omega
  have hTicks := Meter.ticksPerBar_of_whole hBar hPos
  have hLines : (List.range (r.maxTick / bar + 1)).map (fun i => ChordEvent.barLine (i * bar)) =
      ((List.range (r.maxTick / bar + 1)).map (· * bar)).map .barLine := by
    rw [List.map_map]
    rfl
  have hOrder : ((List.range (r.maxTick / bar + 1)).map (· * bar)).Pairwise (· < ·) := by
    rw [List.pairwise_map]
    exact List.pairwise_lt_range.imp fun hlt => Nat.mul_lt_mul_of_pos_right hlt hPos
  have hLabels : ¬ r.HasLabel := by
    rintro ⟨e, he, hKind, hLabel⟩
    rw [hTexts e he hKind] at hLabel
    cases hLabel
  have hEvents : r.chordEvents settings =
      (List.range (r.maxTick / bar + 1)).map (fun i => .barLine (i * bar)) := by
    rw [chordEvents_eq_barLines (textChords_eq_nil_iff.mpr hLabels) hNotes hLength hMin, barLines,
      hTicks]
  have hSnap : ChordEvent.adaptiveSnap (r.chordEvents settings) r.ppqn r.meter snapBeats =
      r.chordEvents settings := by
    rw [hEvents, hLines]
    apply ChordEvent.adaptiveSnap_barLines hTicks hLong snapBeats _ hOrder
    · intro tick hTick
      obtain ⟨i, -, rfl⟩ := List.mem_map.mp hTick
      exact Nat.dvd_mul_left bar i
    · simp
  refine ⟨hEvents, hSnap, ?_⟩
  rw [hSnap, hEvents]
  exact Grid.chordRows_barLines hBar hPos tempo _

/-- Bars of 15 ticks on a grid of 2: with a narrow window one snapping leaves every other bar line a
tick late. -/
theorem chordEvents_of_no_chords_off_grid :
    let r : Recording Rat := ⟨20, ⟨3, 16⟩, [], [⟨0, "Verse", .marker⟩],
      [⟨0, some 20, 60, 90, 9, 0⟩], 50, none⟩
    let settings : MidiSettings Rat := ⟨1 / 100, 0, none, 0, 2, 1, true⟩
    (ChordEvent.snapToDownbeats (r.chordEvents settings) r.ppqn r.meter (1 / 100 : Rat)).map
        (·.tick) = [0, 16, 30, 46] ∧
      ChordEvent.adaptiveSnap (r.chordEvents settings) r.ppqn r.meter (1 / 100 : Rat) =
        [.barLine 0, .barLine 15, .barLine 30, .barLine 45] := by
  intro r settings
  have hBar : (r.ppqn : Rat) * r.meter.beatsPerBar = (15 : Nat) := by decide +kernel
  obtain ⟨hEvents, hSnap, -⟩ := @chordEvents_of_no_chords r settings 15 (by decide +kernel)
    (by decide +kernel) (by decide) (by decide) hBar (by decide) (1 / 100) (.constant 120)
  have hLines : (List.range (r.maxTick / 15 + 1)).map (fun i => ChordEvent.barLine (i * 15)) =
      [0, 15, 30, 45].map ChordEvent.barLine := by decide +kernel
  rw [hSnap, hEvents, hLines, ChordEvent.snapToDownbeats_barLines (by decide +kernel)]
  exact ⟨by decide +kernel, rfl⟩

end Recording

end LeadSheet
