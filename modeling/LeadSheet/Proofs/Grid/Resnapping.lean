import LeadSheet.Proofs.Grid.Downbeats

/-!
# Snapping twice

A bar line need not lie on the grid of eighth beats, so a second snapping may first take an event
off its bar line. It is then pulled back to the same line, whatever the lengths of the grid, the bar
and the window; so events that have been snapped stay where they are, and none of them is merged.
-/

namespace LeadSheet
set_option autoImplicit false

namespace Grid

variable {step bar : Nat}

theorem dvd_halfUp (tick step : Nat) : step ∣ halfUp tick step := Nat.dvd_mul_left step _

theorem halfUp_bounds (h : 0 < step) (tick : Nat) :
    2 * halfUp tick step ≤ 2 * tick + step ∧ 2 * tick < 2 * halfUp tick step + step := by
  have hTwice : (2 * tick + step) / (2 * step) * (2 * step) = 2 * halfUp tick step := by
    rw [halfUp]
    ring
  have hLow := Nat.div_mul_le_self (2 * tick + step) (2 * step)
  have hHigh := Nat.lt_div_mul_add (a := 2 * tick + step) (b := 2 * step) (by omega)
  rw [hTwice] at hLow hHigh
  omega

/-- Two multiples of a step are the same when they are less than a step apart. -/
theorem eq_of_dvd_of_lt {s t : Nat} (hs : step ∣ s) (ht : step ∣ t) (hst : s < t + step)
    (hts : t < s + step) : s = t := by
  rcases le_total s t with hle | hle
  · have hZero := Nat.eq_zero_of_dvd_of_lt (Nat.dvd_sub ht hs) (by omega)
    omega
  · have hZero := Nat.eq_zero_of_dvd_of_lt (Nat.dvd_sub hs ht) (by omega)
    omega

theorem halfUp_eq {tick line : Nat} (hLine : step ∣ line) (hLow : 2 * line ≤ 2 * tick + step)
    (hHigh : 2 * tick < 2 * line + step) : halfUp tick step = line := by
  have hStep : 0 < step := by omega
  obtain ⟨hUp, hDown⟩ := halfUp_bounds hStep tick
  exact eq_of_dvd_of_lt (dvd_halfUp tick step) hLine (by omega) (by omega)

theorem halfUp_of_dvd {tick : Nat} (hStep : 0 < step) (h : step ∣ tick) : halfUp tick step = tick :=
  halfUp_eq h (by omega) (by omega)

theorem distance_comm (s t : Nat) : distance s t = distance t s := Nat.add_comm _ _

/-- No multiple of a step is nearer to a tick. -/
theorem distance_halfUp_le (hStep : 0 < step) (tick : Nat) {line : Nat} (hLine : step ∣ line) :
    distance (halfUp tick step) tick ≤ distance line tick := by
  obtain ⟨hUp, hDown⟩ := halfUp_bounds hStep tick
  by_cases hSame : halfUp tick step = line
  · rw [hSame]
  · have hApart : halfUp tick step + step ≤ line ∨ line + step ≤ halfUp tick step := by
      by_contra hNear
      push Not at hNear
      exact hSame (eq_of_dvd_of_lt (dvd_halfUp tick step) hLine hNear.2 hNear.1)
    unfold distance
    omega

/-- The bar line that is nearest to a tick of the grid is found again from the tick of the grid that
is nearest to it. -/
theorem halfUp_halfUp_halfUp (hStep : 0 < step) (hBar : 0 < bar) {tick : Nat} (h : step ∣ tick) :
    halfUp (halfUp (halfUp tick bar) step) bar = halfUp tick bar := by
  obtain ⟨hUp, hDown⟩ := halfUp_bounds hBar tick
  rcases lt_trichotomy bar step with hShort | rfl | hLong
  · -- bars are shorter than the grid, so the bar line is nearest to the tick it was found from
    have hBack : halfUp (halfUp tick bar) step = tick := halfUp_eq h (by omega) (by omega)
    rw [hBack]
  · rw [halfUp_of_dvd hBar h, halfUp_of_dvd hBar h, halfUp_of_dvd hBar h]
  · -- the tick of the grid is less than half a bar away from the bar line
    obtain ⟨hGridUp, hGridDown⟩ := halfUp_bounds hStep (halfUp tick bar)
    exact halfUp_eq (dvd_halfUp tick bar) (by omega) (by omega)

/-- Being put on the grid and pulled to a bar line does nothing the second time. -/
theorem pull_halfUp_pull_halfUp (hStep : 0 < step) (hBar : 0 < bar) (window tick : Nat) :
    pull bar window (halfUp (pull bar window (halfUp tick step)) step) =
      pull bar window (halfUp tick step) := by
  have hGrid := dvd_halfUp tick step
  generalize halfUp tick step = onGrid at hGrid
  by_cases hNear : distance (halfUp onGrid bar) onGrid ≤ window
  · have hBack := halfUp_halfUp_halfUp hStep hBar hGrid
    have hNearer : distance (halfUp onGrid bar) (halfUp (halfUp onGrid bar) step) ≤ window := by
      rw [distance_comm]
      refine (distance_halfUp_le hStep _ hGrid).trans ?_
      rwa [distance_comm]
    have hLine : pull bar window onGrid = halfUp onGrid bar := if_pos hNear
    rw [hLine, pull, hBack, if_pos hNearer]
  · have hStay : pull bar window onGrid = onGrid := if_neg hNear
    rw [hStay, halfUp_of_dvd hStep hGrid, hStay]

end Grid

namespace ChordEvent

variable (ppqn : Nat) (meter : Meter) (snapBeats : Rat)

theorem downbeatTick_downbeatTick (tick : Nat) :
    downbeatTick ppqn meter snapBeats (downbeatTick ppqn meter snapBeats tick) =
      downbeatTick ppqn meter snapBeats tick :=
  Grid.pull_halfUp_pull_halfUp (by omega) (meter.ticksPerBar_pos ppqn) _ tick

theorem downbeatTick_of_mem {events : List ChordEvent} {e : ChordEvent}
    (h : e ∈ snapToDownbeats events ppqn meter snapBeats) :
    downbeatTick ppqn meter snapBeats e.tick = e.tick := by
  obtain ⟨tick, hTick⟩ := exists_tick_eq_of_mem_snapToDownbeats h
  rw [hTick, downbeatTick_downbeatTick]

/-- Events that go to different ticks, none of which repeats the one before it, are only moved. -/
theorem snapToDownbeats_eq_moved {events : List ChordEvent}
    (hTicks : (moved ppqn meter snapBeats events).Pairwise fun e f => e.tick < f.tick)
    (hNew : (moved ppqn meter snapBeats events).IsChain fun e f => repeats e f = false) :
    snapToDownbeats events ppqn meter snapBeats = moved ppqn meter snapBeats events := by
  have hMerged : Order.keepLast (fun e f : ChordEvent => e.tick == f.tick)
      (moved ppqn meter snapBeats events) = moved ppqn meter snapBeats events :=
    Order.keepLast_of_isChain (hTicks.isChain.imp fun e f hlt => beq_false_of_ne hlt.ne)
  rw [snapToDownbeats_eq, hMerged, Order.keepFirst_of_isChain hNew]

/-- Events at different ticks, none of which is moved and none of which repeats the one before it,
stay as they are. -/
theorem snapToDownbeats_eq_self {events : List ChordEvent}
    (hTicks : events.Pairwise fun e f => e.tick < f.tick)
    (hPlaces : ∀ e ∈ events, downbeatTick ppqn meter snapBeats e.tick = e.tick)
    (hNew : events.IsChain fun e f => repeats e f = false) :
    snapToDownbeats events ppqn meter snapBeats = events := by
  have hMoved : moved ppqn meter snapBeats events = events := by
    rw [moved, sorted_of_pairwise hTicks]
    refine (List.map_congr_left fun e he => ?_).trans (List.map_id events)
    rw [hPlaces e he, id]
  rw [← hMoved] at hTicks hNew
  rw [snapToDownbeats_eq_moved ppqn meter snapBeats hTicks hNew, hMoved]

/-- Snapping what has been snapped does nothing. -/
theorem snapToDownbeats_snapToDownbeats (events : List ChordEvent) (ppqn : Nat) (meter : Meter)
    (snapBeats : Rat) :
    snapToDownbeats (snapToDownbeats events ppqn meter snapBeats) ppqn meter snapBeats =
      snapToDownbeats events ppqn meter snapBeats := by
  refine snapToDownbeats_eq_self ppqn meter snapBeats ?_ ?_ ?_
  · exact pairwise_lt_snapToDownbeats events ppqn meter snapBeats
  · exact fun e he => downbeatTick_of_mem ppqn meter snapBeats he
  · rw [snapToDownbeats_eq]
    exact Order.isChain_keepFirst _

end ChordEvent

end LeadSheet
