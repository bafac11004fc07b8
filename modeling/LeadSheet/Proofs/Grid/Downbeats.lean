import LeadSheet.Grid.Snap
import LeadSheet.Proofs.Order.Latest
import LeadSheet.Proofs.Order.Runs
import LeadSheet.Proofs.Scalar.Exact

/-!
# What snapping keeps of a progression

Snapping moves ticks by a map that never changes their order, whatever the lengths of the grid, the
bar and the window. So the events that are merged afterwards are neighbours, and at every tick the
chord that sounds is that of the last event which has moved there or before.
-/

namespace LeadSheet
set_option autoImplicit false

namespace Grid

/-- The multiple of a step nearest to a tick, a half going up. -/
def halfUp (tick step : Nat) : Nat := (2 * tick + step) / (2 * step) * step

def pull (bar window tick : Nat) : Nat :=
  if distance (halfUp tick bar) tick ≤ window then halfUp tick bar else tick

def windowTicks (ppqn : Nat) (snapBeats : Rat) : Nat := ⌊(ppqn : Rat) * snapBeats + 1 / 2⌋.toNat

theorem halfUp_le_halfUp {s t : Nat} (h : s ≤ t) (step : Nat) : halfUp s step ≤ halfUp t step :=
  Nat.mul_le_mul_right step (Nat.div_le_div_right (by omega))

theorem halfUp_halfUp {step : Nat} (h : 0 < step) (tick : Nat) :
    halfUp (halfUp tick step) step = halfUp tick step := by
  rw [halfUp, halfUp]
  generalize (2 * tick + step) / (2 * step) = n
  have hSum : 2 * (n * step) + step = step + n * (2 * step) := by ring
  rw [hSum, Nat.add_mul_div_right _ _ (by omega), Nat.div_eq_of_lt (by omega), Nat.zero_add]

/-- A bar line between two ticks, to which one of them is pulled, pulls the nearer one too. -/
theorem pull_le_pull {bar : Nat} (hBar : 0 < bar) (window : Nat) {s t : Nat} (h : s ≤ t) :
    pull bar window s ≤ pull bar window t := by
  have hLine := halfUp_le_halfUp h bar
  unfold pull distance
  split_ifs with hs ht ht
  · exact hLine
  · by_contra hlt
    have hBack := halfUp_le_halfUp (not_le.mp hlt).le bar
    rw [halfUp_halfUp hBar] at hBack
    omega
  · by_contra hlt
    have hBack := halfUp_le_halfUp (not_le.mp hlt).le bar
    rw [halfUp_halfUp hBar] at hBack
    omega
  · exact h

theorem nearestMultiple_eq_halfUp {step : Nat} (h : 0 < step) (tick : Nat) :
    nearestMultiple Rat tick step = halfUp tick step := by
  have hStep : (step : Rat) ≠ 0 := Nat.cast_ne_zero.mpr h.ne'
  have hRatio : (tick : Rat) / step + 1 / 2 = (2 * tick + step : Nat) / (2 * step : Nat) := by
    push_cast
    field_simp
  have hFloor : ⌊(tick : Rat) / step + 1 / 2⌋ = ((2 * tick + step) / (2 * step) : Nat) := by
    rw [hRatio, Rat.floor_natCast_div_natCast, Int.natCast_div]
  have hRound : Scalar.round ((tick : Rat) / step) = ((2 * tick + step) / (2 * step) : Nat) := by
    rw [Scalar.round_eq_floor (by positivity), hFloor, Int.cast_natCast]
  change Scalar.toNat (Scalar.round ((tick : Rat) / step)) * step = _
  rw [hRound, Scalar.toNat_eq_floor, Int.floor_natCast, Int.toNat_natCast, halfUp]

theorem toNat_larger_round (ppqn : Nat) (snapBeats : Rat) :
    Scalar.toNat (Scalar.larger (Scalar.round (Scalar.ofNat ppqn * snapBeats)) 0) =
      windowTicks ppqn snapBeats := by
  change Scalar.toNat (Scalar.larger (Scalar.round ((ppqn : Rat) * snapBeats)) 0) = _
  rw [windowTicks, Scalar.larger_eq_max, Scalar.toNat_eq_floor]
  by_cases h : 0 ≤ (ppqn : Rat) * snapBeats
  · have hPos : (0 : Rat) ≤ ⌊(ppqn : Rat) * snapBeats + 1 / 2⌋ :=
      Int.cast_nonneg (Int.floor_nonneg.mpr (by linarith))
    rw [Scalar.round_eq_floor h, max_eq_left hPos, Int.floor_intCast]
  · have hNeg : (ppqn : Rat) * snapBeats < 0 := not_le.mp h
    have hFloor : ⌊(ppqn : Rat) * snapBeats + 1 / 2⌋ < 1 := Int.floor_lt.mpr (by push_cast; linarith)
    rw [max_eq_right (Scalar.round_nonpos hNeg), Int.toNat_eq_zero.mpr (Int.lt_add_one_iff.mp hFloor)]
    exact Int.toNat_eq_zero.mpr (Int.floor_zero (R := Rat)).le

theorem snapTick_eq {eighth bar : Nat} (hEighth : 0 < eighth) (hBar : 0 < bar) (window tick : Nat) :
    snapTick Rat eighth bar window tick = pull bar window (halfUp tick eighth) := by
  rw [snapTick, nearestMultiple_eq_halfUp hEighth, nearestMultiple_eq_halfUp hBar]
  rfl

end Grid

theorem Meter.ticksPerBar_pos {α : Type} [Scalar α] (m : Meter) (ppqn : Nat) :
    0 < m.ticksPerBar α ppqn := by
  unfold ticksPerBar
  simp only
  split
  · assumption
  · exact Nat.lt_of_lt_of_le Nat.zero_lt_one (Nat.le_max_right _ _)

theorem Meter.ticksPerBar_of_whole {m : Meter} {ppqn bar : Nat}
    (h : (ppqn : Rat) * m.beatsPerBar = bar) (hPos : 0 < bar) : m.ticksPerBar Rat ppqn = bar := by
  have hTicks : Scalar.toNat (Scalar.round ((ppqn : Rat) * m.beatsPerBar)) = bar := by
    rw [h, ← Int.cast_natCast, Scalar.round_intCast, Scalar.toNat_eq_floor, Int.floor_intCast,
      Int.toNat_natCast]
  unfold ticksPerBar
  change (if 0 < Scalar.toNat (Scalar.round ((ppqn : Rat) * m.beatsPerBar)) then
    Scalar.toNat (Scalar.round ((ppqn : Rat) * m.beatsPerBar)) else _) = bar
  rw [hTicks, if_pos hPos]

namespace ChordEvent

/-- Where a tick goes: to the nearest eighth of a beat, then to the nearest bar line within the
window. -/
def downbeatTick (ppqn : Nat) (meter : Meter) (snapBeats : Rat) (tick : Nat) : Nat :=
  Grid.pull (meter.ticksPerBar Rat ppqn) (Grid.windowTicks ppqn snapBeats)
    (Grid.halfUp tick (max (ppqn / 8) 1))

theorem mem_sorted {events : List ChordEvent} {e : ChordEvent} : e ∈ sorted events ↔ e ∈ events :=
  List.mem_mergeSort

theorem pairwise_sorted (events : List ChordEvent) :
    (sorted events).Pairwise fun e f => e.tick ≤ f.tick :=
  Order.pairwise_mergeSort_key (fun e : ChordEvent => e.tick) events

theorem sorted_of_pairwise {events : List ChordEvent}
    (h : events.Pairwise fun e f => e.tick < f.tick) : sorted events = events :=
  List.mergeSort_of_pairwise (h.imp fun hlt => decide_eq_true hlt.le)

section Snapping

variable (ppqn : Nat) (meter : Meter) (snapBeats : Rat)

theorem downbeatTick_mono {s t : Nat} (h : s ≤ t) :
    downbeatTick ppqn meter snapBeats s ≤ downbeatTick ppqn meter snapBeats t :=
  Grid.pull_le_pull (meter.ticksPerBar_pos ppqn) _ (Grid.halfUp_le_halfUp h _)

def moved (events : List ChordEvent) : List ChordEvent :=
  (sorted events).map fun e => { e with tick := downbeatTick ppqn meter snapBeats e.tick }

theorem snapToDownbeats_eq (events : List ChordEvent) :
    snapToDownbeats events ppqn meter snapBeats =
      Order.keepFirst repeats
        (Order.keepLast (fun e f => e.tick == f.tick) (moved ppqn meter snapBeats events)) := by
  have hMoved : (sorted events).map (fun e => { e with
      tick := Grid.snapTick Rat (max (ppqn / 8) 1) (meter.ticksPerBar Rat ppqn)
        (Grid.windowTicks ppqn snapBeats) e.tick }) = moved ppqn meter snapBeats events := by
    refine List.map_congr_left fun e _ => congrArg (fun tick => { e with tick := tick }) ?_
    exact Grid.snapTick_eq (by omega) (meter.ticksPerBar_pos ppqn) _ e.tick
  rw [snapToDownbeats, Grid.toNat_larger_round, hMoved]

theorem pairwise_moved (events : List ChordEvent) :
    (moved ppqn meter snapBeats events).Pairwise fun e f => e.tick ≤ f.tick := by
  rw [moved, List.pairwise_map]
  exact (pairwise_sorted events).imp fun hle => downbeatTick_mono ppqn meter snapBeats hle

theorem exists_of_mem_moved {events : List ChordEvent} {o : ChordEvent}
    (h : o ∈ moved ppqn meter snapBeats events) :
    ∃ e ∈ events, o = { e with tick := downbeatTick ppqn meter snapBeats e.tick } := by
  obtain ⟨e, he, rfl⟩ := List.mem_map.mp h
  exact ⟨e, mem_sorted.mp he, rfl⟩

theorem symbol_comp_move : symbol ∘ (fun e : ChordEvent =>
    { e with tick := downbeatTick ppqn meter snapBeats e.tick }) = symbol := by
  funext e
  rw [Function.comp_apply, symbol, symbol]

theorem map_symbol_getLast?_moved (events : List ChordEvent) (tick : Nat) :
    (((moved ppqn meter snapBeats events).filter (·.tick ≤ tick)).getLast?).map symbol =
      (Order.latest? (fun e : ChordEvent => e.tick)
        (events.filter (downbeatTick ppqn meter snapBeats ·.tick ≤ tick))).map symbol := by
  rw [Order.latest?_filter_eq, moved, sorted, List.filter_map, List.getLast?_map, Option.map_map,
    symbol_comp_move]
  rfl

end Snapping

theorem pairwise_lt_snapToDownbeats (events : List ChordEvent) (ppqn : Nat) (meter : Meter)
    (snapBeats : Rat) :
    (snapToDownbeats events ppqn meter snapBeats).Pairwise fun e f => e.tick < f.tick := by
  have hMerged := Order.pairwise_lt_keepLast (fun e f : ChordEvent => e.tick == f.tick)
    (fun _ _ => beq_iff_eq) (pairwise_moved ppqn meter snapBeats events)
  rw [snapToDownbeats_eq]
  exact hMerged.sublist (Order.keepFirst_sublist repeats _)

theorem exists_tick_eq_of_mem_snapToDownbeats {events : List ChordEvent} {ppqn : Nat}
    {meter : Meter} {snapBeats : Rat} {o : ChordEvent}
    (h : o ∈ snapToDownbeats events ppqn meter snapBeats) :
    ∃ tick, o.tick = downbeatTick ppqn meter snapBeats tick := by
  rw [snapToDownbeats_eq] at h
  have hMoved := (Order.keepLast_sublist _ _).mem ((Order.keepFirst_sublist repeats _).mem h)
  obtain ⟨e, -, rfl⟩ := exists_of_mem_moved ppqn meter snapBeats hMoved
  exact ⟨e.tick, rfl⟩

theorem symbol_eq_of_repeats {e f : ChordEvent} (h : repeats e f = true) : e.symbol = f.symbol := by
  rw [repeats, Bool.and_eq_true] at h
  exact beq_iff_eq.mp h.2

theorem symbol_ne_of_not_repeats {e f : ChordEvent} (h : repeats e f = false) :
    e.symbol ≠ f.symbol ∨ e.source = .grid ∧ f.source = .grid := by
  by_cases hGrid : e.source = .grid ∧ f.source = .grid
  · exact .inr hGrid
  · refine .inl fun hSymbol => ?_
    simp [repeats, hSymbol, hGrid] at h

/-- Snapping puts every event where its tick goes and keeps the chord that sounds at each tick; no
tick is used twice and no chord is said twice in a row. -/
theorem snapToDownbeats_keeps_progression (events : List ChordEvent) (ppqn : Nat) (meter : Meter)
    (snapBeats : Rat) :
    (snapToDownbeats events ppqn meter snapBeats).Pairwise (fun e f => e.tick < f.tick) ∧
      (snapToDownbeats events ppqn meter snapBeats).IsChain (fun e f =>
        e.symbol ≠ f.symbol ∨ e.source = .grid ∧ f.source = .grid) ∧
      (∀ o ∈ snapToDownbeats events ppqn meter snapBeats, ∃ e ∈ events,
        o = { e with tick := downbeatTick ppqn meter snapBeats e.tick }) ∧
      ∀ tick, (Order.latest? (·.tick)
          ((snapToDownbeats events ppqn meter snapBeats).filter (·.tick ≤ tick))).map symbol =
        (Order.latest? (·.tick)
          (events.filter (downbeatTick ppqn meter snapBeats ·.tick ≤ tick))).map symbol := by
  have hMoved := pairwise_moved ppqn meter snapBeats events
  have hMerged := Order.pairwise_lt_keepLast (fun e f : ChordEvent => e.tick == f.tick)
    (fun _ _ => beq_iff_eq) hMoved
  have hKept := Order.keepFirst_sublist repeats
    (Order.keepLast (fun e f => e.tick == f.tick) (moved ppqn meter snapBeats events))
  rw [snapToDownbeats_eq]
  refine ⟨hMerged.sublist hKept, ?_, ?_, ?_⟩
  · exact (Order.isChain_keepFirst _).imp fun e f h => symbol_ne_of_not_repeats h
  · intro o ho
    exact exists_of_mem_moved ppqn meter snapBeats ((Order.keepLast_sublist _ _).mem (hKept.mem ho))
  · intro tick
    have hParts := hMerged.imp (S := fun e f : ChordEvent =>
      decide (f.tick ≤ tick) = true → decide (e.tick ≤ tick) = true) fun hlt hf =>
        decide_eq_true (hlt.le.trans (decide_eq_true_eq.mp hf))
    rw [Order.latest?_filter_of_pairwise ((hMerged.sublist hKept).imp fun hlt => hlt.le),
      Order.map_getLast?_filter_keepFirst (fun e f h => symbol_eq_of_repeats h) hParts,
      Order.getLast?_filter_keepLast (fun e f h => by rw [beq_iff_eq.mp h]),
      map_symbol_getLast?_moved]

end ChordEvent

end LeadSheet
