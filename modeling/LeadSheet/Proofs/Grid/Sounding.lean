import LeadSheet.Proofs.Chord.Spelling
import LeadSheet.Proofs.Grid.Downbeats
import LeadSheet.Proofs.Grid.Placement

/-!
# The chords that sound in a bar

A chord sounds from its event to the next. The signature of a bar is made from the rows, which say
this to a tolerance; so it lists every chord that sounds in the bar up to an eighth of a beat from
the bar's ends, and none that is further away than that. On whole eighths it lists exactly the
chords that sound in the bar.
-/

namespace LeadSheet
set_option autoImplicit false

/-- Two stretches of time, each without its end, that have a moment in common. -/
def Meets (start stop start' stop' : Rat) : Prop :=
  (Set.Ico start stop ∩ Set.Ico start' stop').Nonempty

theorem meets_iff {start stop start' stop' : Rat} :
    Meets start stop start' stop' ↔ max start start' < min stop stop' := by
  rw [Meets, Set.Ico_inter_Ico, Set.nonempty_Ico]

instance (start stop start' stop' : Rat) : Decidable (Meets start stop start' stop') :=
  decidable_of_iff _ meets_iff.symm

/-- The event says a chord and not that there is none, in whatever case the letters are. -/
def ChordEvent.HasChord (e : ChordEvent) : Prop :=
  e.symbol.toList.map Char.toLower ≠ Chord.noChord.toList.map Char.toLower

instance : DecidablePred ChordEvent.HasChord := fun e =>
  inferInstanceAs (Decidable (e.symbol.toList.map Char.toLower ≠ _))

/-- A chord event and the tick at which the next one starts. -/
structure Span where
  event : ChordEvent
  stop : Nat
  deriving Repr, DecidableEq

namespace Span

/-- The spans of events in order; the last one is `bar` ticks long. -/
def ofEvents (bar : Nat) : List ChordEvent → List Span
  | [] => []
  | [e] => [⟨e, e.tick + bar⟩]
  | e :: f :: events => ⟨e, f.tick⟩ :: ofEvents bar (f :: events)

def row (ppqn : Nat) (beatsPerBar : Rat) (tempo : TempoMap Rat) (x : Span) : Row Rat :=
  Grid.chordRow ppqn beatsPerBar tempo x.event x.stop

theorem map_event_ofEvents (bar : Nat) (events : List ChordEvent) :
    (ofEvents bar events).map (·.event) = events := by
  fun_induction ofEvents bar events with
  | case1 => rfl
  | case2 e => rfl
  | case3 e f events ih => rw [List.map_cons, ih]

theorem mem_of_mem_ofEvents {bar : Nat} {events : List ChordEvent} {x : Span}
    (h : x ∈ ofEvents bar events) :
    x.event ∈ events ∧ ((∃ f ∈ events, x.stop = f.tick) ∨ x.stop = x.event.tick + bar) := by
  fun_induction ofEvents bar events with
  | case1 => cases h
  | case2 e =>
    cases List.mem_singleton.mp h
    exact ⟨List.mem_cons_self, .inr rfl⟩
  | case3 e f events ih =>
    rcases List.mem_cons.mp h with rfl | hRest
    · exact ⟨List.mem_cons_self, .inl ⟨f, List.mem_cons_of_mem _ List.mem_cons_self, rfl⟩⟩
    · obtain ⟨hEvent, hStop⟩ := ih hRest
      refine ⟨List.mem_cons_of_mem _ hEvent, hStop.imp_left ?_⟩
      rintro ⟨g, hg, hEq⟩
      exact ⟨g, List.mem_cons_of_mem _ hg, hEq⟩

theorem rel_of_mem_ofEvents {R : Nat → Nat → Prop} {bar : Nat} {events : List ChordEvent} {x : Span}
    (hEvents : events.Pairwise fun e f => R e.tick f.tick) (hBar : ∀ tick, R tick (tick + bar))
    (h : x ∈ ofEvents bar events) : R x.event.tick x.stop := by
  fun_induction ofEvents bar events with
  | case1 => cases h
  | case2 e =>
    cases List.mem_singleton.mp h
    exact hBar e.tick
  | case3 e f events ih =>
    obtain ⟨hFirst, hRest⟩ := List.pairwise_cons.mp hEvents
    rcases List.mem_cons.mp h with rfl | hMem
    · exact hFirst f List.mem_cons_self
    · exact ih hRest hMem

theorem rowsFrom_eq_map {ppqn : Nat} {meter : Meter} {tempo : TempoMap Rat}
    {events : List ChordEvent} (h : events.Pairwise fun e f => e.tick ≤ f.tick) :
    Grid.rowsFrom ppqn meter tempo events =
      (ofEvents (meter.ticksPerBar Rat ppqn) events).map (row ppqn meter.beatsPerBar tempo) := by
  fun_induction Grid.rowsFrom ppqn meter tempo events with
  | case1 => rfl
  | case2 e => rfl
  | case3 e f events ih =>
    obtain ⟨hFirst, hRest⟩ := List.pairwise_cons.mp h
    rw [ih hRest, max_eq_left (hFirst f List.mem_cons_self)]
    rfl

end Span

namespace Form

theorem soundingChord?_chordRow {ppqn next : Nat} {beatsPerBar : Rat} (hBar : 0 < beatsPerBar)
    (tempo : TempoMap Rat) (e : ChordEvent) :
    soundingChord? (Grid.chordRow ppqn beatsPerBar tempo e next) =
      if e.HasChord then some e.symbol else none := by
  have hPos := (Grid.isWritten_chordRow ppqn next tempo e hBar).bar_pos
  have hRow : soundingChord? (Grid.chordRow ppqn beatsPerBar tempo e next) =
      if (Text.trimmed e.symbol).isEmpty ||
          (Text.trimmed e.symbol).toList.map Char.toLower == Chord.noChord.toList.map Char.toLower ||
          (Grid.chordRow ppqn beatsPerBar tempo e next).bar < 1 then none
      else some (Text.trimmed e.symbol) := rfl
  rw [hRow, e.trimmed_symbol, e.isEmpty_symbol, Bool.false_or, decide_eq_false (by omega),
    Bool.or_false]
  by_cases hChord : e.HasChord
  · rw [if_pos hChord, if_neg (by simpa [ChordEvent.HasChord] using hChord)]
  · rw [if_neg hChord, if_pos (by simpa [ChordEvent.HasChord] using hChord)]

theorem filterMap_chordIn?_rowsFrom {ppqn : Nat} {meter : Meter} {tempo : TempoMap Rat}
    (hBar : 0 < (meter.beatsPerBar : Rat)) {events : List ChordEvent}
    (h : events.Pairwise fun e f => e.tick ≤ f.tick) (b : Nat) :
    (Grid.rowsFrom ppqn meter tempo events).filterMap (chordIn? meter.beatsPerBar b) =
      ((Span.ofEvents (meter.ticksPerBar Rat ppqn) events).filter fun x =>
        x.event.HasChord && Reaches meter.beatsPerBar b (x.row ppqn meter.beatsPerBar tempo)).map
          (·.event.symbol) := by
  rw [Span.rowsFrom_eq_map h, List.filterMap_map, ← List.filterMap_eq_map, List.filterMap_filter]
  refine List.filterMap_congr fun x _ => ?_
  rw [Function.comp_apply, chordIn?, Span.row, soundingChord?_chordRow hBar]
  split_ifs <;> simp_all

theorem filterMap_chordIn?_chordRows {ppqn : Nat} {meter : Meter} {tempo : TempoMap Rat}
    (hPpqn : 1 ≤ ppqn) (hBar : 0 < (meter.beatsPerBar : Rat)) (events : List ChordEvent) (b : Nat) :
    (Grid.chordRows events ppqn meter tempo).filterMap (chordIn? meter.beatsPerBar b) =
      (Grid.rowsFrom ppqn meter tempo events).filterMap (chordIn? meter.beatsPerBar b) := by
  rw [Grid.chordRows, max_eq_left hPpqn]
  cases events with
  | nil => rfl
  | cons e events =>
    rw [Grid.anchored]
    split
    · -- the row put in front says that there is no chord
      have hNone : ¬ ChordEvent.HasChord ⟨0, Chord.noChord, .text⟩ := by decide
      rw [Grid.rowsFrom, List.filterMap_cons_none]
      rw [chordIn?, soundingChord?_chordRow hBar, if_neg hNone, ite_self]
    · rfl

end Form

namespace Span

section Bars

variable {ppqn bar : Nat} {meter : Meter} {tempo : TempoMap Rat} {beatsPerBar : Rat} {x : Span}

theorem isWritten_row (ppqn : Nat) (tempo : TempoMap Rat) (x : Span) (hBar : 0 < beatsPerBar) :
    Grid.IsWritten beatsPerBar (x.event.tick / ppqn) ((x.stop - x.event.tick : Nat) / ppqn)
      (x.row ppqn beatsPerBar tempo) :=
  Grid.isWritten_chordRow ppqn x.stop tempo x.event hBar

theorem stop_div_eq (ppqn : Nat) (h : x.event.tick ≤ x.stop) :
    (x.event.tick : Rat) / ppqn + ((x.stop - x.event.tick : Nat) : Rat) / ppqn = x.stop / ppqn := by
  rw [← add_div, ← Nat.cast_add, Nat.add_sub_cancel' h]

theorem reaches_of_meets (hPpqn : 0 < (ppqn : Rat)) (hBar : 0 < beatsPerBar)
    (hStop : x.event.tick ≤ x.stop) {i : Nat}
    (h : Meets x.event.tick x.stop (i * (beatsPerBar * ppqn) + ppqn / 8)
      ((i + 1) * (beatsPerBar * ppqn) - ppqn / 8)) :
    Form.Reaches beatsPerBar (i + 1) (x.row ppqn beatsPerBar tempo) := by
  rw [meets_iff, max_lt_iff, lt_min_iff, lt_min_iff] at h
  apply (isWritten_row ppqn tempo x hBar).reaches hBar
  · rw [div_lt_iff₀ hPpqn]
    push_cast
    linarith [h.1.2]
  · rw [stop_div_eq ppqn hStop, lt_div_iff₀ hPpqn]
    push_cast
    linarith [h.2.1]

theorem meets_of_reaches (hPpqn : 0 < (ppqn : Rat)) (hBar : 0 < beatsPerBar)
    (hStop : x.event.tick ≤ x.stop) {i : Nat}
    (h : Form.Reaches beatsPerBar (i + 1) (x.row ppqn beatsPerBar tempo)) :
    Meets x.event.tick (max x.stop (x.event.tick + ppqn / 4))
      (i * (beatsPerBar * ppqn) - ppqn / 8) ((i + 1) * (beatsPerBar * ppqn)) := by
  have hBarTicks := mul_pos hBar hPpqn
  have hQuarter := le_max_right (x.stop : Rat) (x.event.tick + ppqn / 4)
  obtain ⟨hStart, hEnd⟩ := (isWritten_row ppqn tempo x hBar).of_reaches hBar h
  have hLast : (x.event.tick : Rat) / ppqn +
      max (((x.stop - x.event.tick : Nat) : Rat) / ppqn) (1 / 4) =
        max (x.stop : Rat) (x.event.tick + ppqn / 4) / ppqn := by
    have hSum : (x.event.tick : Rat) / ppqn + 1 / 4 = (x.event.tick + ppqn / 4) / ppqn := by
      field_simp
    rw [← max_add_add_left, stop_div_eq ppqn hStop, hSum, max_div_div_right hPpqn.le]
  rw [hLast, lt_div_iff₀ hPpqn] at hEnd
  rw [div_lt_iff₀ hPpqn] at hStart
  push_cast at hStart hEnd
  rw [meets_iff, max_lt_iff, lt_min_iff, lt_min_iff]
  refine ⟨⟨?_, ?_⟩, ?_, ?_⟩ <;> linarith

theorem isEighths_div {tick : Nat} (hPpqn : 0 < (ppqn : Rat)) (h : ppqn ∣ 8 * tick) :
    Grid.IsEighths (tick / ppqn) := by
  obtain ⟨n, hn⟩ := h
  have hCast : (8 : Rat) * tick = ppqn * n := by exact_mod_cast hn
  refine ⟨n, ?_⟩
  rw [Int.cast_natCast, div_eq_div_iff hPpqn.ne' (by norm_num)]
  linarith

theorem reaches_iff_meets (hPpqn : 0 < (ppqn : Rat)) (hBars : Grid.IsEighths beatsPerBar)
    (hLong : 1 / 4 ≤ beatsPerBar) (hStop : x.event.tick < x.stop)
    (hTicks : ppqn ∣ 8 * x.event.tick) (hStops : ppqn ∣ 8 * x.stop) (i : Nat) :
    Form.Reaches beatsPerBar (i + 1) (x.row ppqn beatsPerBar tempo) ↔
      Meets x.event.tick x.stop (i * (beatsPerBar * ppqn)) ((i + 1) * (beatsPerBar * ppqn)) := by
  have hBar : 0 < beatsPerBar := by linarith
  have hBarTicks := mul_pos hBar hPpqn
  have hStart := isEighths_div hPpqn hTicks
  have hSum := stop_div_eq ppqn hStop.le
  have hHeld : Grid.IsEighths (((x.stop - x.event.tick : Nat) : Rat) / ppqn) := by
    rw [eq_sub_of_add_eq' hSum]
    exact (isEighths_div hPpqn hStops).sub hStart
  have hPos : 0 < ((x.stop - x.event.tick : Nat) : Rat) / ppqn :=
    div_pos (by exact_mod_cast Nat.sub_pos_of_lt hStop) hPpqn
  obtain ⟨hPlace, hAfter, hDur⟩ :=
    Grid.chordRow_of_isEighths ppqn x.stop tempo x.event hBars hLong hStart hHeld hPos
  have hWritten := isWritten_row ppqn tempo x hBar
  have hTickLt : (x.event.tick : Rat) < x.stop := by exact_mod_cast hStop
  rw [hWritten.reaches_iff_of_eq hBar hBars hStart hHeld hPos hPlace hAfter hDur, hSum,
    div_lt_iff₀ hPpqn, lt_div_iff₀ hPpqn, meets_iff, max_lt_iff, lt_min_iff, lt_min_iff]
  push_cast
  constructor
  · rintro ⟨hBefore, hBehind⟩
    refine ⟨⟨hTickLt, ?_⟩, ?_, ?_⟩ <;> linarith
  · rintro ⟨⟨-, hBefore⟩, hBehind, -⟩
    constructor <;> linarith

end Bars

end Span

theorem Meter.beatsPerBar_pos {m : Meter} (h : 1 ≤ m.numerator) : 0 < (m.beatsPerBar : Rat) := by
  have hNum : (0 : Rat) < m.numerator := by exact_mod_cast h
  have hDen : (0 : Rat) < (if m.denominator = 0 then 4 else m.denominator : Nat) := by
    split
    · norm_num
    · exact_mod_cast Nat.pos_of_ne_zero ‹_›
  change 0 < (m.numerator : Rat) * (4 / (if m.denominator = 0 then 4 else m.denominator : Nat))
  exact mul_pos hNum (div_pos (by norm_num) hDen)

/-- Events one after the other on whole eighths of a beat, in bars of two eighths or more. -/
structure OnEighths (ppqn : Nat) (meter : Meter) (events : List ChordEvent) : Prop where
  increasing : events.Pairwise fun e f => e.tick < f.tick
  ticks : ∀ e ∈ events, ppqn ∣ 8 * e.tick
  lastBar : ppqn ∣ 8 * meter.ticksPerBar Rat ppqn
  bar : Grid.IsEighths (meter.beatsPerBar : Rat)
  long : 1 / 4 ≤ (meter.beatsPerBar : Rat)

theorem Meter.dvd_ticksPerBar {m : Meter} {ppqn : Nat} (hPpqn : 1 ≤ ppqn)
    (hStep : ppqn ∣ 8 ∨ 8 ∣ ppqn) (hBar : Grid.IsEighths (m.beatsPerBar : Rat))
    (hPos : 0 < (m.beatsPerBar : Rat)) : ppqn ∣ 8 * m.ticksPerBar Rat ppqn := by
  rcases hStep with hStep | ⟨eighth, rfl⟩
  · exact hStep.mul_right _
  · obtain ⟨n, hn⟩ := hBar
    lift n to Nat using by
      have hCast : (0 : Rat) < n := by linarith
      exact_mod_cast hCast.le
    have hNum : 0 < n := by
      have hCast : (0 : Rat) < (n : Int) := by linarith
      exact_mod_cast hCast
    have hEighth : 0 < eighth := Nat.pos_of_mul_pos_left hPpqn
    have hWhole : ((8 * eighth : Nat) : Rat) * m.beatsPerBar = (eighth * n : Nat) := by
      rw [hn]
      push_cast
      ring
    have hTicks := Meter.ticksPerBar_of_whole hWhole (Nat.mul_pos hEighth hNum)
    rw [hTicks, ← Nat.mul_assoc]
    exact Nat.dvd_mul_right _ _

namespace ChordEvent

variable {ppqn : Nat} {meter : Meter} {snapBeats : Rat} {events : List ChordEvent}

theorem exists_adaptiveSnap_eq (events : List ChordEvent) (ppqn : Nat) (meter : Meter)
    (h : 0 < snapBeats) :
    ∃ base window, adaptiveSnap events ppqn meter snapBeats =
      snapToDownbeats base ppqn meter (window : Rat) := by
  rw [adaptiveSnap, if_neg (not_le.mpr h)]
  simp only
  split
  · exact ⟨_, _, rfl⟩
  · exact ⟨_, _, rfl⟩

theorem pairwise_le_adaptiveSnap (events : List ChordEvent) (ppqn : Nat) (meter : Meter)
    (snapBeats : Rat) :
    (adaptiveSnap events ppqn meter snapBeats).Pairwise fun e f => e.tick ≤ f.tick := by
  rcases le_or_gt snapBeats 0 with hNone | hSome
  · rw [adaptiveSnap, if_pos hNone]
    exact pairwise_sorted events
  · obtain ⟨base, window, hEq⟩ := exists_adaptiveSnap_eq events ppqn meter hSome
    rw [hEq]
    exact (pairwise_lt_snapToDownbeats base ppqn meter window).imp fun hlt => hlt.le

theorem dvd_downbeatTick (hEighth : ppqn ∣ 8 * max (ppqn / 8) 1)
    (hBar : ppqn ∣ 8 * meter.ticksPerBar Rat ppqn) (snapBeats : Rat) (tick : Nat) :
    ppqn ∣ 8 * downbeatTick ppqn meter snapBeats tick := by
  unfold downbeatTick Grid.pull
  split
  · rw [Grid.halfUp, Nat.mul_left_comm]
    exact hBar.mul_left _
  · rw [Grid.halfUp, Nat.mul_left_comm]
    exact hEighth.mul_left _

theorem onEighths_adaptiveSnap (hPpqn : 1 ≤ ppqn) (hSnap : 0 < snapBeats)
    (hStep : ppqn ∣ 8 ∨ 8 ∣ ppqn) (hBar : Grid.IsEighths (meter.beatsPerBar : Rat))
    (hLong : 1 / 4 ≤ (meter.beatsPerBar : Rat)) :
    OnEighths ppqn meter (adaptiveSnap events ppqn meter snapBeats) := by
  have hLast := Meter.dvd_ticksPerBar hPpqn hStep hBar (by linarith)
  have hEighth : ppqn ∣ 8 * max (ppqn / 8) 1 := by
    rcases hStep with hStep | hStep
    · exact hStep.mul_right _
    · rw [max_eq_left (by have := Nat.le_of_dvd hPpqn hStep; omega), Nat.mul_div_cancel' hStep]
  obtain ⟨base, window, hEq⟩ := exists_adaptiveSnap_eq events ppqn meter hSnap
  rw [hEq]
  refine ⟨pairwise_lt_snapToDownbeats base ppqn meter window, ?_, hLast, hBar, hLong⟩
  intro e he
  obtain ⟨tick, hTick⟩ := exists_tick_eq_of_mem_snapToDownbeats he
  rw [hTick]
  exact dvd_downbeatTick hEighth hLast window tick

end ChordEvent

/-- The signature of bar `i + 1` lists every chord that sounds in the bar outside its first and last
eighth of a beat, and only chords that, held for a quarter of a beat at least, sound in the bar or
in the eighth before it. On whole eighths, where snapping puts the events, it lists exactly the
chords that sound in the bar. -/
theorem barSignatures_adaptiveSnap {ppqn : Nat} {meter : Meter} (hPpqn : 1 ≤ ppqn)
    (hNum : 1 ≤ meter.numerator) (raw : List ChordEvent) (snapBeats : Rat) (tempo : TempoMap Rat)
    (i : Nat) :
    let events := ChordEvent.adaptiveSnap raw ppqn meter snapBeats
    let spans := Span.ofEvents (meter.ticksPerBar Rat ppqn) events
    let bar : Rat := meter.beatsPerBar * ppqn
    ∃ heard : Span → Bool,
      (Form.barSignatures (Grid.chordRows events ppqn meter tempo) meter.beatsPerBar).getD i "" =
          String.intercalate " " (Order.keepFirst (· == ·)
            ((spans.filter fun x => x.event.HasChord && heard x).map (·.event.symbol))) ∧
        (∀ x ∈ spans,
          Meets x.event.tick x.stop (i * bar + ppqn / 8) ((i + 1) * bar - ppqn / 8) → heard x) ∧
        (∀ x ∈ spans, heard x →
          Meets x.event.tick (max x.stop (x.event.tick + ppqn / 4)) (i * bar - ppqn / 8)
            ((i + 1) * bar)) ∧
        (OnEighths ppqn meter events →
          ∀ x ∈ spans, heard x ↔ Meets x.event.tick x.stop (i * bar) ((i + 1) * bar)) ∧
        (0 < snapBeats → (ppqn ∣ 8 ∨ 8 ∣ ppqn) → Grid.IsEighths (meter.beatsPerBar : Rat) →
          1 / 4 ≤ (meter.beatsPerBar : Rat) → OnEighths ppqn meter events) := by
  intro events spans bar
  have hBar := Meter.beatsPerBar_pos hNum
  have hSorted := ChordEvent.pairwise_le_adaptiveSnap raw ppqn meter snapBeats
  have hTicks : 0 < (ppqn : Rat) := by exact_mod_cast hPpqn
  have hOrdered {x : Span} (hx : x ∈ spans) : x.event.tick ≤ x.stop :=
    Span.rel_of_mem_ofEvents hSorted (fun tick => Nat.le_add_right tick _) hx
  refine ⟨fun x => Form.Reaches meter.beatsPerBar (i + 1) (x.row ppqn meter.beatsPerBar tempo),
    ?_, ?_, ?_, ?_, ?_⟩
  · rw [Form.getD_barSignatures _ hBar, Form.filterMap_chordIn?_chordRows hPpqn hBar,
      Form.filterMap_chordIn?_rowsFrom hBar hSorted]
  · intro x hx hMeets
    exact decide_eq_true (Span.reaches_of_meets hTicks hBar (hOrdered hx) hMeets)
  · intro x hx hHeard
    exact Span.meets_of_reaches hTicks hBar (hOrdered hx) (of_decide_eq_true hHeard)
  · intro hGrid x hx
    have hLast := meter.ticksPerBar_pos (α := Rat) ppqn
    have hStop : x.event.tick < x.stop := Span.rel_of_mem_ofEvents hGrid.increasing
      (fun tick => Nat.lt_add_of_pos_right hLast) hx
    obtain ⟨hEvent, hNext⟩ := Span.mem_of_mem_ofEvents hx
    have hStops : ppqn ∣ 8 * x.stop := by
      rcases hNext with ⟨f, hf, hEq⟩ | hEq
      · rw [hEq]
        exact hGrid.ticks f hf
      · rw [hEq, Nat.mul_add]
        exact Nat.dvd_add (hGrid.ticks _ hEvent) hGrid.lastBar
    rw [decide_eq_true_eq]
    exact Span.reaches_iff_meets hTicks hGrid.bar hGrid.long hStop (hGrid.ticks _ hEvent) hStops i
  · exact fun hSnap hStep hEighths hLong =>
      ChordEvent.onEighths_adaptiveSnap hPpqn hSnap hStep hEighths hLong

theorem barSignatures_adaptiveSnap_on_line :
    (Form.barSignatures (Grid.chordRows (ChordEvent.adaptiveSnap
        [⟨1920, "G", .text⟩, ⟨0, "C", .text⟩] 480 .common (0 : Rat)) 480 .common
          (.constant (120 : Rat))) Meter.common.beatsPerBar).getD 1 "" = "G" := by
  have hEvents : ChordEvent.adaptiveSnap
      [⟨1920, "G", .text⟩, ⟨0, "C", .text⟩] 480 .common (0 : Rat) =
        [⟨0, "C", .text⟩, ⟨1920, "G", .text⟩] := by
    rw [ChordEvent.adaptiveSnap, if_pos le_rfl, ChordEvent.sorted]
    simp [List.mergeSort, List.MergeSort.Internal.splitInTwo]
  have hSpans : Span.ofEvents (Meter.common.ticksPerBar Rat 480)
      [⟨0, "C", .text⟩, ⟨1920, "G", .text⟩] =
        [⟨⟨0, "C", .text⟩, 1920⟩, ⟨⟨1920, "G", .text⟩, 3840⟩] := by
    decide +kernel
  have hGrid : OnEighths 480 .common [⟨0, "C", .text⟩, ⟨1920, "G", .text⟩] :=
    ⟨by decide, by decide, by decide +kernel, ⟨32, by decide +kernel⟩, by decide +kernel⟩
  have hPpqn : 1 ≤ 480 := by decide
  have hNum : 1 ≤ Meter.common.numerator := by decide
  obtain ⟨heard, hEntry, -, -, hExact, -⟩ := barSignatures_adaptiveSnap hPpqn hNum
    [⟨1920, "G", .text⟩, ⟨0, "C", .text⟩] 0 (.constant (120 : Rat)) 1
  simp only [hEvents, hSpans] at hExact hEntry ⊢
  have hHeard := hExact hGrid
  have hBefore : heard ⟨⟨0, "C", .text⟩, 1920⟩ = false := by
    rw [Bool.eq_false_iff, Ne, hHeard _ List.mem_cons_self]
    decide +kernel
  have hInside : heard ⟨⟨1920, "G", .text⟩, 3840⟩ = true := by
    rw [hHeard _ (List.mem_cons_of_mem _ List.mem_cons_self)]
    decide +kernel
  have hChord : ChordEvent.HasChord ⟨1920, "G", .text⟩ := by decide
  have hSymbol : ChordEvent.symbol ⟨1920, "G", .text⟩ = "G" := by decide +kernel
  rw [hEntry]
  simp [hBefore, hInside, hChord, hSymbol, Order.keepFirst]

/-- A chord that ends just short of the line of bar 2 is listed there. -/
theorem barSignatures_adaptiveSnap_short_of_line :
    let events := ChordEvent.adaptiveSnap
      [⟨24, "C", .text⟩, ⟨1905, "G", .text⟩] 480 .common (0 : Rat)
    (Form.barSignatures (Grid.chordRows events 480 .common (.constant (120 : Rat)))
        Meter.common.beatsPerBar).getD 1 "" = "C G" ∧
      String.intercalate " " (Order.keepFirst (· == ·)
        (((Span.ofEvents (Meter.common.ticksPerBar Rat 480) events).filter fun x =>
          x.event.HasChord ∧ Meets x.event.tick x.stop (1 * (Meter.common.beatsPerBar * (480 : Nat)))
            ((1 + 1) * (Meter.common.beatsPerBar * (480 : Nat)))).map (·.event.symbol))) = "G" := by
  have hEvents : ChordEvent.adaptiveSnap
      [⟨24, "C", .text⟩, ⟨1905, "G", .text⟩] 480 .common (0 : Rat) =
        [⟨24, "C", .text⟩, ⟨1905, "G", .text⟩] := by
    rw [ChordEvent.adaptiveSnap, if_pos le_rfl]
    exact List.mergeSort_of_pairwise (by decide)
  have hSounding : ((Span.ofEvents (Meter.common.ticksPerBar Rat 480)
      [⟨24, "C", .text⟩, ⟨1905, "G", .text⟩]).filter fun x => x.event.HasChord ∧
        Meets x.event.tick x.stop (1 * (Meter.common.beatsPerBar * (480 : Nat)))
          ((1 + 1) * (Meter.common.beatsPerBar * (480 : Nat)))).map (·.event.symbol) = ["G"] := by
    decide +kernel
  rw [hEvents]
  refine ⟨by decide +kernel, ?_⟩
  rw [hSounding, Order.keepFirst]
  rfl

end LeadSheet
