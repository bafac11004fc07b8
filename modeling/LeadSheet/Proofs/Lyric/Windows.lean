import Mathlib.Data.List.Permutation
import LeadSheet.Export.Chart
import LeadSheet.Proofs.Grid.Rounding
import LeadSheet.Proofs.Lyric.Bars
import LeadSheet.Proofs.Tempo.Numbering
import LeadSheet.Proofs.Tempo.Pace

/-!
# The windows of bars of words

A chart writes a chord over each bar of words in whose window it lies. A window starts where the bar
does and lasts its beats at the tempo of its downbeat. So two windows have a chord in common only
where they do not follow each other: the words before bar 1 have its window too, a bar in which the
tempo rises is over before its window is, and start and length are rounded apart, which may gain a
millisecond.
-/

namespace LeadSheet
set_option autoImplicit false

namespace Export

def StartsIn (bar chord : Row Rat) : Prop :=
  bar.time ≤ chord.time ∧ chord.time < bar.time + bar.dur.getD 0

instance (bar chord : Row Rat) : Decidable (StartsIn bar chord) :=
  inferInstanceAs (Decidable (_ ∧ _))

theorem placeChord_eq_self {bar chord : Row Rat} (h : ¬ StartsIn bar chord) (line : List Char) :
    placeChord bar line chord = line :=
  if_neg fun hPlace => h ⟨hPlace.1, hPlace.2.1⟩

/-- Over a bar a chart writes the chords in its window only. -/
theorem chartBar_eq_filter (chords : List (Row Rat)) (bar : Row Rat) :
    chartBar chords bar = chartBar (chords.filter fun chord => StartsIn bar chord) bar := by
  have hPlace : (fun line chord => if StartsIn bar chord then placeChord bar line chord else line) =
      placeChord bar := by
    funext line chord
    split
    · rfl
    · rename_i hOutside
      exact (placeChord_eq_self hOutside line).symm
  unfold chartBar
  simp only [List.foldl_filter, decide_eq_true_eq, hPlace]

end Export

namespace Aligner

variable {a : Aligner Rat} {joiner : String} {rows : List (Row Rat)}

def barStart (a : Aligner Rat) (bar : Int) : Rat :=
  a.tempo.secondsAt (GridPosition.downbeat bar a.numerator a.pickup)

/-- How long the beats of a bar take at the tempo of its downbeat. -/
def barLength (a : Aligner Rat) (bar : Int) : Rat :=
  a.numerator * a.tempo.secondsPerBeatAt (a.barStart bar)

/-- The tempo rises in a bar above what it is on the downbeat. What stands before bar 1 counts as
bar 1. -/
def Quickens (a : Aligner Rat) (bar : Int) : Prop :=
  ∃ t, a.barStart bar ≤ t ∧ t < a.barStart (max bar 1 + 1) ∧
    a.tempo.bpmAt (a.barStart bar) < a.tempo.bpmAt t

theorem window_of_mem {row : Row Rat} (h : row ∈ a.groupByBar joiner rows) :
    row.time = Scalar.thousandths (a.barStart row.bar) ∧
      row.dur = some (Scalar.thousandths (a.barLength row.bar)) := by
  obtain ⟨bar, _, hRow⟩ := List.mem_filterMap.mp h
  rw [barRow?] at hRow
  split at hRow
  · cases hRow
  · cases hRow
    exact ⟨rfl, rfl⟩

theorem bar_position_nonneg (a : Aligner Rat) (t : Rat) : 0 ≤ (a.position t).bar :=
  (GridPosition.numbers_split a.numerator_pos a.pickup (a.tempo.beatsAt t)).bar_nonneg

theorem bar_snapWord_nonneg (a : Aligner Rat) (w : Word Rat) : 0 ≤ (a.snapWord w).bar := by
  have hBar := a.bar_position_nonneg w.start
  change 0 ≤ (a.snappedStart w.start).1
  unfold snappedStart
  simp only
  split_ifs
  · exact Int.one_nonneg
  · exact Int.le_add_one hBar
  · exact hBar

theorem bar_nonneg_of_mem {words : List (Word Rat)} {row : Row Rat}
    (h : row ∈ a.groupByBar joiner (a.snapWords words)) : 0 ≤ row.bar := by
  obtain ⟨r, hr, -, hBar, -⟩ := mem_bars_groupByBar.mp (List.mem_map_of_mem (f := (·.bar)) h)
  obtain ⟨w, -, rfl⟩ := List.mem_map.mp hr
  exact hBar ▸ a.bar_snapWord_nonneg w

section Steady

variable (hTempo : a.tempo.IsLine) (hPickup : 0 ≤ a.pickup)

include hTempo hPickup

theorem barStart_le_barStart {bar next : Int} (h : bar ≤ next) :
    a.barStart bar ≤ a.barStart next :=
  hTempo.secondsAt_le_secondsAt (GridPosition.downbeat_nonneg _ _ hPickup bar)
    (GridPosition.downbeat_le_downbeat _ _ h)

theorem barStart_add_barLength_le {bar : Int} (hSteady : ¬ a.Quickens bar) :
    a.barStart bar + a.barLength bar ≤ a.barStart (max bar 1 + 1) := by
  -- the words before bar 1 have its window, so behind them comes bar 2
  have hNext := GridPosition.downbeat_add_one a.numerator a.pickup bar
  have hLater : GridPosition.downbeat bar a.numerator a.pickup ≤
      GridPosition.downbeat (max bar 1 + 1) a.numerator a.pickup :=
    GridPosition.downbeat_le_downbeat _ _ (by omega)
  have hSpan := hTempo.add_mul_le_secondsAt (GridPosition.downbeat_nonneg _ _ hPickup bar) hLater
    fun t hStart hStop => not_lt.mp fun hRise => hSteady ⟨t, hStart, hStop, hRise⟩
  rw [hNext, add_sub_cancel_left, ← hNext] at hSpan
  exact hSpan

theorem time_lt_of_startsIn {r s chord : Row Rat} (hr : r ∈ a.groupByBar joiner rows)
    (hs : s ∈ a.groupByBar joiner rows) (hBars : max r.bar 1 < s.bar)
    (hSteady : ¬ a.Quickens r.bar) (hChord : Export.StartsIn r chord) :
    chord.time < s.time + 1 / 1000 := by
  obtain ⟨hStart, hDur⟩ := window_of_mem hr
  have hStop := hChord.2
  have hEnd := barStart_add_barLength_le hTempo hPickup hSteady
  have hNext := barStart_le_barStart hTempo hPickup (Int.add_one_le_of_lt hBars)
  -- the window ends where its start and its length, each rounded, add up to
  have hRound := Grid.thousandths_mono (hEnd.trans hNext)
  have hApart := Grid.thousandths_add_thousandths_le (a.barStart r.bar) (a.barLength r.bar)
  rw [hStart, hDur, Option.getD_some] at hStop
  rw [(window_of_mem hs).1]
  linarith

end Steady

/-- Of two bars whose windows have a chord in common, the earlier stands before bar 1 and the later
is bar 1, or the tempo rises in the earlier, or the chord lies in the first millisecond of the
later. And a chart writes no chord over a bar in whose window it does not lie. -/
theorem windows_groupByBar (a : Aligner Rat) (hTempo : a.tempo.Built) (hPickup : 0 ≤ a.pickup)
    (joiner : String) (words : List (Word Rat)) :
    ((a.groupByBar joiner (a.snapWords words)).Pairwise fun r s => r.bar < s.bar ∧
      ∀ chord, Export.StartsIn r chord → Export.StartsIn s chord →
        r.bar = 0 ∧ s.bar = 1 ∨ a.Quickens r.bar ∨ chord.time < s.time + 1 / 1000) ∧
    ∀ chords : List (Row Rat), ∀ bar ∈ a.groupByBar joiner (a.snapWords words),
      Export.chartBar chords bar =
        Export.chartBar (chords.filter fun chord => Export.StartsIn bar chord) bar := by
  refine ⟨?_, fun chords bar _ => Export.chartBar_eq_filter chords bar⟩
  refine (a.pairwise_bar_groupByBar joiner _).imp_of_mem fun {r s} hr hs hBars => ⟨hBars, ?_⟩
  intro chord hChord _
  have hFirst := bar_nonneg_of_mem hr
  by_cases hPickupBar : r.bar = 0 ∧ s.bar = 1
  · exact .inl hPickupBar
  · by_cases hRise : a.Quickens r.bar
    · exact .inr (.inl hRise)
    · have hBehind : max r.bar 1 < s.bar := by omega
      exact .inr (.inr
        (time_lt_of_startsIn hTempo.isLine hPickup hr hs hBehind hRise hChord))

/-- At one tempo throughout, no bar is over before its window is. -/
theorem windows_groupByBar_constant :
    (groupByBar ⟨.constant 70, 4, 1, 4, 3 / 2, 19 / 20, by decide⟩ " "
      (snapWords ⟨.constant 70, 4, 1, 4, 3 / 2, 19 / 20, by decide⟩
        [⟨"la", 0, none, none⟩, ⟨"so", 1, none, none⟩, ⟨"do", 5, none, none⟩])).Pairwise
      fun r s : Row Rat => r.bar < s.bar ∧
        ∀ chord, Export.StartsIn r chord → Export.StartsIn s chord →
          r.bar = 0 ∧ s.bar = 1 ∨ chord.time < s.time + 1 / 1000 := by
  have hWindows := windows_groupByBar
    ⟨.constant 70, 4, 1, 4, 3 / 2, 19 / 20, by decide⟩ (.constant 70) zero_le_one " "
      [⟨"la", 0, none, none⟩, ⟨"so", 1, none, none⟩, ⟨"do", 5, none, none⟩]
  refine hWindows.1.imp fun {r s} hBars => ⟨hBars.1, fun chord hr hs => ?_⟩
  rcases hBars.2 chord hr hs with hPickup | ⟨t, -, -, hRise⟩ | hNear
  · exact .inl hPickup
  · simp only [TempoMap.bpmAt_constant, lt_self_iff_false] at hRise
  · exact .inr hNear

section Shared

def Shares (bars : List (Row Rat)) (chord : Row Rat) : Prop :=
  ∃ r ∈ bars, ∃ s ∈ bars, r.bar < s.bar ∧ Export.StartsIn r chord ∧ Export.StartsIn s chord

def Covers (a : Aligner Rat) (bar : Int) (chord : Row Rat) : Prop :=
  Scalar.thousandths (a.barStart bar) ≤ chord.time ∧
    chord.time < Scalar.thousandths (a.barStart bar) + Scalar.thousandths (a.barLength bar)

instance (a : Aligner Rat) (bar : Int) (chord : Row Rat) : Decidable (a.Covers bar chord) :=
  inferInstanceAs (Decidable (_ ∧ _))

theorem exists_startsIn_of_word {words : List (Word Rat)} {w : Word Rat} {bar : Int}
    {chord : Row Rat} (joiner : String) (hWord : w ∈ words)
    (hText : ∃ c ∈ w.text.toList, Text.isBlank c = false) (hBar : (a.snapWord w).bar = bar)
    (hCovers : a.Covers bar chord) :
    ∃ row ∈ a.groupByBar joiner (a.snapWords words), row.bar = bar ∧ Export.StartsIn row chord := by
  have hMem : bar ∈ (a.groupByBar joiner (a.snapWords words)).map (·.bar) :=
    mem_bars_groupByBar.mpr ⟨_, List.mem_map_of_mem hWord, rfl, hBar, w.text, rfl, hText⟩
  obtain ⟨row, hRow, hEq⟩ := List.mem_map.mp hMem
  obtain ⟨hStart, hDur⟩ := window_of_mem hRow
  refine ⟨row, hRow, hEq, ?_⟩
  rw [Export.StartsIn, hStart, hDur, Option.getD_some, hEq]
  exact hCovers

theorem shares_of_words {v w : Word Rat} {chord : Row Rat} (first second : Int) (joiner : String)
    (hBars : first < second) (hvText : ∃ c ∈ v.text.toList, Text.isBlank c = false)
    (hwText : ∃ c ∈ w.text.toList, Text.isBlank c = false) (hv : (a.snapWord v).bar = first)
    (hw : (a.snapWord w).bar = second) (hvChord : a.Covers first chord)
    (hwChord : a.Covers second chord) :
    Shares (a.groupByBar joiner (a.snapWords [v, w])) chord := by
  have hvMem : v ∈ [v, w] := List.mem_cons_self
  have hwMem : w ∈ [v, w] := List.mem_cons_of_mem v List.mem_cons_self
  obtain ⟨r, hr, hrBar, hrChord⟩ := exists_startsIn_of_word joiner hvMem hvText hv hvChord
  obtain ⟨s, hs, hsBar, hsChord⟩ := exists_startsIn_of_word joiner hwMem hwText hw hwChord
  exact ⟨r, hr, s, hs, hrBar ▸ hsBar ▸ hBars, hrChord, hsChord⟩

/-- A chord has two bars where the tempo rises, before bar 1, and where two roundings meet. -/
theorem windows_groupByBar_shared :
    Shares
        (groupByBar
          ⟨.ofTickTempos 480 [(0, 60), (480, 120)], 4, 0, 4, 3 / 2, 19 / 20, by decide⟩ " "
          (snapWords
            ⟨.ofTickTempos 480 [(0, 60), (480, 120)], 4, 0, 4, 3 / 2, 19 / 20, by decide⟩
            [⟨"twinkle twinkle", 0, none, none⟩, ⟨"little star", 5 / 2, none, none⟩]))
        (.blank .chord 2 2 5 3) ∧
      Shares
        (groupByBar ⟨.constant 60, 4, 1, 4, 3 / 2, 19 / 20, by decide⟩ " "
          (snapWords ⟨.constant 60, 4, 1, 4, 3 / 2, 19 / 20, by decide⟩
            [⟨"la", 0, none, none⟩, ⟨"so", 1, none, none⟩]))
        (.blank .chord 1 2 2 2) ∧
      Shares
        (groupByBar ⟨.constant 70, 4, 0, 4, 3 / 2, 19 / 20, by decide⟩ " "
          (snapWords ⟨.constant 70, 4, 0, 4, 3 / 2, 19 / 20, by decide⟩
            [⟨"la", 343 / 100, none, none⟩, ⟨"so", 686 / 100, none, none⟩]))
        (.blank .chord 3 1 8 (6857 / 1000)) := by
  have hMap : (TempoMap.ofTickTempos 480 [(0, 60), (480, 120)] : TempoMap Rat) =
      ⟨⟨⟨some 0, 0, 60⟩, 0⟩, [⟨⟨some 480, 1, 120⟩, 1⟩]⟩ := by
    have hTicks : ([(0, 60), (480, 120)] : List (Nat × Rat)).mergeSort (fun e f => e.1 ≤ f.1) =
        [(0, 60), (480, 120)] := List.mergeSort_of_pairwise (by decide)
    have hAfter : TempoMap.segmentsAfter (480 : Rat) 0 0 60 [(480, 120)] =
        [⟨some 480, 1, 120⟩] := by decide +kernel
    have hTimes : ([⟨some 0, 0, 60⟩, ⟨some 480, 1, 120⟩] : List (TempoSegment Rat)).mergeSort
        TempoSegment.atMost = [⟨some 0, 0, 60⟩, ⟨some 480, 1, 120⟩] :=
      List.mergeSort_of_pairwise (by decide +kernel)
    have hBeats : 0 + Scalar.larger (1 - 0) 0 *
        (⟨some 0, 0, 60⟩ : TempoSegment Rat).beatsPerSecond = 1 := by decide +kernel
    rw [TempoMap.ofTickTempos, hTicks]
    change (TempoMap.ofSegments? (_ :: TempoMap.segmentsAfter (480 : Rat) 0 0 60 [(480, 120)])).getD
      _ = _
    rw [hAfter, TempoMap.ofSegments?, hTimes]
    change TempoMap.mk _ [⟨_, 0 + Scalar.larger (1 - 0) 0 * _⟩] = _
    rw [hBeats]
  rw [hMap]
  refine ⟨?_, ?_, ?_⟩
  · refine shares_of_words 1 2 " " ?_ ⟨'t', by simp, rfl⟩ ⟨'l', by simp, rfl⟩ ?_ ?_ ?_ ?_ <;>
      decide +kernel
  · refine shares_of_words 0 1 " " ?_ ⟨'l', by simp, rfl⟩ ⟨'s', by simp, rfl⟩ ?_ ?_ ?_ ?_ <;>
      decide +kernel
  · refine shares_of_words 2 3 " " ?_ ⟨'l', by simp, rfl⟩ ⟨'s', by simp, rfl⟩ ?_ ?_ ?_ ?_ <;>
      decide +kernel

end Shared

end Aligner

end LeadSheet
