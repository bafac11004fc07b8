import Mathlib.Algebra.Order.Floor.Div
import LeadSheet.Proofs.Form.Stamp
import LeadSheet.Scalar.Rational
import LeadSheet.Song.Sheet

/-!
# Sections of a song

Rows are made without a section. Those of the chord track are stamped with the form that they imply,
those of the words with that form over all bars with words, and both are then renumbered. So every
row of the sheet has the section of its bar in the form that the sheet shows.
-/

namespace LeadSheet
set_option autoImplicit false

variable {α : Type}

/-- A row with bars numbered from `offset`, in a form of `bars` bars. Before the first of them it has
no section. -/
structure Row.Fits (sections : List SectionRange) (bars offset : Int) (row : Row α) : Prop where
  inside : row.bar - offset ≤ bars
  named : 1 ≤ row.bar - offset →
    ∃ r ∈ sections, r.holds (row.bar - offset) = true ∧ row.sectionName = some r.name
  unnamed : row.bar - offset < 1 → row.sectionName = none

/-- A sheet with a form of `bars` bars that all its rows are in. -/
structure Sheet.Consistent (sheet : Sheet α) (bars offset : Int) : Prop where
  form : Form.WellFormed sheet.sections bars
  rows : ∀ row ∈ sheet.rows, row.Fits sheet.sections bars offset

theorem Form.Stands.fits {sections : List SectionRange} {bars : Int} {row : Row α}
    (hForm : Form.Tiles 1 sections bars) (h : Form.Stands sections bars row) (offset : Int) :
    (row.renumber offset).Fits sections bars offset := by
  have hBar : (row.renumber offset).bar - offset = row.bar := Int.add_sub_cancel _ _
  constructor
  · rw [hBar]
    exact h.inside
  · rw [hBar]
    exact h.name_of_pos hForm
  · rw [hBar]
    exact h.name_of_not_pos hForm

variable [Scalar α]

section Unnamed

theorem Grid.forall_mem_rowsFrom {P : Row α → Prop} {ppqn : Nat} {meter : Meter} {tempo : TempoMap α}
    {events : List ChordEvent}
    (h : ∀ e next, P (Grid.chordRow ppqn meter.beatsPerBar tempo e next)) :
    ∀ row ∈ Grid.rowsFrom ppqn meter tempo events, P row := by
  induction events with
  | nil => exact fun row hRow => (List.not_mem_nil hRow).elim
  | cons e events ih =>
    cases events with
    | nil => exact List.forall_mem_singleton.mpr (h e _)
    | cons f events => exact List.forall_mem_cons.mpr ⟨h e _, ih⟩

theorem Grid.unnamed_rowsFrom (ppqn : Nat) (meter : Meter) (tempo : TempoMap α)
    (events : List ChordEvent) :
    ∀ row ∈ Grid.rowsFrom ppqn meter tempo events, row.sectionName = none :=
  Grid.forall_mem_rowsFrom fun _ _ => rfl

theorem Lyric.unnamed_attachChord (chords : List (Row α)) {row : Row α}
    (h : row.sectionName = none) : (Lyric.attachChord chords row).sectionName = none := by
  rw [Lyric.attachChord]
  split
  · exact h
  · exact h

theorem Lyric.unnamed_attachChords (chords : List (Row α)) {rows : List (Row α)}
    (h : ∀ row ∈ rows, row.sectionName = none) :
    ∀ row ∈ Lyric.attachChords rows chords, row.sectionName = none := by
  intro attached hAttached
  obtain ⟨row, hRow, rfl⟩ := List.mem_map.mp hAttached
  exact Lyric.unnamed_attachChord _ (h row hRow)

theorem Aligner.unnamed_align (a : Aligner α) (words : List (Word α)) :
    ∀ row ∈ (a.align words).2, row.sectionName = none := by
  intro row hRow
  obtain ⟨w, _, rfl⟩ := List.mem_map.mp hRow
  rfl

theorem Aligner.unnamed_groupByBar (a : Aligner α) (joiner : String) (rows : List (Row α)) :
    ∀ row ∈ a.groupByBar joiner rows, row.sectionName = none := by
  intro row hRow
  obtain ⟨bar, _, hBar⟩ := List.mem_filterMap.mp hRow
  rw [Aligner.barRow?] at hBar
  split at hBar
  · cases hBar
  · cases hBar
    rfl

theorem Lyric.exists_liveRows (words : List (Word α)) (tempo : TempoMap α) {numerator : Nat}
    (hNumerator : numerator ≠ 0) (pickup beats : α) :
    ∃ rows, Lyric.liveRows words tempo numerator pickup beats = .ok rows ∧
      ∀ row ∈ rows, row.sectionName = none := by
  rw [Lyric.liveRows, if_neg fun h => hNumerator h.1]
  refine ⟨_, rfl, fun row hRow => ?_⟩
  obtain ⟨i, hi, rfl⟩ := List.getElem_of_mem hRow
  rw [List.getElem_zipWith, List.getElem_map]
  rfl

end Unnamed

namespace ChordTrack

/-- A track with a form of `bars` bars that all its rows were in before they were renumbered. -/
structure Consistent (track : ChordTrack α) (bars : Int) : Prop where
  form : Form.Partition track.sections bars
  shaped : Form.Shaped (Form.labelsOf track.sections)
  rows : ∀ row ∈ track.rows, ∃ placed, Form.Stands track.sections bars placed ∧
    row = placed.renumber track.barOffset

theorem recordedBars_eq (r : Recording α) :
    recordedBars r = r.maxTick ⌈/⌉ r.meter.ticksPerBar α r.ppqn :=
  (Nat.ceilDiv_eq_add_pred_div _ _).symm

theorem exists_consistent_build (r : Recording α) (s : Settings α) :
    ∃ bars : Nat, recordedBars r ≤ bars ∧ (build r s).Consistent bars := by
  obtain ⟨hForm, hShaped⟩ := Form.partition_sectionsOf
    (Grid.chordRows (ChordEvent.adaptiveSnap (r.chordEvents s.midi) r.ppqn r.meter s.midi.snapBeats)
      r.ppqn r.meter r.tempoMap) r.meter.beatsPerBar (recordedBars r) s.sections
  refine ⟨_, le_max_left _ _, hForm, hShaped, fun row hRow => ?_⟩
  obtain ⟨placed, hPlaced, rfl⟩ := List.mem_map.mp hRow
  refine ⟨placed, Form.stands_stamp (Int.ofNat_le.mpr ?_) ?_ placed hPlaced, rfl⟩
  · exact (Form.lastBar_le_length_barSignatures _ _).trans (le_max_right _ _)
  · exact Grid.unnamed_rowsFrom _ _ _ _

end ChordTrack

namespace LyricTrack

/-- What is done to rows of words and of bars, in either way of placing words. -/
structure Finishes (track : ChordTrack α) (lyrics : LyricTrack α) (words bars : List (Row α)) :
    Prop where
  unnamed : ∀ row ∈ words ++ bars, row.sectionName = none
  sections : lyrics.sections = sectionsFor track (words ++ bars)
  words : lyrics.words = finish track lyrics.sections words
  bars : lyrics.bars = finish track lyrics.sections bars

theorem exists_align (words : List (Word α)) {track : ChordTrack α}
    (hNumerator : track.meter.numerator ≠ 0) (s : Settings α) :
    ∃ lyrics placed bars, align words track s = .ok lyrics ∧ Finishes track lyrics placed bars := by
  rw [align, Aligner.create, dif_neg hNumerator]
  refine ⟨_, _, _, rfl, ?_, rfl, rfl, rfl⟩
  refine List.forall_mem_append.mpr ⟨?_, Aligner.unnamed_groupByBar _ _ _⟩
  exact Lyric.unnamed_attachChords _ (Aligner.unnamed_align _ _)

theorem exists_live (words : List (Word α)) {track : ChordTrack α}
    (hNumerator : track.meter.numerator ≠ 0) (s : Settings α) :
    ∃ lyrics placed bars, live words track s = .ok lyrics ∧ Finishes track lyrics placed bars := by
  obtain ⟨rows, hRows, hUnnamed⟩ := Lyric.exists_liveRows words track.tempo hNumerator track.pickup
    s.lyrics.melismaBeats
  rw [live, hRows]
  refine ⟨_, Lyric.attachChords rows track.rows, [], rfl, ?_, ?_, rfl, rfl⟩
  · rw [List.append_nil]
    exact Lyric.unnamed_attachChords _ hUnnamed
  · rw [List.append_nil]

end LyricTrack

namespace Sheet

theorem consistent_assemble_none {track : ChordTrack α} {bars : Int} (h : track.Consistent bars) :
    (assemble track none).Consistent bars track.barOffset where
  form := h.form.wellFormed h.shaped
  rows row hRow := by
    obtain ⟨placed, hPlaced, rfl⟩ := h.rows row (List.mem_mergeSort.mp hRow)
    exact hPlaced.fits h.form.tiles _

omit [Scalar α] in
theorem fits_finish {track : ChordTrack α} {sections : List SectionRange} {bars : Int}
    {rows : List (Row α)} (hForm : Form.Tiles 1 sections bars) (hBars : ∀ row ∈ rows, row.bar ≤ bars)
    (hUnnamed : ∀ row ∈ rows, row.sectionName = none) :
    ∀ row ∈ LyricTrack.finish track sections rows, row.Fits sections bars track.barOffset := by
  intro row hRow
  obtain ⟨stamped, hStamped, rfl⟩ := List.mem_map.mp hRow
  obtain ⟨placed, hPlaced, rfl⟩ := List.mem_map.mp hStamped
  exact (Form.stands_stampRow (hBars placed hPlaced) (hUnnamed placed hPlaced)).fits hForm _

/-- Words lengthen the form, and the rows of the chord track are in the longer one as well. -/
theorem consistent_assemble_some {track : ChordTrack α} {lyrics : LyricTrack α} {bars : Nat}
    {wordRows barRows : List (Row α)} (h : track.Consistent bars)
    (hLyrics : LyricTrack.Finishes track lyrics wordRows barRows) :
    (assemble track (some lyrics)).Consistent (max bars (Form.lastBar (wordRows ++ barRows)))
      track.barOffset := by
  obtain ⟨hUnnamed, hSections, hWords, hBars⟩ := hLyrics
  obtain ⟨hLonger, _⟩ := h.form.extend (Form.lastBar (wordRows ++ barRows))
  have hExtend : lyrics.sections = Form.extend track.sections (Form.lastBar (wordRows ++ barRows)) :=
    hSections
  have hInside : ∀ row ∈ wordRows ++ barRows,
      row.bar ≤ max (bars : Int) (Form.lastBar (wordRows ++ barRows)) :=
    fun row hRow => Int.le_trans (Form.bar_le_lastBar hRow) (Int.le_max_right _ _)
  rw [← hExtend] at hLonger
  constructor
  · refine hLonger.wellFormed ?_
    rw [hExtend]
    exact Form.shaped_extend h.form h.shaped
  · intro row hRow
    rcases List.mem_append.mp (List.mem_mergeSort.mp hRow) with hRow | hRow
    · rcases List.mem_append.mp hRow with hRow | hRow
      · obtain ⟨placed, hPlaced, rfl⟩ := h.rows row hRow
        have hStands := hPlaced.extend h.form (Form.lastBar (wordRows ++ barRows))
        rw [← hExtend] at hStands
        exact hStands.fits hLonger.tiles _
      · rw [hWords] at hRow
        exact fits_finish hLonger.tiles (fun r hr => hInside r (List.mem_append_left _ hr))
          (fun r hr => hUnnamed r (List.mem_append_left _ hr)) row hRow
    · rw [hBars] at hRow
      exact fits_finish hLonger.tiles (fun r hr => hInside r (List.mem_append_right _ hr))
        (fun r hr => hUnnamed r (List.mem_append_right _ hr)) row hRow

theorem ofSong_of_words {isLive : Bool} {r : Recording α} {words : List (Word α)} {s : Settings α}
    {track : ChordTrack α} {lyrics : LyricTrack α} (hTrack : ChordTrack.ofRecording r s = .ok track)
    (hWords : words.isEmpty = false)
    (hLyrics : (if isLive then LyricTrack.live words track s else LyricTrack.align words track s) =
      .ok lyrics) :
    ofSong isLive r (some words) s = .ok (assemble track (some lyrics)) := by
  rw [ofSong, hTrack, Option.filter_some, hWords]
  cases isLive with
  | true =>
    change LyricTrack.live words track s = .ok lyrics at hLyrics
    change (LyricTrack.live words track s >>= fun lyrics => .ok (assemble track (some lyrics))) = _
    rw [hLyrics]
    rfl
  | false =>
    change LyricTrack.align words track s = .ok lyrics at hLyrics
    change (LyricTrack.align words track s >>= fun lyrics => .ok (assemble track (some lyrics))) = _
    rw [hLyrics]
    rfl

theorem ofSong_of_no_words {isLive : Bool} {r : Recording α} {words : Option (List (Word α))}
    {s : Settings α} {track : ChordTrack α} (hTrack : ChordTrack.ofRecording r s = .ok track)
    (hWords : ∀ ws ∈ words, ws = []) : ofSong isLive r words s = .ok (assemble track none) := by
  have hNone : words.filter (!·.isEmpty) = none := by
    refine Option.filter_eq_none_iff.mpr fun ws hWs => ?_
    rw [hWords ws hWs]
    exact Bool.false_ne_true
  rw [ofSong, hTrack, hNone]
  rfl

/-- Every song has a sheet, whose form reaches over the recording and over all rows. -/
theorem exists_consistent_ofSong (isLive : Bool) (r : Recording α)
    (words : Option (List (Word α))) (s : Settings α) (hMeter : 1 ≤ r.meter.numerator)
    (hSettings : s.check = .ok ()) :
    ∃ (sheet : Sheet α) (bars : Nat), ofSong isLive r words s = .ok sheet ∧
      r.maxTick ⌈/⌉ r.meter.ticksPerBar α r.ppqn ≤ bars ∧
      sheet.Consistent bars s.midi.barOffset := by
  have hNumerator : r.meter.numerator ≠ 0 := Nat.ne_of_gt hMeter
  have hTrack : ChordTrack.ofRecording r s = .ok (ChordTrack.build r s) := by
    rw [ChordTrack.ofRecording, hSettings, Meter.check, if_neg hNumerator]
    rfl
  obtain ⟨bars, hRecorded, hBuild⟩ := ChordTrack.exists_consistent_build r s
  rw [ChordTrack.recordedBars_eq] at hRecorded
  by_cases hEmpty : ∀ ws ∈ words, ws = []
  · exact ⟨_, bars, ofSong_of_no_words hTrack hEmpty, hRecorded, consistent_assemble_none hBuild⟩
  · push Not at hEmpty
    obtain ⟨ws, rfl, hWords⟩ := hEmpty
    have hLyrics : ∃ lyrics placed placedBars,
        (if isLive then LyricTrack.live ws (ChordTrack.build r s) s
          else LyricTrack.align ws (ChordTrack.build r s) s) = .ok lyrics ∧
        LyricTrack.Finishes (ChordTrack.build r s) lyrics placed placedBars := by
      cases isLive with
      | true => exact LyricTrack.exists_live ws hNumerator s
      | false => exact LyricTrack.exists_align ws hNumerator s
    obtain ⟨lyrics, placed, placedBars, hOk, hFinishes⟩ := hLyrics
    have hSheet := consistent_assemble_some hBuild hFinishes
    have hMax (n : Nat) : max (bars : Int) n = (max bars n : Nat) := by omega
    rw [hMax] at hSheet
    refine ⟨_, _, ofSong_of_words hTrack (List.isEmpty_eq_false_iff.mpr hWords) hOk, ?_, hSheet⟩
    exact hRecorded.trans (Nat.le_max_left _ _)

/-- A word far behind the only bar of a recording. -/
theorem exists_consistent_ofSong_late_word :
    1 ≤ (4 : Nat) ∧ (Settings.default : Settings Rat).check = .ok () ∧
      ∃ (sheet : Sheet Rat) (bars : Nat),
        ofSong false ⟨480, ⟨4, 4⟩, [], [⟨0, "C", .marker⟩], [], 1920, none⟩
          (some [⟨"la", 10, none, none⟩]) Settings.default = .ok sheet ∧
        1920 ⌈/⌉ (Meter.mk 4 4).ticksPerBar Rat 480 ≤ bars ∧ sheet.Consistent bars 0 := by
  have hSettings : (Settings.default : Settings Rat).check = .ok () := by
    decide +kernel
  exact ⟨by decide, hSettings, exists_consistent_ofSong false _ _ _ (by decide) hSettings⟩

end Sheet

end LeadSheet
