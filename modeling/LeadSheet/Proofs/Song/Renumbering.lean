import LeadSheet.Proofs.Order.Bisect
import LeadSheet.Proofs.Song.Overflow
import LeadSheet.Scalar.Rational

/-!
# Renumbering the bars of a song

Bars are renumbered last, and what is read off the chord rows afterwards is when they sound and not
where they stand. So how bars are counted decides nothing but the bar numbers: two sheets of a song
that differ in it have the same rows, one with its bars moved by the difference. A build that checks
for overflow may stop at one of the two and not at the other; one that does not takes the sums in
words.
-/

namespace LeadSheet
set_option autoImplicit false

variable {α : Type}

theorem Row.map_renumber_map_renumber (offset more : Int) (rows : List (Row α)) :
    (rows.map (Row.renumber offset)).map (Row.renumber more) =
      rows.map (Row.renumber (offset + more)) := by
  rw [List.map_map]
  refine List.map_congr_left fun row _ => ?_
  rw [Function.comp_apply, renumber, renumber, renumber, Int.add_assoc]

def Settings.countingBars (s : Settings α) (barIndexOffset : Option Int) (prebars : Nat) :
    Settings α :=
  { s with midi := { s.midi with barIndexOffset := barIndexOffset, prebars := prebars } }

def Settings.barDifference (s : Settings α) (barIndexOffset : Option Int) (prebars : Nat) : Int :=
  (s.countingBars barIndexOffset prebars).midi.barOffset - s.midi.barOffset

def ChordTrack.renumber (more : Int) (track : ChordTrack α) : ChordTrack α :=
  { track with
    barOffset := track.barOffset + more
    rows := track.rows.map (Row.renumber more) }

def LyricTrack.renumber (more : Int) (track : LyricTrack α) : LyricTrack α :=
  { track with
    words := track.words.map (Row.renumber more)
    bars := track.bars.map (Row.renumber more) }

def Sheet.renumber (more : Int) (sheet : Sheet α) : Sheet α :=
  { sheet with rows := sheet.rows.map (Row.renumber more) }

variable [Scalar α]

section Chords

open Lyric

theorem Row.map_renumber_mergeSort (more : Int) (rows : List (Row α)) :
    (rows.mergeSort fun r s => Scalar.atMost r.time s.time).map (Row.renumber more) =
      (rows.map (Row.renumber more)).mergeSort fun r s => Scalar.atMost r.time s.time :=
  List.map_mergeSort fun _ _ _ _ => rfl

theorem Lyric.chordsInTime_renumber (more : Int) (rows : List (Row α)) :
    chordsInTime (rows.map (Row.renumber more)) =
      (chordsInTime rows).map (Row.renumber more) := by
  rw [chordsInTime, chordsInTime, Row.map_renumber_mergeSort, List.filter_map]
  rfl

theorem Lyric.soundingAt?_renumber (more : Int) (chords : List (Row α)) (t : α) :
    soundingAt? (chords.map (Row.renumber more)) t =
      (soundingAt? chords t).map (Row.renumber more) := by
  have hStarted : Order.bisect (fun c : Row α => c.time ≤ t + 1e-9)
      (chords.map (Row.renumber more)) = Order.bisect (fun c => c.time ≤ t + 1e-9) chords :=
    Order.bisect_map _ _ chords
  simp only [soundingAt?, hStarted]
  cases Order.bisect (fun c : Row α => c.time ≤ t + 1e-9) chords with
  | zero => rfl
  | succ n =>
    simp only [List.getElem?_map, List.length_map]
    cases chords[n]? with
    | none => rfl
    | some c =>
      simp only [Option.map_some, Option.filter_some]
      have hLasts : lastsBeyond t (c.renumber more) = lastsBeyond t c := rfl
      rw [hLasts]
      split <;> rfl

theorem Lyric.attachChords_renumber (more : Int) (rows chordRows : List (Row α)) :
    attachChords rows (chordRows.map (Row.renumber more)) = attachChords rows chordRows := by
  -- the rows that are found differ in their bars, and only their chord is taken
  rw [attachChords, attachChords, chordsInTime_renumber]
  refine List.map_congr_left fun row _ => ?_
  have hChord : (soundingAt? ((chordsInTime chordRows).map (Row.renumber more)) row.start).bind
      (·.chord) = (soundingAt? (chordsInTime chordRows) row.start).bind (·.chord) := by
    rw [soundingAt?_renumber, Option.bind_map]
    rfl
  rw [attachChord, attachChord, hChord]

end Chords

section Tracks

variable (more : Int)

theorem ChordTrack.ofRecording_countingBars (r : Recording α) (s : Settings α)
    (barIndexOffset : Option Int) (prebars : Nat) :
    ofRecording r (s.countingBars barIndexOffset prebars) =
      (ofRecording r s).map (renumber (s.barDifference barIndexOffset prebars)) := by
  have hSum : s.midi.barOffset + s.barDifference barIndexOffset prebars =
      (s.countingBars barIndexOffset prebars).midi.barOffset := by
    rw [Settings.barDifference]
    omega
  have hBuild : build r (s.countingBars barIndexOffset prebars) =
      (build r s).renumber (s.barDifference barIndexOffset prebars) := by
    simp only [build, renumber, Row.map_renumber_map_renumber, hSum]
    rfl
  have hCheck : (s.countingBars barIndexOffset prebars).check = s.check := rfl
  rw [ofRecording, ofRecording, hCheck, hBuild]
  cases s.check with
  | error fault => rfl
  | ok _ =>
    cases (r.meter.check : Except (Error α) Unit) with
    | error fault => rfl
    | ok _ => rfl

omit [Scalar α] in
theorem LyricTrack.finish_renumber (track : ChordTrack α) (sections : List SectionRange)
    (rows : List (Row α)) :
    finish (track.renumber more) sections rows =
      (finish track sections rows).map (Row.renumber more) :=
  (Row.map_renumber_map_renumber track.barOffset more _).symm

theorem LyricTrack.ofAligner_renumber (aligner : Aligner α) (words : List (Word α))
    (track : ChordTrack α) (joiner : String) :
    ofAligner aligner words (track.renumber more) joiner =
      (ofAligner aligner words track joiner).renumber more := by
  have hChords : Lyric.attachChords (aligner.align words).2 (track.renumber more).rows =
      Lyric.attachChords (aligner.align words).2 track.rows :=
    Lyric.attachChords_renumber more _ _
  simp only [ofAligner, hChords, finish_renumber]
  rfl

theorem LyricTrack.align_renumber (words : List (Word α)) (track : ChordTrack α) (s : Settings α) :
    align words (track.renumber more) s = (align words track s).map (renumber more) := by
  have hCreate : Aligner.create (track.renumber more).tempo (track.renumber more).meter.numerator
      (track.renumber more).pickup =
        Aligner.create track.tempo track.meter.numerator track.pickup := rfl
  rw [align, align, hCreate]
  cases Aligner.create track.tempo track.meter.numerator track.pickup with
  | error fault => rfl
  | ok aligner => exact congrArg Except.ok (ofAligner_renumber more _ words track _)

theorem LyricTrack.live_renumber (words : List (Word α)) (track : ChordTrack α) (s : Settings α) :
    live words (track.renumber more) s = (live words track s).map (renumber more) := by
  have hRows : Lyric.liveRows words (track.renumber more).tempo
      (track.renumber more).meter.numerator (track.renumber more).pickup s.lyrics.melismaBeats =
        Lyric.liveRows words track.tempo track.meter.numerator track.pickup
          s.lyrics.melismaBeats := rfl
  rw [live, live, hRows]
  cases Lyric.liveRows words track.tempo track.meter.numerator track.pickup
    s.lyrics.melismaBeats with
  | error fault => rfl
  | ok rows =>
    have hChords : Lyric.attachChords rows (track.renumber more).rows =
        Lyric.attachChords rows track.rows := Lyric.attachChords_renumber more rows track.rows
    change Except.ok _ = Except.ok _
    simp only [hChords, finish_renumber]
    rfl

end Tracks

namespace Sheet

theorem assemble_renumber (more : Int) (chords : ChordTrack α) (lyrics : Option (LyricTrack α)) :
    assemble (chords.renumber more) (lyrics.map (LyricTrack.renumber more)) =
      (assemble chords lyrics).renumber more := by
  cases lyrics with
  | none =>
    exact congrArg (Sheet.mk · chords.sections none)
      (Row.map_renumber_mergeSort more chords.rows).symm
  | some lyrics =>
    have hRows : (chords.renumber more).rows ++ (lyrics.renumber more).words ++
        (lyrics.renumber more).bars =
          (chords.rows ++ lyrics.words ++ lyrics.bars).map (Row.renumber more) := by
      rw [List.map_append, List.map_append]
      rfl
    rw [Option.map_some]
    simp only [assemble, renumber, hRows, Row.map_renumber_mergeSort]
    rfl

theorem bind_assemble_renumber (more : Int) (chords : ChordTrack α)
    (lyrics : Except (Error α) (LyricTrack α)) :
    (lyrics.map (LyricTrack.renumber more) >>= fun found =>
        .ok (assemble (chords.renumber more) (some found))) =
      (lyrics >>= fun found => .ok (assemble chords (some found))).map (renumber more) := by
  cases lyrics with
  | error fault => rfl
  | ok found => exact congrArg Except.ok (assemble_renumber more chords (some found))

theorem ofSong_countingBars (isLive : Bool) (r : Recording α) (words : Option (List (Word α)))
    (s : Settings α) (barIndexOffset : Option Int) (prebars : Nat) :
    ofSong isLive r words (s.countingBars barIndexOffset prebars) =
      (ofSong isLive r words s).map (renumber (s.barDifference barIndexOffset prebars)) := by
  rw [ofSong, ofSong, ChordTrack.ofRecording_countingBars]
  generalize s.barDifference barIndexOffset prebars = more
  cases ChordTrack.ofRecording r s with
  | error fault => rfl
  | ok chords =>
    cases words.filter (!·.isEmpty) with
    | none => exact congrArg Except.ok (assemble_renumber more chords none)
    | some words =>
      cases isLive with
      | true =>
        change (LyricTrack.live words (chords.renumber more) s >>= _) = _
        rw [LyricTrack.live_renumber]
        exact bind_assemble_renumber more chords _
      | false =>
        change (LyricTrack.align words (chords.renumber more) s >>= _) = _
        rw [LyricTrack.align_renumber]
        exact bind_assemble_renumber more chords _

section Overflow

/-- The sheet with an offset added to the bar of every row. -/
def recount (more : Int) (sheet : Sheet α) : Except (Error α) (Sheet α) := do
  let rows ← sheet.rows.mapM (Row.shiftBar more)
  return { sheet with rows := rows }

theorem keepBars_renumber_keepBars (more : Int) (sheet : Sheet α) :
    (sheet.keepBars.renumber more).keepBars = (sheet.renumber more).keepBars := by
  have hRows : ((sheet.rows.map Row.keepBar).map (Row.renumber more)).map Row.keepBar =
      (sheet.rows.map (Row.renumber more)).map Row.keepBar := by
    rw [List.map_map, List.map_map, List.map_map]
    exact List.map_congr_left fun row _ => Row.keepBar_renumber_keepBar more row
  rw [keepBars, keepBars, keepBars, renumber, renumber, hRows]

theorem recount_eq (more : Int) (sheet : Sheet α) :
    sheet.recount more =
      if Scalar.buildOf α = .checked ∧
          (sheet.rows.all fun row => Word64.holds (row.bar + more)) = false then .error .overflow
      else .ok (sheet.renumber more).keepBars := by
  rw [recount, Row.mapM_shiftBar, keepBars, renumber, List.map_map]
  split <;> rfl

theorem recount_of_holds {more : Int} {sheet : Sheet α}
    (h : (sheet.rows.all fun row => Word64.holds (row.bar + more)) = true) :
    sheet.recount more = .ok (sheet.renumber more) := by
  have hHolds : ((sheet.renumber more).rows.all fun row => Word64.holds row.bar) = true :=
    List.all_map.trans h
  rw [recount_eq, h, if_neg fun hStop => Bool.noConfusion hStop.2, keepBars_of_holds hHolds]

variable {isLive : Bool} {r : Recording α} {words : Option (List (Word α))} {s : Settings α}

/-- All numbers but the bars of the sheet are the same in both ways to count. -/
theorem overflows_renumber (barIndexOffset : Option Int) (prebars : Nat) (more : Int)
    {sheet : Sheet α} (h : sheet.overflows isLive r words s = false) :
    (sheet.renumber more).overflows isLive r words (s.countingBars barIndexOffset prebars) = true ↔
      Scalar.buildOf α = .checked ∧
        (sheet.keepBars.rows.all fun row => Word64.holds (row.bar + more)) = false := by
  obtain ⟨hTicks, hBars⟩ := overflows_eq_false_iff.mp h
  have hRows : ((sheet.renumber more).rows.all fun row => Word64.holds row.bar) =
      sheet.rows.all fun row => Word64.holds (row.bar + more) := List.all_map
  rw [← Bool.not_eq_false, overflows_eq_false_iff, hRows]
  constructor
  · intro hStops
    cases hBuild : Scalar.buildOf α with
    | unchecked => exact absurd ⟨hTicks, fun hChecked => by simp [hBuild] at hChecked⟩ hStops
    | checked =>
      rw [keepBars_of_checked hBuild, ← Bool.not_eq_true]
      exact ⟨rfl, fun hHolds => hStops ⟨hTicks, fun hChecked => ⟨(hBars hChecked).1, hHolds⟩⟩⟩
  · rintro ⟨hChecked, hBeyond⟩ ⟨_, hHolds⟩
    rw [keepBars_of_checked hChecked, (hHolds hChecked).2] at hBeyond
    cases hBeyond

theorem run_of_renumber {barIndexOffset : Option Int} {prebars : Nat} {more : Int} {sheet : Sheet α}
    (hSheet : ofSong isLive r words (s.countingBars barIndexOffset prebars) =
      .ok (sheet.renumber more)) (h : sheet.overflows isLive r words s = false) :
    run isLive r words (s.countingBars barIndexOffset prebars) = sheet.keepBars.recount more := by
  rw [run_of_ok hSheet, recount_eq, keepBars_renumber_keepBars]
  exact ite_congr (propext (overflows_renumber barIndexOffset prebars more h)) (fun _ => rfl)
    fun _ => rfl

end Overflow

end Sheet

end LeadSheet
