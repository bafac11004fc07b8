import LeadSheet.Proofs.Form.Signature
import LeadSheet.Proofs.Grid.Downbeats
import LeadSheet.Proofs.Lyric.Offset
import LeadSheet.Proofs.Lyric.Ranks
import LeadSheet.Proofs.Order.Bisect
import LeadSheet.Proofs.Scalar.Sign
import LeadSheet.Proofs.Song.Tracks

/-!
# Look-ups on the way to a sheet

On the way to a sheet lists are searched and then read at the place that was found, ticks are divided
by lengths, and one offset is moved into a window. All these places are in their lists, the lengths
are above 0, and the ends of the window are in order, for every recording and all words: a meter or a
resolution of 0 is no exception.
-/

namespace LeadSheet
set_option autoImplicit false

variable {α : Type} [Scalar α]

section Tempo

theorem TempoMap.exists_ofSegments? {segments : List (TempoSegment α)} (h : segments ≠ []) :
    ∃ m, ofSegments? segments = some m := by
  obtain ⟨first, rest, hKept⟩ :=
    Order.exists_cons_keepLast_mergeSort TempoSegment.sameTick TempoSegment.atMost h
  rw [ofSegments?, hKept]
  exact ⟨_, rfl⟩

/-- Changes have a first, and it starts a map. -/
theorem TempoMap.exists_ofTickTempos (ppqn : Nat) {events : List (Nat × α)} (h : events ≠ []) :
    ∃ first changes,
      Order.keepLast (fun e f => e.1 == f.1) (events.mergeSort fun e f => e.1 ≤ f.1) =
        first :: changes ∧
      ofSegments? (⟨some 0, 0, first.2⟩ ::
        segmentsAfter (Scalar.ofNat (max ppqn 1)) 0 0 first.2 changes) =
          some (ofTickTempos ppqn events) := by
  obtain ⟨first, changes, hKept⟩ :=
    Order.exists_cons_keepLast_mergeSort (fun e f : Nat × α => e.1 == f.1) (fun e f => e.1 ≤ f.1) h
  obtain ⟨m, hMap⟩ := exists_ofSegments? (List.cons_ne_nil (⟨some 0, 0, first.2⟩ : TempoSegment α)
    (segmentsAfter (Scalar.ofNat (max ppqn 1)) 0 0 first.2 changes))
  refine ⟨first, changes, hKept, ?_⟩
  simp only [ofTickTempos, hKept, hMap, Option.getD_some]

omit [Scalar α] in
theorem TempoMap.getElem?_bisect (m : TempoMap α) (holds : Stretch α → Bool) :
    m.stretches[Order.bisect holds m.stretches - 1]? = some (m.lastWhere holds) := by
  have hLength : 0 < m.stretches.length := Nat.succ_pos m.rest.length
  have hBisect := Order.bisect_le_length holds m.stretches
  have hLt : Order.bisect holds m.stretches - 1 < m.stretches.length := by omega
  rw [lastWhere, List.getElem?_eq_getElem hLt, List.getD_eq_getElem _ _ hLt]

end Tempo

section Form

open Form

theorem Form.slot_of_reaches {row : Row α} {chord : String} (h : soundingChord? row = some chord)
    (perBar : α) (table : List (List String)) {b : Nat} (hReaches : Reaches perBar b row) :
    1 ≤ b ∧ b ≤ (holdRow perBar table row).length := by
  have hBar : 1 ≤ row.bar := by
    simp only [soundingChord?] at h
    split at h
    · split at h
      · cases h
      · rename_i hSounds
        simp only [Bool.or_eq_true, decide_eq_true_eq, not_or] at hSounds
        omega
    · cases h
  obtain ⟨hFirst, hLast⟩ := hReaches
  simp only [holdRow, h, holdChord, List.length_mapIdx, List.length_append, List.length_replicate]
  omega

theorem Form.head?_starts {signatures : List String} {size minOccurs : Nat} {b : Block}
    (h : b ∈ repeatedBlocks signatures size minOccurs) : b.starts.head? = some b.first := by
  obtain ⟨hCandidate, hBlock⟩ := mem_repeatedBlocks_iff.mp h
  have hNe : b.starts ≠ [] := by
    rw [hBlock]
    exact List.ne_nil_of_mem hCandidate.first_mem
  obtain ⟨start, starts, hStarts⟩ := List.exists_cons_of_ne_nil hNe
  rw [Block.first, hStarts]
  rfl

end Form

section Chords

namespace Recording

/-- What is read and divided by on the way of a recording to its chord track. -/
structure InBounds (r : Recording α) (s : Settings α) : Prop where
  -- tempo changes have a first, from which a map is made
  tempo : r.tempos ≠ [] → ∃ first changes,
    Order.keepLast (fun e f => e.1 == f.1) (r.tempos.mergeSort fun e f => e.1 ≤ f.1) =
      first :: changes ∧
    TempoMap.ofSegments? (⟨some 0, 0, first.2⟩ ::
      TempoMap.segmentsAfter (Scalar.ofNat (max r.ppqn 1)) 0 0 first.2 changes) =
        some (TempoMap.ofTickTempos r.ppqn r.tempos)
  -- the stretch of a time, of a beat and of a tick is one of the map
  stretch : ∀ holds, r.tempoMap.stretches[Order.bisect holds r.tempoMap.stretches - 1]? =
    some (r.tempoMap.lastWhere holds)
  -- ticks are divided by the length of a bar
  bar : 0 < r.meter.ticksPerBar α r.ppqn
  -- chords are looked for at the multiples of a step
  step : 0 < gridStep α r.ppqn s.midi.chordGridDivision
  -- the bars that a row fills are in the table, in every state of it
  slot : ∀ row ∈ r.chordRows s, ∀ chord, Form.soundingChord? row = some chord →
    ∀ perBar table b, Form.Reaches perBar b row →
      1 ≤ b ∧ b ≤ (Form.holdRow perBar table row).length
  -- equally frequent blocks are compared by their first starts
  block : ∀ b ∈ Form.repeatedBlocks (r.signatures s) s.sections.windowBars
    s.sections.chorusMinOccurs, b.starts.head? = some b.first

theorem inBounds (r : Recording α) (s : Settings α) : r.InBounds s where
  tempo h := TempoMap.exists_ofTickTempos r.ppqn h
  stretch := r.tempoMap.getElem?_bisect
  bar := r.meter.ticksPerBar_pos r.ppqn
  step := Nat.le_max_right _ _
  slot _ _ _ h perBar table _ := Form.slot_of_reaches h perBar table
  block _ := Form.head?_starts

end Recording

end Chords

section Words

open Lyric

namespace Aligner

/-- What is read and divided by where words are aligned. -/
structure InBounds (a : Aligner α) (words : List (Word α)) : Prop where
  -- sub-beats are counted modulo the division of a beat and cut to those below it
  division : 0 < a.division
  window : -a.maxOffset ≤ a.maxOffset
  -- the middle residual, which is moved into the window
  median : words ≠ [] → ∃ median,
    ((words.map fun w => a.residual w.start).mergeSort residualAtMost)[words.length / 2]? =
      some median ∧
    a.globalOffset words = Scalar.clamp median (-a.maxOffset) a.maxOffset

theorem inBounds_withSettings [Scalar.LawfulWindow α] (a : Aligner α) {s : LyricSettings α}
    (h : Scalar.isNumber s.maxOffset = true) (words : List (Word α)) :
    (a.withSettings s).InBounds words where
  division := Nat.le_max_right _ _
  window := Scalar.LawfulWindow.neg_abs_le_abs s.maxOffset h
  median := exists_globalOffset_eq _

end Aligner

namespace LyricTrack

def caughtRows (words : List (Word α)) (track : ChordTrack α) (s : Settings α) : List (Row α) :=
  words.map (liveRow track.tempo track.meter.numerator track.pickup s.lyrics.melismaBeats)

/-- What is read and divided by where words are placed on a track. -/
structure InBounds (isLive : Bool) (words : List (Word α)) (track : ChordTrack α)
    (s : Settings α) : Prop where
  -- the last chord that has started is one of the chords
  chord : ∀ t n, Order.bisect (fun c : Row α => c.time ≤ t + 1e-9) (chordsInTime track.rows) =
    n + 1 → n < (chordsInTime track.rows).length
  grid : isLive = false → ∃ a : Aligner α,
    align words track s = .ok (ofAligner a words track s.lyrics.joiner) ∧ a.InBounds words
  -- each live word finds its number
  number : isLive = true → ∀ i < words.length, ∃ n,
    (numbered (caughtRows words track s)).lookup i = some n ∧
    (subIndices (caughtRows words track s))[i]? = some n

theorem inBounds [Scalar.LawfulWindow α] (isLive : Bool) (words : List (Word α))
    {track : ChordTrack α} (hNumerator : track.meter.numerator ≠ 0) {s : Settings α}
    (hNumber : Scalar.isNumber s.lyrics.maxOffset = true) : InBounds isLive words track s where
  chord _ _ := Order.lt_length_of_bisect
  grid _ := by
    rw [align, Aligner.create, dif_neg hNumerator]
    exact ⟨_, rfl, Aligner.inBounds_withSettings _ hNumber words⟩
  number _ i hi := by
    apply exists_lookup_numbered
    rwa [caughtRows, List.length_map]

end LyricTrack

end Words

end LeadSheet
