import LeadSheet.Song.LyricTrack

/-!
# Sheets

The lead sheet of a song: all its rows in the order of time, its sections, and the offset by which
words were moved if there are any.
-/

namespace LeadSheet
set_option autoImplicit false

structure Sheet (α : Type) where
  rows : List (Row α)
  sections : List SectionRange
  offset : Option α
  deriving Repr, DecidableEq

namespace Sheet

variable {α : Type} [Scalar α]

/-- The rows of both tracks in the order of time, those of the chord track first at equal times. -/
def assemble (chords : ChordTrack α) (lyrics : Option (LyricTrack α)) : Sheet α :=
  let ordered (rows : List (Row α)) := rows.mergeSort fun r s => Scalar.atMost r.time s.time
  match lyrics with
  | none => ⟨ordered chords.rows, chords.sections, none⟩
  | some lyrics =>
    ⟨ordered (chords.rows ++ lyrics.words ++ lyrics.bars), lyrics.sections, some lyrics.offset⟩

/-- The sheet of a recording and its words, which may have been caught live. An empty list of words
is as good as none. -/
def ofSong (isLive : Bool) (r : Recording α) (words : Option (List (Word α))) (s : Settings α) :
    Except (Error α) (Sheet α) := do
  let chords ← ChordTrack.ofRecording r s
  match words.filter (!·.isEmpty) with
  | none => return assemble chords none
  | some words =>
    let lyrics ← if isLive then LyricTrack.live words chords s else LyricTrack.align words chords s
    return assemble chords (some lyrics)

end Sheet

end LeadSheet
