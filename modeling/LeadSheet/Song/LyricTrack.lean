import LeadSheet.Lyric.Bars
import LeadSheet.Lyric.Chords
import LeadSheet.Lyric.Live
import LeadSheet.Song.ChordTrack

/-!
# Lyric tracks

Words on the grid of a chord track: aligned to it and joined by bars, or placed as they were caught.
Each row takes its chord from the track, then its section, and last its bar number. Words after the
last bar of the track lengthen its form.
-/

namespace LeadSheet
set_option autoImplicit false

structure LyricTrack (α : Type) where
  offset : α
  words : List (Row α)
  bars : List (Row α)
  /-- The sections of the chord track, over all bars with words. -/
  sections : List SectionRange

namespace LyricTrack

variable {α : Type} [Scalar α]

def sectionsFor (track : ChordTrack α) (rows : List (Row α)) : List SectionRange :=
  Form.extend track.sections (Form.lastBar rows)

def finish (track : ChordTrack α) (sections : List SectionRange) (rows : List (Row α)) :
    List (Row α) :=
  (Form.stamp sections rows).map (Row.renumber track.barOffset)

def ofAligner (aligner : Aligner α) (words : List (Word α)) (track : ChordTrack α)
    (joiner : String) : LyricTrack α :=
  let (offset, aligned) := aligner.align words
  let wordRows := Lyric.attachChords aligned track.rows
  let barRows := aligner.groupByBar joiner wordRows
  let sections := sectionsFor track (wordRows ++ barRows)
  { offset := offset
    words := finish track sections wordRows
    bars := finish track sections barRows
    sections := sections }

def align (words : List (Word α)) (track : ChordTrack α) (s : Settings α) :
    Except (Error α) (LyricTrack α) := do
  let aligner ← Aligner.create track.tempo track.meter.numerator track.pickup
  return ofAligner (aligner.withSettings s.lyrics) words track s.lyrics.joiner

def live (words : List (Word α)) (track : ChordTrack α) (s : Settings α) :
    Except (Error α) (LyricTrack α) := do
  let rows ← Lyric.liveRows words track.tempo track.meter.numerator track.pickup
    s.lyrics.melismaBeats
  let wordRows := Lyric.attachChords rows track.rows
  let sections := sectionsFor track wordRows
  return {
    offset := 0
    words := finish track sections wordRows
    bars := []
    sections := sections }

end LyricTrack

end LeadSheet
