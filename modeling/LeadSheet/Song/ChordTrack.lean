import LeadSheet.Form.Stamp
import LeadSheet.Grid.ChordRows
import LeadSheet.Midi.Harmony

/-!
# Chord tracks

The chord rows of a recording, the sections that they imply, and the grid that words are placed on.
Sections are found before the rows are renumbered, so they count bars of the recording.
-/

namespace LeadSheet
set_option autoImplicit false

variable {α : Type} [Scalar α]

/-- The chord rows of a recording before they have sections. -/
def Recording.chordRows (r : Recording α) (s : Settings α) : List (Row α) :=
  Grid.chordRows (ChordEvent.adaptiveSnap (r.chordEvents s.midi) r.ppqn r.meter s.midi.snapBeats)
    r.ppqn r.meter r.tempoMap

structure ChordTrack (α : Type) where
  tempo : TempoMap α
  meter : Meter
  ppqn : Nat
  pickup : α
  barOffset : Int
  duration : α
  chords : List (PlacedChord α)
  /-- Chord rows, with their bars renumbered. -/
  rows : List (Row α)
  /-- Ranges of bars that are not renumbered. -/
  sections : List SectionRange

namespace ChordTrack

def recordedBars (r : Recording α) : Nat :=
  let bar := r.meter.ticksPerBar α r.ppqn
  (r.maxTick + bar - 1) / bar

/-- The track of a recording, under settings that have been checked. -/
def build (r : Recording α) (s : Settings α) : ChordTrack α :=
  let tempo := r.tempoMap
  let events := ChordEvent.adaptiveSnap (r.chordEvents s.midi) r.ppqn r.meter s.midi.snapBeats
  let found := Form.inferSections (Grid.chordRows events r.ppqn r.meter tempo)
    r.meter.beatsPerBar (recordedBars r) s.sections
  { tempo := tempo
    meter := r.meter
    ppqn := r.ppqn
    pickup := s.midi.pickupBeats
    barOffset := s.midi.barOffset
    duration := r.duration tempo
    chords := events.map fun e => e.place r.ppqn tempo
    rows := found.1.map (Row.renumber s.midi.barOffset)
    sections := found.2 }

def ofRecording (r : Recording α) (s : Settings α) : Except (Error α) (ChordTrack α) := do
  s.check
  r.meter.check
  return build r s

end ChordTrack

end LeadSheet
