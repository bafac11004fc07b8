import LeadSheet.Chord.Spelling
import LeadSheet.Order.Bisect
import LeadSheet.Row

/-!
# Chords over words

A word takes the chord that sounds at its start: that of the last chord row which starts by then.
Before the first chord, and after the last has run out, no chord sounds.
-/

namespace LeadSheet.Lyric
set_option autoImplicit false

variable {α : Type} [Scalar α]

def chordsInTime (rows : List (Row α)) : List (Row α) :=
  (rows.filter (·.kind = .chord)).mergeSort fun r s => Scalar.atMost r.time s.time

def lastsBeyond (t : α) (chord : Row α) : Bool :=
  match chord.dur with
  | some dur => t < chord.time + dur
  | none => true

/-- The row that sounds at a time, of chord rows in the order of time. -/
def soundingAt? (chords : List (Row α)) (t : α) : Option (Row α) :=
  let started := Order.bisect (fun c : Row α => c.time ≤ t + 1e-9) chords
  match started with
  | 0 => none
  | n + 1 =>
    (chords[n]?).filter fun c => started < chords.length || lastsBeyond t c

/-- The row with the chord that sounds at its start, unless it has one or is one. -/
def attachChord (chords : List (Row α)) (row : Row α) : Row α :=
  if row.kind = .chord ∨ row.chord.isSome then row
  else
    { row with
      chord := some (((soundingAt? chords row.start).bind (·.chord)).getD Chord.noChord) }

def attachChords (rows chordRows : List (Row α)) : List (Row α) :=
  rows.map (attachChord (chordsInTime chordRows))

end LeadSheet.Lyric
