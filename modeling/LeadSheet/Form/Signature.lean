import LeadSheet.Chord.Spelling
import LeadSheet.Order.Runs
import LeadSheet.Row

/-!
# Bar signatures

The signature of a bar is the list of chords that sound in it. A chord sounds in every bar that its
row reaches into; equal neighbours are listed once, and bars without a chord are empty.
-/

namespace LeadSheet.Form
set_option autoImplicit false

variable {α : Type} [Scalar α]

def soundingChord? (row : Row α) : Option String :=
  match row.kind, row.chord with
  | .chord, some label =>
    let chord := Text.trimmed label
    if chord.isEmpty || chord.toList.map Char.toLower == Chord.noChord.toList.map Char.toLower ||
        row.bar < 1 then none
    else some chord
  | _, _ => none

/-- How many bars beyond its own a row reaches into. -/
def extraBars (beatsPerBar : α) (row : Row α) : Nat :=
  let held := Scalar.larger (row.durBeats.getD 0) 0
  if 0 < held then
    let spanEnd := (row.beat - 1) + held
    Scalar.toNat (Scalar.larger (Scalar.floor ((spanEnd - 1e-9) / beatsPerBar)) 0)
  else 0

/-- The chords of a bar with one more, unless it sounds already. -/
def addChord (chord : String) (slot : List String) : List String :=
  if slot.getLast? = some chord then slot else slot ++ [chord]

def holdChord (chord : String) (first last : Nat) (table : List (List String)) :
    List (List String) :=
  let grown := table ++ List.replicate (last - table.length) []
  grown.mapIdx fun i slot => if first ≤ i + 1 ∧ i + 1 ≤ last then addChord chord slot else slot

def lastBar (rows : List (Row α)) : Nat := rows.foldl (fun n row => max n row.bar.toNat) 0

def chordTable (rows : List (Row α)) (beatsPerBar : α) : List (List String) :=
  let perBar := if 0 < beatsPerBar then beatsPerBar else 4
  rows.foldl
    (fun table row =>
      match soundingChord? row with
      | some chord =>
        let first := row.bar.toNat
        holdChord chord first (first + extraBars perBar row) table
      | none => table)
    (List.replicate (lastBar rows) [])

def barSignatures (rows : List (Row α)) (beatsPerBar : α) : List String :=
  (chordTable rows beatsPerBar).map (String.intercalate " ")

end LeadSheet.Form
