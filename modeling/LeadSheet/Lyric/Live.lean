import LeadSheet.Lyric.Word
import LeadSheet.Row
import LeadSheet.Tempo.Position

/-!
# Live words

Words caught while they are sung stay where they are. Those that share a bar and a beat are numbered
in the order of their start, and a word held long enough at the tempo of the moment is a melisma.
-/

namespace LeadSheet.Lyric
set_option autoImplicit false

variable {α : Type} [Scalar α]

/-- Rows share a place when their bars agree and their beats to six decimals. -/
def placeKey (row : Row α) : Int × Int :=
  (row.bar, Scalar.toInt (Scalar.round (row.beat * 1e6)))

/-- The numbers of rows among those of their place, for rows in order with their positions. Each is
the number of rows of its place that came before. -/
def numberPlaces (seen : List (Int × Int)) : List (Row α × Nat) → List (Nat × Nat)
  | [] => []
  | (row, i) :: more =>
    (i, seen.count (placeKey row)) :: numberPlaces (placeKey row :: seen) more

def subIndices (rows : List (Row α)) : List Nat :=
  let ordered := rows.zipIdx.mergeSort fun r s => Scalar.atMost r.1.start s.1.start
  let numbered := numberPlaces [] ordered
  (List.range rows.length).map fun i => (numbered.lookup i).getD 0

def liveRow (tempo : TempoMap α) (numerator : Nat) (pickup beats : α) (w : Word α) : Row α :=
  let pos := GridPosition.split (tempo.beatsAt w.start) numerator pickup
  let row := Row.blank .lyric pos.bar pos.beat pos.beatAbs w.start
  { row with
    dur := w.stop.map fun stop => Scalar.thousandths (stop - w.start)
    lyric := some w.text
    lyricConf := w.confidence
    wordStart := some w.start
    wordEnd := w.stop
    melisma := some (Word.isHeld w.start w.stop (tempo.bpmAt w.start) beats) }

def finishRow (row : Row α) (sub : Nat) : Row α :=
  { row with
    subIndex := some sub
    beat := Scalar.thousandths row.beat
    beatAbs := Scalar.thousandths row.beatAbs
    time := Scalar.thousandths row.time
    wordStart := row.wordStart.map Scalar.thousandths
    wordEnd := row.wordEnd.map Scalar.thousandths }

/-- The rows of live words. Without words the numerator does not matter. -/
def liveRows (words : List (Word α)) (tempo : TempoMap α) (numerator : Nat) (pickup beats : α) :
    Except (Error α) (List (Row α)) :=
  if numerator = 0 ∧ words ≠ [] then .error .invalidTimeSignature
  else
    let rows := words.map (liveRow tempo numerator pickup beats)
    .ok (List.zipWith finishRow rows (subIndices rows))

end LeadSheet.Lyric
