import LeadSheet.Grid.Snap
import LeadSheet.Row

/-!
# Chord rows

Chord events become rows of the grid. Each lasts until the next, and the last one a bar. Bars have
the length that the meter notates, and the grid starts in bar 1: if nothing sounds there at tick 0,
a row says so.
-/

namespace LeadSheet
set_option autoImplicit false

variable {α : Type} [Scalar α]

namespace Grid

/-- A duration in beats: whole bars within a tenth of a beat, else an eighth within 0.06. -/
def quantizeDuration (raw beatsPerBar : α) : α :=
  let fine := Scalar.larger (snapWithin raw 0.125 0.06) 0.125
  if 0 < beatsPerBar then
    let bars := Scalar.round (raw / beatsPerBar)
    if 1 ≤ bars ∧ Scalar.abs (raw - bars * beatsPerBar) ≤ 0.10 then
      Scalar.larger (bars * beatsPerBar) 0.25
    else fine
  else fine

/-- No chord row lasts less, in seconds. -/
def minDuration : α := 0.25

/-- The beat to the nearest whole beat, else to the nearest quarter, within 0.02. -/
def snapBeat (raw : α) : α :=
  let whole := snapWithin raw 1 0.02
  if whole == raw then snapWithin raw 0.25 0.02 else whole

def chordRow (ppqn : Nat) (beatsPerBar : α) (tempo : TempoMap α) (e : ChordEvent) (next : Nat) :
    Row α :=
  let perBeat : α := Scalar.ofNat ppqn
  let beatAbs := Scalar.ofNat e.tick / perBeat
  let bar := Scalar.bar α (Scalar.toInt (Scalar.floor (beatAbs / beatsPerBar)) + 1)
  let beat := snapBeat (Scalar.modulo beatAbs beatsPerBar + 1)
  let carried := beatsPerBar + 1 ≤ beat ∧ 1 ≤ bar
  let start := tempo.secondsAtTick e.tick ppqn
  let dur := Scalar.thousandths (tempo.secondsAtTick next ppqn - start)
  let row := Row.blank .chord
    (if carried then Scalar.bar α (bar + 1) else bar)
    (Scalar.thousandths (if carried then 1 else beat))
    (Scalar.thousandths (snapWithin beatAbs 0.25 0.02))
    (Scalar.thousandths start)
  { row with
    chord := some e.symbol
    durBeats := some (Scalar.thousandths
      (quantizeDuration (Scalar.ofNat (next - e.tick) / perBeat) beatsPerBar))
    dur := some (Scalar.larger dur minDuration) }

def rowsFrom (ppqn : Nat) (meter : Meter) (tempo : TempoMap α) : List ChordEvent → List (Row α)
  | [] => []
  | [e] => [chordRow ppqn meter.beatsPerBar tempo e (e.tick + meter.ticksPerBar α ppqn)]
  | e :: f :: events =>
    chordRow ppqn meter.beatsPerBar tempo e (max f.tick e.tick) ::
      rowsFrom ppqn meter tempo (f :: events)

/-- The events with one at tick 0, which says that no chord sounds if none was there. -/
def anchored : List ChordEvent → List ChordEvent
  | [] => []
  | e :: events =>
    if 0 < e.tick then ⟨0, Chord.noChord, .text⟩ :: e :: events else e :: events

def chordRows (events : List ChordEvent) (ppqn : Nat) (meter : Meter) (tempo : TempoMap α) :
    List (Row α) :=
  rowsFrom (max ppqn 1) meter tempo (anchored events)

end Grid

end LeadSheet
