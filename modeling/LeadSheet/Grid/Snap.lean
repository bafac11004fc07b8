import LeadSheet.Chord.Event
import LeadSheet.Order.Runs
import LeadSheet.Tempo.Meter

/-!
# Snapping to downbeats

Chord events are moved to the nearest eighth of a beat, and on to a bar line that is near enough.
Of events that meet on one tick the later stays; of neighbours with one symbol the earlier, except
that bar lines without a chord all stay.
-/

namespace LeadSheet
set_option autoImplicit false

variable {α : Type} [Scalar α]

namespace Grid

def snapWithin (v step tolerance : α) : α :=
  if step ≤ 0 then v
  else
    let nearest := Scalar.round (v / step) * step
    if Scalar.abs (v - nearest) ≤ tolerance then nearest else v

def nearestMultiple (α : Type) [Scalar α] (tick step : Nat) : Nat :=
  Scalar.toNat (Scalar.round (Scalar.ofNat tick / Scalar.ofNat step : α)) * step

def distance (s t : Nat) : Nat := s - t + (t - s)

/-- Where a tick goes: to the grid of eighth beats, then to a bar line within the window. -/
def snapTick (α : Type) [Scalar α] (eighth bar window tick : Nat) : Nat :=
  let onGrid := nearestMultiple α tick eighth
  let barLine := nearestMultiple α onGrid bar
  if distance barLine onGrid ≤ window then barLine else onGrid

end Grid

namespace ChordEvent

def repeats (e f : ChordEvent) : Bool :=
  !(e.source = .grid && f.source = .grid) && e.symbol == f.symbol

def snapToDownbeats (events : List ChordEvent) (ppqn : Nat) (meter : Meter) (snapBeats : α) :
    List ChordEvent :=
  let bar := meter.ticksPerBar α ppqn
  let window := Scalar.toNat (Scalar.larger (Scalar.round (Scalar.ofNat ppqn * snapBeats)) 0)
  let moved := (sorted events).map fun e =>
    { e with tick := Grid.snapTick α (max (ppqn / 8) 1) bar window e.tick }
  Order.keepFirst repeats (Order.keepLast (fun e f => e.tick == f.tick) moved)

/-- The share of events near a downbeat from which the window is widened. -/
def tightenRatio : α := 0.7

def tightenBeats : α := 0.9

def nearDownbeats (events : List ChordEvent) (ppqn : Nat) (meter : Meter) (α : Type) [Scalar α] :
    Nat :=
  let bar := meter.ticksPerBar α ppqn
  let window := Scalar.toNat (Scalar.ofNat ppqn * (tightenBeats : α))
  (events.filter fun e =>
    Grid.distance (Grid.nearestMultiple α e.tick bar) e.tick ≤ window).length

def mostlyNear (events : List ChordEvent) (ppqn : Nat) (meter : Meter) (α : Type) [Scalar α] :
    Bool :=
  let ratio : α := Scalar.ofNat (nearDownbeats events ppqn meter α) / Scalar.ofNat events.length
  !events.isEmpty && tightenRatio ≤ ratio

/-- Snaps, and snaps again with a wider window when most events already stand near a bar line.
Without a window the events are only sorted. -/
def adaptiveSnap (events : List ChordEvent) (ppqn : Nat) (meter : Meter) (snapBeats : α) :
    List ChordEvent :=
  if snapBeats ≤ 0 then sorted events
  else
    let snapped := snapToDownbeats events ppqn meter snapBeats
    if mostlyNear snapped ppqn meter α then
      snapToDownbeats snapped ppqn meter (Scalar.larger snapBeats tightenBeats)
    else snapped

end ChordEvent

end LeadSheet
