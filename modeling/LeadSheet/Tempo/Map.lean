import LeadSheet.Error
import LeadSheet.Order.Bisect
import LeadSheet.Order.Runs
import LeadSheet.Scalar

/-!
# Tempo maps

A tempo map says how many beats have passed at a time, and at what time a beat sounds. It is a list
of stretches of one tempo, in time order and never empty; each knows the beats that have passed
where it starts, so both questions are a search for one stretch and a line through its start.

Ticks are a third measure of the same axis. A map made from tick tempos places a tick by the stretch
that starts at or before it; a map with a stretch that has no tick goes through beats.
-/

namespace LeadSheet
set_option autoImplicit false

structure TempoSegment (α : Type) where
  startTick : Option Nat
  start : α
  bpm : α
  deriving Repr, DecidableEq

variable {α : Type} [Scalar α]

def defaultBpm : α := 120

/-- No tempo counts as slower, so a beat always has a length. -/
def minBpm : α := 1e-6

namespace TempoSegment

def beatsPerSecond (s : TempoSegment α) : α := Scalar.larger s.bpm minBpm / 60

def secondsPerBeat (s : TempoSegment α) : α := 60 / Scalar.larger s.bpm minBpm

/-- In order of time, then of tick; a segment without a tick comes first. -/
def atMost (s t : TempoSegment α) : Bool :=
  ((Scalar.totalCmp s.start t.start).then
    (compare (s.startTick.map (· + 1) |>.getD 0) (t.startTick.map (· + 1) |>.getD 0))).isLE

def sameTick (s t : TempoSegment α) : Bool := s.startTick.isSome && s.startTick == t.startTick

end TempoSegment

/-- A segment and the beats that have passed where it starts. -/
structure Stretch (α : Type) where
  segment : TempoSegment α
  beats : α

structure TempoMap (α : Type) where
  first : Stretch α
  rest : List (Stretch α)

namespace TempoMap

def follow (s : Stretch α) : List (TempoSegment α) → List (Stretch α)
  | [] => []
  | t :: ts =>
    let elapsed := Scalar.larger (t.start - s.segment.start) 0
    let next := ⟨t, s.beats + elapsed * s.segment.beatsPerSecond⟩
    next :: follow next ts

/-- The map of segments in any order. Of neighbours at the same tick the one listed last counts. -/
def ofSegments? (segments : List (TempoSegment α)) : Option (TempoMap α) :=
  match Order.keepLast TempoSegment.sameTick (segments.mergeSort TempoSegment.atMost) with
  | [] => none
  | s :: ss => some ⟨⟨s, 0⟩, follow ⟨s, 0⟩ ss⟩

def ofSegments (segments : List (TempoSegment α)) : Except (Error α) (TempoMap α) :=
  match ofSegments? segments with
  | some map => .ok map
  | none => .error .emptyTempoMap

def constant (bpm : α) : TempoMap α := ⟨⟨⟨some 0, 0, bpm⟩, 0⟩, []⟩

def segmentsAfter (ppqn : α) (tick : Nat) (seconds bpm : α) :
    List (Nat × α) → List (TempoSegment α)
  | [] => []
  | (nextTick, nextBpm) :: changes =>
    let passed := Scalar.ofNat (nextTick - tick) / ppqn * (60 / Scalar.larger bpm minBpm)
    ⟨some nextTick, seconds + passed, nextBpm⟩ ::
      segmentsAfter ppqn nextTick (seconds + passed) nextBpm changes

/-- The map of tempo changes at ticks. Of changes at one tick the last counts, and the earliest
tempo holds from tick 0. -/
def ofTickTempos (ppqn : Nat) (events : List (Nat × α)) : TempoMap α :=
  let sorted := events.mergeSort fun e f => e.1 ≤ f.1
  match Order.keepLast (fun e f => e.1 == f.1) sorted with
  | [] => constant defaultBpm
  | (_, bpm) :: changes =>
    let segments :=
      ⟨some 0, 0, bpm⟩ :: segmentsAfter (Scalar.ofNat (max ppqn 1)) 0 0 bpm changes
    (ofSegments? segments).getD (constant defaultBpm)

def stretches (m : TempoMap α) : List (Stretch α) := m.first :: m.rest

def segments (m : TempoMap α) : List (TempoSegment α) := m.stretches.map (·.segment)

/-- The last stretch of the front part that has a property, or else the first stretch. -/
def lastWhere (m : TempoMap α) (holds : Stretch α → Bool) : Stretch α :=
  m.stretches.getD (Order.bisect holds m.stretches - 1) m.first

def stretchAt (m : TempoMap α) (t : α) : Stretch α := m.lastWhere (·.segment.start ≤ t)

def beatsAt (m : TempoMap α) (t : α) : α :=
  let s := m.stretchAt t
  s.beats + Scalar.larger (t - s.segment.start) 0 * s.segment.beatsPerSecond

def secondsAt (m : TempoMap α) (beat : α) : α :=
  let s := m.lastWhere (·.beats ≤ beat)
  s.segment.start + Scalar.larger (beat - s.beats) 0 * s.segment.secondsPerBeat

def bpmAt (m : TempoMap α) (t : α) : α := Scalar.larger (m.stretchAt t).segment.bpm minBpm

def secondsPerBeatAt (m : TempoMap α) (t : α) : α := 60 / m.bpmAt t

def secondsAtTick (m : TempoMap α) (tick ppqn : Nat) : α :=
  let perBeat : α := Scalar.ofNat (max ppqn 1)
  if m.segments.any (·.startTick.isNone) then m.secondsAt (Scalar.ofNat tick / perBeat)
  else
    let s := (m.lastWhere (·.segment.startTick.getD 0 ≤ tick)).segment
    s.start + Scalar.ofNat (tick - s.startTick.getD 0) / perBeat * s.secondsPerBeat

end TempoMap

end LeadSheet
