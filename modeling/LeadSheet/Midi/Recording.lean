import LeadSheet.Midi.File
import LeadSheet.Scalar
import LeadSheet.Tempo.Meter
import LeadSheet.Text.Blank
import LeadSheet.Text.Utf8

/-!
# Recordings

What a MIDI file tells of a song, gathered from all its tracks onto one axis of ticks: tempo
changes, the meter, texts, and notes from the tick they start at to the tick they are released at.
A release closes the latest note of its channel and key that still sounds.
-/

namespace LeadSheet
set_option autoImplicit false

namespace Midi

structure TextEvent where
  tick : Nat
  text : String
  kind : TextKind
  deriving Repr, DecidableEq

/-- A note; one that was never released has no end. -/
structure Note where
  tickOn : Nat
  tickOff : Option Nat
  pitch : Nat
  velocity : Nat
  channel : Nat
  program : Nat
  deriving Repr, DecidableEq

end Midi

structure Recording (α : Type) where
  ppqn : Nat
  meter : Meter
  /-- Ticks and tempos, in the order of the file. -/
  tempos : List (Nat × α)
  /-- Texts in the order of ticks. -/
  texts : List Midi.TextEvent
  notes : List Midi.Note
  maxTick : Nat
  /-- A tempo known from elsewhere. -/
  bpmHint : Option α
  deriving Repr, DecidableEq

namespace Midi

variable {α : Type} [Scalar α]

/-- What has been gathered so far, the latest first. -/
structure Gathering (α : Type) where
  tick : Nat
  maxTick : Nat
  meter : Meter
  tempos : List (Nat × α)
  texts : List TextEvent
  notes : List Note
  /-- Channels and the programs they were changed to. -/
  programs : List (Nat × Nat)

def Gathering.start : Gathering α := ⟨0, 0, Meter.common, [], [], [], []⟩

/-- Notes, the latest first, with the first open one of a channel and key released. -/
def release (channel key tick : Nat) : List Note → List Note
  | [] => []
  | n :: notes =>
    if n.channel = channel ∧ n.pitch = key ∧ n.tickOff = none then
      { n with tickOff := some tick } :: notes
    else n :: release channel key tick notes

/-- The denominator of a power; one out of range reads as 4. -/
def denominator (power : Nat) : Nat := if power < 32 then 1 <<< power else 4

namespace Gathering

def hear (g : Gathering α) : EventBody → Gathering α
  | .noteOn channel key velocity =>
    if 0 < velocity then
      { g with
        notes :=
          ⟨g.tick, none, key, velocity, channel, (g.programs.lookup channel).getD 0⟩ :: g.notes }
    else { g with notes := release channel key g.tick g.notes }
  | .noteOff channel key => { g with notes := release channel key g.tick g.notes }
  | .program channel program => { g with programs := (channel, program) :: g.programs }
  | .tempo microseconds =>
    { g with
      tempos := (g.tick, 60000000 / Scalar.ofNat (max microseconds 1)) :: g.tempos }
  | .meter numerator power => { g with meter := ⟨numerator, denominator power⟩ }
  | .text kind bytes =>
    { g with
      texts := ⟨g.tick, String.ofList (Text.trim (Text.decodeLossy bytes)), kind⟩ :: g.texts }
  | .other => g

def step (g : Gathering α) (e : TrackEvent) : Gathering α :=
  let tick := g.tick + e.delta
  { g with tick := tick, maxTick := max g.maxTick tick }.hear e.body

def track (g : Gathering α) (events : List TrackEvent) : Gathering α :=
  events.foldl step { g with tick := 0 }

end Gathering

end Midi

namespace Recording

variable {α : Type} [Scalar α]

def ofTracks (ppqn : Nat) (tracks : List (List Midi.TrackEvent)) : Recording α :=
  let g := tracks.foldl Midi.Gathering.track (Midi.Gathering.start : Midi.Gathering α)
  { ppqn := ppqn
    meter := g.meter
    tempos := g.tempos.reverse
    texts := g.texts.reverse.mergeSort fun e f => e.tick ≤ f.tick
    notes := g.notes.reverse
    maxTick := g.maxTick
    bpmHint := none }

def ofBytes (bytes : List UInt8) : Except (Error α) (Recording α) :=
  match Midi.File.ofBytes bytes with
  | .error fault => .error (.midiParse fault)
  | .ok ⟨.timeCode, _⟩ => .error .unsupportedTiming
  | .ok ⟨.perBeat ticks, tracks⟩ => .ok (ofTracks ticks tracks)

def withHint (r : Recording α) (hint : Option α) : Recording α := { r with bpmHint := hint }

end Recording

end LeadSheet
