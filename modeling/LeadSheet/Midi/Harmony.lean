import LeadSheet.Chord.Symbol
import LeadSheet.Chord.Template
import LeadSheet.Grid.Snap
import LeadSheet.Midi.Recording
import LeadSheet.Settings

/-!
# Harmony of a recording

The chords of a recording are its labels. When there are too few of them, chords are recognised from
the notes that sound on a grid of beat fractions, and with neither, every bar line stands for no
chord.
-/

namespace LeadSheet.Recording
set_option autoImplicit false

variable {α : Type} [Scalar α]

/-- Whether the tempos of a file say nothing: there is none, or only the default. -/
def hasDefaultTempo (r : Recording α) : Bool :=
  match r.tempos with
  | [] => true
  | [(_, bpm)] => Scalar.abs (bpm - defaultBpm) < 1e-6
  | _ => false

/-- The tempo map; a hint counts when the file has no tempo of its own. -/
def tempoMap (r : Recording α) : TempoMap α :=
  match r.bpmHint with
  | some hint =>
    if r.hasDefaultTempo then .constant hint else .ofTickTempos r.ppqn r.tempos
  | none => .ofTickTempos r.ppqn r.tempos

def duration (r : Recording α) (tempo : TempoMap α) : α := tempo.secondsAtTick r.maxTick r.ppqn

def textChords (r : Recording α) : List ChordEvent :=
  (r.texts.filter fun e => e.kind ≠ .lyric && ChordSymbol.isLabel (Text.trimmed e.text)).map
    fun e => ⟨e.tick, Text.trimmed e.text, .text⟩

def drumChannel : Nat := 9

/-- A note's sounding interval, the end excluded, and its pitch class. -/
structure Span where
  tickOn : Nat
  tickOff : Nat
  pitchClass : Nat
  deriving Repr, DecidableEq

/-- A note that was not released lasts a beat, and one that ends before it starts half a beat. -/
def span (ppqn : Nat) (n : Midi.Note) : Span :=
  let off := n.tickOff.getD (n.tickOn + ppqn)
  { tickOn := n.tickOn
    tickOff := if off ≤ n.tickOn then n.tickOn + max (ppqn / 2) 1 else off
    pitchClass := n.pitch % 12 }

def soundsAt (tick : Nat) (s : Span) : Bool := s.tickOn ≤ tick && tick < s.tickOff

def chordAt? (spans : List Span) (tick : Nat) : Option String :=
  Chord.nameOf? ((spans.filter (soundsAt tick)).map (·.pitchClass))

/-- The ticks at which a new chord starts, with its name, after a time that had `current`. -/
def changes (current : Option String) : List (Nat × Option String) → List (Nat × String)
  | [] => []
  | (tick, name) :: more =>
    match name with
    | some chord =>
      if current = some chord then changes current more
      else (tick, chord) :: changes (some chord) more
    | none => changes none more

def harmonicNotes (r : Recording α) (settings : MidiSettings α) : List Midi.Note :=
  r.notes.filter fun n => !(settings.ignoreDrums && n.channel == drumChannel)

def gridStep (α : Type) [Scalar α] (ppqn gridDivision : Nat) : Nat :=
  max (Scalar.toNat (Scalar.round
    (Scalar.ofNat (max ppqn 1) / Scalar.ofNat (max gridDivision 1) : α))) 1

def inferredSnapBeats : α := 0.9

def lastTick (r : Recording α) (spans : List Span) : Nat :=
  if 0 < r.maxTick then r.maxTick else spans.foldl (fun n s => max n s.tickOff) 0

def gridChords (r : Recording α) (settings : MidiSettings α) : List ChordEvent :=
  let spans := (r.harmonicNotes settings).map (span (max r.ppqn 1))
  let last := r.lastTick spans
  let step := gridStep α r.ppqn settings.chordGridDivision
  let ticks := if spans.isEmpty then [] else (List.range (last / step + 1)).map (· * step)
  (changes none (ticks.map fun t => (t, chordAt? spans t))).map fun (tick, name) =>
    ⟨tick, name, .inferred⟩

def inferredChords (r : Recording α) (settings : MidiSettings α) : List ChordEvent :=
  ChordEvent.snapToDownbeats (r.gridChords settings) r.ppqn r.meter (inferredSnapBeats : α)

def barLines (r : Recording α) : List ChordEvent :=
  let bar := r.meter.ticksPerBar α r.ppqn
  (List.range (r.maxTick / bar + 1)).map fun i => .barLine (i * bar)

/-- Labels with the recognised chords, which replace them if they are more. -/
def labelsOrNotes (labels inferred : List ChordEvent) : List ChordEvent :=
  if labels.length < inferred.length then inferred else labels ++ inferred

def chordEvents (r : Recording α) (settings : MidiSettings α) : List ChordEvent :=
  let labels := r.textChords
  let events :=
    if labels.length < settings.minTextChords then
      let events := labelsOrNotes labels (r.inferredChords settings)
      if events.isEmpty && 0 < r.maxTick then r.barLines else events
    else labels
  ChordEvent.sorted events

end LeadSheet.Recording
