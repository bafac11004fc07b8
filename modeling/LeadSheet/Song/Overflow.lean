import LeadSheet.Song.Sheet

/-!
# Overflow

Ticks are counted in words without a sign, and bars are numbered in words with one. The rules of the
library take sums and products as they are. Here are those that the way to a sheet leads over, and
`Sheet.run` says what a build makes of a song in which one of them leaves its word: a checked build
stops, and an unchecked one keeps what is left of a bar number. What an unchecked build makes of
ticks beyond their words is not followed, since the search for chords need not end there. The memory
for the bars of a song is taken for granted.
-/

namespace LeadSheet
set_option autoImplicit false

variable {α : Type} [Scalar α]

section Ticks

namespace ChordEvent

/-- The multiples that ticks are moved to: those of an eighth beat, then those of a bar. -/
def snapTicks (α : Type) [Scalar α] (events : List ChordEvent) (ppqn : Nat) (meter : Meter) :
    List Nat :=
  events.flatMap fun e =>
    let onGrid := Grid.nearestMultiple α e.tick (max (ppqn / 8) 1)
    [onGrid, Grid.nearestMultiple α onGrid (meter.ticksPerBar α ppqn)]

def adaptiveTicks (events : List ChordEvent) (ppqn : Nat) (meter : Meter) (snapBeats : α) :
    List Nat :=
  if snapBeats ≤ 0 then []
  else
    let snapped := snapToDownbeats events ppqn meter snapBeats
    let barLines :=
      snapped.map fun e => Grid.nearestMultiple α e.tick (meter.ticksPerBar α ppqn)
    let again := if mostlyNear snapped ppqn meter α then snapTicks α snapped ppqn meter else []
    snapTicks α events ppqn meter ++ barLines ++ again

end ChordEvent

/-- One bar behind every event, though only the last lasts so long. -/
def Grid.barAfterTicks (α : Type) [Scalar α] (events : List ChordEvent) (ppqn : Nat)
    (meter : Meter) : List Nat :=
  (anchored events).map fun e => e.tick + meter.ticksPerBar α (max ppqn 1)

def Form.heldBars (rows : List (Row α)) (beatsPerBar : α) : List Nat :=
  let perBar := if 0 < beatsPerBar then beatsPerBar else 4
  rows.filterMap fun row =>
    (soundingChord? row).map fun _ => row.bar.toNat + extraBars perBar row

def Recording.chordTicks (r : Recording α) (settings : MidiSettings α) : List Nat :=
  let notes := r.harmonicNotes settings
  let inferred := r.inferredChords settings
  let step := gridStep α r.ppqn settings.chordGridDivision
  -- a beat behind the start of every note, released or not
  let ends := notes.map fun n => n.tickOn + max r.ppqn 1
  -- the search goes on to the first point of its grid behind the last tick
  let search :=
    if notes.isEmpty then []
    else [(r.lastTick (notes.map (span (max r.ppqn 1))) / step + 1) * step]
  let barLines :=
    if (labelsOrNotes r.textChords inferred).isEmpty && 0 < r.maxTick then
      [r.maxTick / r.meter.ticksPerBar α r.ppqn + 1]
    else []
  if r.textChords.length < settings.minTextChords then
    ends ++ search ++ ChordEvent.snapTicks α (r.gridChords settings) r.ppqn r.meter ++ barLines
  else []

def ChordTrack.ticks (r : Recording α) (s : Settings α) : List Nat :=
  let events := r.chordEvents s.midi
  let snapped := ChordEvent.adaptiveSnap events r.ppqn r.meter s.midi.snapBeats
  r.chordTicks s.midi ++ ChordEvent.adaptiveTicks events r.ppqn r.meter s.midi.snapBeats ++
    Grid.barAfterTicks α snapped r.ppqn r.meter ++
    Form.heldBars (r.chordRows s) r.meter.beatsPerBar

end Ticks

section Bars

/-- The bars that words are found in: first where they were, then moved by the offset, where they
start, where they are put and where they end. -/
def Aligner.wordBars (a : Aligner α) (words : List (Word α)) : List Int :=
  let moved := words.map (Word.shift (a.globalOffset words))
  words.map (fun w => (a.position w.start).bar) ++ moved.flatMap fun w =>
    [(a.position w.start).bar, (a.snapWord w).bar,
      (a.position (w.stop.getD (w.start + Word.defaultLength))).bar]

def LyricTrack.wordBars (isLive : Bool) (words : List (Word α)) (track : ChordTrack α)
    (s : Settings α) : List Int :=
  if isLive then
    words.map fun w =>
      (GridPosition.split (track.tempo.beatsAt w.start) track.meter.numerator track.pickup).bar
  else
    match Aligner.create track.tempo track.meter.numerator track.pickup with
    | .ok a => (a.withSettings s.lyrics).wordBars words
    | .error _ => []

end Bars

def ChordTrack.keepBars (track : ChordTrack α) : ChordTrack α :=
  { track with rows := track.rows.map Row.keepBar }

namespace Sheet

def placedBars (isLive : Bool) (r : Recording α) (words : Option (List (Word α)))
    (s : Settings α) : List Int :=
  (r.chordRows s).map (·.bar) ++
    LyricTrack.wordBars isLive (words.getD []) (ChordTrack.build r s) s

/-- Whether a number on the way to a sheet leaves its word. -/
def overflows (isLive : Bool) (r : Recording α) (words : Option (List (Word α))) (s : Settings α)
    (sheet : Sheet α) : Bool :=
  !(ChordTrack.ticks r s).all Word64.holdsNat ||
    Scalar.buildOf α = .checked &&
      !(placedBars isLive r words s ++ sheet.rows.map (·.bar)).all Word64.holds

def keepBars (sheet : Sheet α) : Sheet α := { sheet with rows := sheet.rows.map Row.keepBar }

/-- The sheet of a song, as a build comes to it. -/
def run (isLive : Bool) (r : Recording α) (words : Option (List (Word α))) (s : Settings α) :
    Except (Error α) (Sheet α) := do
  let sheet ← ofSong isLive r words s
  if sheet.overflows isLive r words s then .error .overflow else .ok sheet.keepBars

end Sheet

end LeadSheet
