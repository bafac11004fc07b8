import LeadSheet.Chord.Spelling
import LeadSheet.Tempo.Map

/-!
# Chord events

A chord label at a tick, before it is placed on the grid, and the same label placed in time.
-/

namespace LeadSheet
set_option autoImplicit false

inductive ChordSource
  | text
  | inferred
  /-- A bar line of a song that has no chords. -/
  | grid
  deriving Repr, DecidableEq

def ChordSource.name : ChordSource → String
  | .text => "text"
  | .inferred => "inferred"
  | .grid => "grid"

structure ChordEvent where
  tick : Nat
  label : String
  source : ChordSource
  deriving Repr, DecidableEq

/-- A chord event in seconds, with its canonical symbol. -/
structure PlacedChord (α : Type) where
  time : α
  tick : Nat
  label : String
  symbol : String
  source : ChordSource

namespace ChordEvent

def barLine (tick : Nat) : ChordEvent := ⟨tick, Chord.noChord, .grid⟩

def symbol (e : ChordEvent) : String := Chord.spellOrNone e.label

def place {α : Type} [Scalar α] (e : ChordEvent) (ppqn : Nat) (tempo : TempoMap α) :
    PlacedChord α :=
  ⟨Scalar.thousandths (tempo.secondsAtTick e.tick ppqn), e.tick, e.label, e.symbol, e.source⟩

/-- The events in tick order; those of one tick stay in theirs. -/
def sorted (events : List ChordEvent) : List ChordEvent :=
  events.mergeSort fun e f => e.tick ≤ f.tick

end ChordEvent

end LeadSheet
