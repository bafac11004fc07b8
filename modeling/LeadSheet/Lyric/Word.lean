import LeadSheet.Scalar

/-!
# Words

A timed word, or a timed line, of a lyric source.
-/

namespace LeadSheet
set_option autoImplicit false

structure Word (α : Type) where
  text : String
  start : α
  stop : Option α
  confidence : Option α
  deriving Repr, DecidableEq

namespace Word

variable {α : Type} [Scalar α]

def shift (offset : α) (w : Word α) : Word α :=
  { w with start := w.start + offset, stop := w.stop.map (· + offset) }

def defaultLength : α := 0.25

/-- Whether a word is held for so many beats. A tempo that is not above 0 reads as 60, and a word
without an end is never held. -/
def isHeld (start : α) (stop : Option α) (bpm beats : α) : Bool :=
  match stop with
  | none => false
  | some stop =>
    let bpm := if 0 < bpm then bpm else 60
    beats ≤ Scalar.larger (stop - start) 0 / (60 / bpm)

end Word

end LeadSheet
