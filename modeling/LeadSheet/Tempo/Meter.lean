import LeadSheet.Error
import LeadSheet.Scalar

/-!
# Meter

The time signature as notated. A beat is a quarter note, so a bar of chords has
`numerator * 4 / denominator` beats.
-/

namespace LeadSheet
set_option autoImplicit false

structure Meter where
  numerator : Nat
  denominator : Nat
  deriving Repr, DecidableEq

namespace Meter

def common : Meter := ⟨4, 4⟩

variable {α : Type} [Scalar α]

/-- The length of a bar in beats. A denominator of 0 reads as 4. -/
def beatsPerBar (m : Meter) : α :=
  Scalar.ofNat m.numerator * (4 / Scalar.ofNat (if m.denominator = 0 then 4 else m.denominator))

def ticksPerBar (m : Meter) (α : Type) [Scalar α] (ppqn : Nat) : Nat :=
  let ticks := Scalar.toNat (Scalar.round (Scalar.ofNat ppqn * (m.beatsPerBar : α)))
  if 0 < ticks then ticks else max (ppqn * m.numerator) 1

def check (m : Meter) : Except (Error α) Unit :=
  if m.numerator = 0 then .error .invalidTimeSignature else .ok ()

end Meter

end LeadSheet
