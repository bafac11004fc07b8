import LeadSheet.Tempo.Map

/-!
# Bar and beat

A beat count from the start of the song, split into a bar and a beat within it. Both count from one;
what sounds before the pickup has ended lies in bar 0, where the beat counts down from one. Here a
bar has as many beats as the numerator says.
-/

namespace LeadSheet
set_option autoImplicit false

structure GridPosition (α : Type) where
  bar : Int
  beat : α
  /-- Beats since the start of the song. -/
  beatAbs : α
  deriving Repr, DecidableEq

variable {α : Type} [Scalar α]

namespace GridPosition

/-- The position in bars of `numerator` beats after a pickup, for a numerator above 0. -/
def split (beatAbs : α) (numerator : Nat) (pickup : α) : GridPosition α :=
  let rel := beatAbs - pickup
  let perBar : α := Scalar.ofNat numerator
  if rel < 0 then ⟨0, 1 + rel, beatAbs⟩
  else ⟨Scalar.bar α (1 + Scalar.toInt (Scalar.floor (rel / perBar))), 1 + Scalar.modulo rel perBar,
    beatAbs⟩

def ofBeats (beatAbs : α) (numerator : Nat) (pickup : α) :
    Except (Error α) (GridPosition α) :=
  if numerator = 0 then .error .invalidTimeSignature else .ok (split beatAbs numerator pickup)

/-- The beat on which a bar starts; a bar below 1 counts as bar 1. -/
def downbeat (bar : Int) (numerator : Nat) (pickup : α) : α :=
  pickup + Scalar.ofNat numerator * Scalar.ofInt (max (Scalar.bar α (bar - 1)) 0)

end GridPosition

def TempoMap.positionAt (m : TempoMap α) (t : α) (numerator : Nat) (pickup : α) :
    Except (Error α) (GridPosition α) :=
  GridPosition.ofBeats (m.beatsAt t) numerator pickup

end LeadSheet
