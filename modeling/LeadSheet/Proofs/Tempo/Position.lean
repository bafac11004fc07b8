import LeadSheet.Proofs.Scalar.Exact
import LeadSheet.Tempo.Position

/-!
# Bars on the line of beats

Over exact scalars a beat is split by one division. Behind the pickup the quotient numbers the bar
and the rest is the beat in it; before it the beats count back from the first downbeat. Bars start
a whole number of bars behind the pickup.
-/

namespace LeadSheet.GridPosition
set_option autoImplicit false

variable {beatAbs pickup : Rat} {numerator : Nat}

theorem split_of_neg (numerator : Nat) (h : beatAbs - pickup < 0) :
    split beatAbs numerator pickup = ⟨0, 1 + (beatAbs - pickup), beatAbs⟩ :=
  if_pos h

theorem split_of_nonneg (hBar : 0 < numerator) (h : 0 ≤ beatAbs - pickup) :
    split beatAbs numerator pickup =
      ⟨1 + ⌊(beatAbs - pickup) / numerator⌋,
        1 + (beatAbs - pickup - numerator * ⌊(beatAbs - pickup) / numerator⌋), beatAbs⟩ := by
  have hPerBar : (0 : Rat) < numerator := Nat.cast_pos.mpr hBar
  have hFloor := Scalar.toInt_intCast ⌊(beatAbs - pickup) / (numerator : Rat)⌋
  have hRest := Scalar.modulo_eq h hPerBar
  unfold split
  simp only
  rw [if_neg (not_lt.mpr h)]
  change (⟨1 + Scalar.toInt ((⌊(beatAbs - pickup) / (numerator : Rat)⌋ : Int) : Rat),
    1 + Scalar.modulo (beatAbs - pickup) (numerator : Rat), beatAbs⟩ : GridPosition Rat) = _
  rw [hFloor, hRest]

section Downbeat

variable (numerator : Nat) (pickup : Rat)

theorem downbeat_eq (bar : Int) :
    downbeat bar numerator pickup = pickup + numerator * ((max bar 1 : Int) - 1) := by
  have hBars : max (bar - 1) 0 = max bar 1 - 1 := by omega
  change pickup + (numerator : Rat) * ((max (bar - 1) 0 : Int) : Rat) = _
  rw [hBars, Int.cast_sub, Int.cast_one]

theorem downbeat_add_one (bar : Int) :
    downbeat (max bar 1 + 1) numerator pickup = downbeat bar numerator pickup + numerator := by
  have hBars : max (max bar 1 + 1) 1 = max bar 1 + 1 := by omega
  rw [downbeat_eq, downbeat_eq, hBars, Int.cast_add, Int.cast_one]
  ring

theorem downbeat_le_downbeat {bar next : Int} (h : bar ≤ next) :
    downbeat bar numerator pickup ≤ downbeat next numerator pickup := by
  have hBars : ((max bar 1 : Int) : Rat) ≤ ((max next 1 : Int) : Rat) := by
    exact_mod_cast max_le_max_right 1 h
  rw [downbeat_eq, downbeat_eq]
  exact add_le_add_right
    (mul_le_mul_of_nonneg_left (sub_le_sub_right hBars 1) (Nat.cast_nonneg _)) _

theorem downbeat_nonneg (hPickup : 0 ≤ pickup) (bar : Int) :
    0 ≤ downbeat bar numerator pickup := by
  have hBars : (1 : Rat) ≤ ((max bar 1 : Int) : Rat) := by
    exact_mod_cast le_max_right bar 1
  rw [downbeat_eq]
  exact add_nonneg hPickup (mul_nonneg (Nat.cast_nonneg _) (sub_nonneg.mpr hBars))

end Downbeat

end LeadSheet.GridPosition
