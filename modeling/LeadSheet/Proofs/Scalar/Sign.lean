import LeadSheet.Proofs.Scalar.Exact
import LeadSheet.Scalar.Binary64

/-!
# Windows around zero

A window from the negative of a magnitude to the magnitude has its ends in order. Over the rationals
that is so because a magnitude is not below zero. A double keeps the sign bit it is given unless it
is no number, and every number with the sign bit is at most every number without it.
-/

namespace LeadSheet
set_option autoImplicit false

/-- The negative of a magnitude is at most the magnitude. -/
class Scalar.LawfulWindow (α : Type) [Scalar α] : Prop where
  neg_abs_le_abs : ∀ x : α, Scalar.isNumber x = true → -Scalar.abs x ≤ Scalar.abs x

instance : Scalar.LawfulWindow Rat where
  neg_abs_le_abs x _ := by
    rw [Scalar.abs_eq_abs]
    linarith [abs_nonneg x]

namespace Binary64

open Float.Model Float.Model.UnpackedFloat

def sign? : UnpackedFloat → Option Sign
  | .notANumber => none
  | .infinity s => some s
  | .zero s => some s
  | .finite s _ _ _ => some s

theorem ofBitVec_unpackSign (s : Sign) (exponent : BitVec 11) (mantissa : BitVec 52) :
    Sign.ofBitVec (unpackSign (packComponents .binary64 s exponent mantissa)) = s := by
  have hBit : unpackSign (packComponents .binary64 s exponent mantissa) = s.toBitVec := by
    change BitVec.extractLsb' 63 1 (s.toBitVec ++ exponent ++ mantissa) = s.toBitVec
    rw [BitVec.extractLsb'_append_eq_of_le (by omega),
      BitVec.extractLsb'_append_eq_of_le (by omega)]
    cases s <;> rfl
  rw [hBit]
  cases s <;> rfl

/-- Only the greatest exponent tells no number from one, and there no number has a fraction. -/
theorem sign?_unpack (b : BitVec 64)
    (h : @unpackExponent .binary64 b = -1#11 → @unpackMantissa .binary64 b = 0#52) :
    sign? (unpack .binary64 b) = some (Sign.ofBitVec (@unpackSign .binary64 b)) := by
  delta UnpackedFloat.unpack
  dsimp only
  by_cases hGreatest : @unpackExponent .binary64 b = -1#11
  · rw [if_pos hGreatest, if_pos (h hGreatest)]
    rfl
  · rw [if_neg hGreatest]
    by_cases hLeast : @unpackExponent .binary64 b = 0#11
    · rw [if_pos hLeast]
      by_cases hZero : @unpackMantissa .binary64 b = 0#52
      · rw [dif_pos hZero]
        rfl
      · rw [dif_neg hZero]
        rfl
    · rw [if_neg hLeast]
      rfl

theorem sign?_unpack_packComponents {s : Sign} {exponent : BitVec 11} {mantissa : BitVec 52}
    (h : exponent = -1#11 → mantissa = 0#52) :
    sign? (unpack .binary64 (packComponents .binary64 s exponent mantissa)) = some s := by
  rw [sign?_unpack, ofBitVec_unpackSign]
  rw [unpackExponent_packComponents, unpackMantissa_packComponents]
  exact h

theorem sign?_unpack_pack (u : UnpackedFloat) :
    sign? (unpack .binary64 (pack .binary64 u)) = sign? u := by
  cases u with
  | notANumber => rfl
  | infinity s => exact sign?_unpack_packComponents fun _ => rfl
  | zero s => exact sign?_unpack_packComponents fun _ => rfl
  | finite s m e hm =>
    change _ = some s
    delta UnpackedFloat.pack
    dsimp only
    split
    · exact sign?_unpack_packComponents fun _ => rfl
    · split
      · rename_i hSmall _
        refine sign?_unpack_packComponents fun hGreatest => ?_
        have hField := congrArg BitVec.toNat hGreatest
        rw [BitVec.toNat_ofNat] at hField
        change _ % 2048 = 2047 at hField
        change ¬2048 ≤ _ at hSmall
        omega
      · exact sign?_unpack_packComponents fun hGreatest => absurd hGreatest (by decide)

theorem le_of_sign? {u v : UnpackedFloat} (hu : sign? u = some .negative)
    (hv : sign? v = some .positive) : u.le v = true := by
  cases u <;> cases hu <;> cases v <;> cases hv <;> rfl

theorem sign?_neg (u : UnpackedFloat) : sign? u.neg = (sign? u).map (- ·) := by
  cases u <;> rfl

theorem sign?_abs (u : UnpackedFloat) : sign? u.abs = (sign? u).map fun _ => .positive := by
  cases u <;> rfl

end Binary64

instance : Scalar.LawfulWindow Float where
  neg_abs_le_abs x hx := by
    obtain ⟨s, hSign⟩ : ∃ s, Binary64.sign? x.toModel.unpack = some s := by
      cases hUnpacked : x.toModel.unpack with
      | notANumber =>
        change x.toModel.unpack.beq x.toModel.unpack = true at hx
        rw [hUnpacked] at hx
        cases hx
      | infinity s => exact ⟨s, rfl⟩
      | zero s => exact ⟨s, rfl⟩
      | finite s => exact ⟨s, rfl⟩
    have hAbs : Binary64.sign? x.abs.toModel.unpack = some .positive := by
      change Binary64.sign? (Float.Model.UnpackedFloat.unpack .binary64
        (Float.Model.UnpackedFloat.pack .binary64 x.toModel.unpack.abs)) = _
      rw [Binary64.sign?_unpack_pack, Binary64.sign?_abs, hSign]
      rfl
    have hNeg : Binary64.sign? (-x.abs).toModel.unpack = some .negative := by
      change Binary64.sign? (Float.Model.UnpackedFloat.unpack .binary64
        (Float.Model.UnpackedFloat.pack .binary64 x.abs.toModel.unpack.neg)) = _
      rw [Binary64.sign?_unpack_pack, Binary64.sign?_neg, hAbs]
      rfl
    have hLe : (-x.abs).toModel ≤ x.abs.toModel := Binary64.le_of_sign? hNeg hAbs
    exact decide_eq_true hLe

end LeadSheet
