import LeadSheet.Scalar

/-!
# Exact scalars

The rationals, on which each rule computes the value that it names.
-/

namespace LeadSheet.Scalar
set_option autoImplicit false

/-- A half goes away from zero. -/
def roundRat (x : Rat) : Rat :=
  if x < 0 then -((-x + 1 / 2).floor : Rat) else ((x + 1 / 2).floor : Rat)

def truncRat (x : Rat) : Int := if x < 0 then -(-x).floor else x.floor

def cmpRat (x y : Rat) : Ordering := if x < y then .lt else if x = y then .eq else .gt

theorem isLE_cmpRat_iff {x y : Rat} : (cmpRat x y).isLE ↔ x ≤ y := by
  unfold cmpRat
  split
  · simp; grind
  · split <;> simp <;> grind

theorem cmpRat_eq_swap (x y : Rat) : cmpRat x y = (cmpRat y x).swap := by
  by_cases hxy : x < y
  · have hyx : ¬y < x := by grind
    have hne : y ≠ x := by grind
    rw [cmpRat, cmpRat, if_pos hxy, if_neg hyx, if_neg hne]
    rfl
  · by_cases heq : x = y
    · subst heq
      rw [cmpRat, if_neg hxy, if_pos rfl]
      rfl
    · have hyx : y < x := by grind
      rw [cmpRat, cmpRat, if_neg hxy, if_neg heq, if_pos hyx]
      rfl

instance : Scalar Rat where
  decLe := inferInstance
  decLt := inferInstance
  ofNat n := n
  ofInt i := i
  abs x := if x < 0 then -x else x
  floor x := x.floor
  round := roundRat
  remainder x y := x - y * truncRat (x / y)
  toNat x := (truncRat x).toNat
  toInt := truncRat
  totalCmp := cmpRat

@[simp] theorem bar_rat (n : Int) : bar Rat n = n := rfl

instance : LawfulOrder Rat where
  trans :=
    { eq_swap := fun {x y} => cmpRat_eq_swap x y
      isLE_trans := fun hxy hyz =>
        isLE_cmpRat_iff.2 (Rat.le_trans (isLE_cmpRat_iff.1 hxy) (isLE_cmpRat_iff.1 hyz)) }

end LeadSheet.Scalar
