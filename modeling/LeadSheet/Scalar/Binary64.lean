import LeadSheet.Scalar

/-!
# Binary doubles

The scalar that runs. A finite double is a whole number of units of a power of two (`Binary64`), and
the exact remainder is taken there; the total order goes by the bit pattern, so it has `-0` before
`0` and places a value that is no number.
-/

namespace LeadSheet
set_option autoImplicit false

/-- The magnitude `significand * 2 ^ exponent` of a finite double. -/
structure Binary64 where
  significand : Nat
  exponent : Int
  /-- Only the value below a power of two is half as far away as the value above it. -/
  narrowBelow : Bool

namespace Binary64

/-- The bit of the sign; the bits below it count up with the magnitude. -/
def signBit : Nat := 0x8000000000000000

/-- One more than the greatest fraction. -/
def fractionSpan : Nat := 0x10000000000000

def isNegative (x : Float) : Bool := signBit ≤ x.toBits.toNat

def ofFloat (x : Float) : Binary64 :=
  let field : Nat := x.toBits.toNat / fractionSpan % 0x800
  let fraction : Nat := x.toBits.toNat % fractionSpan
  if field = 0 then ⟨fraction, -1074, false⟩
  else ⟨fraction + fractionSpan, field - 1075, fraction = 0 ∧ 1 < field⟩

/-- The remainder of two finite magnitudes, in units of the finer of them. -/
def remainder (x y : Binary64) : Nat × Int :=
  let unit := min x.exponent y.exponent
  let scaled (v : Binary64) : Nat := v.significand <<< (v.exponent - unit).toNat
  (scaled x % scaled y, unit)

/-- The remainder of the truncated quotient, exact for all finite operands. -/
def remainderFloat (x y : Float) : Float :=
  if x.isFinite && !y.isNaN && y != 0 then
    if y.isFinite then
      let (m, e) := remainder (ofFloat x) (ofFloat y)
      let magnitude := (Float.ofNat m).scaleB e
      if isNegative x then -magnitude else magnitude
    else x
  else 0 / 0

/-- Bit patterns in order: below zero the order of the magnitudes is reversed. -/
def orderKey (x : Float) : Int :=
  let bits := x.toBits.toNat
  if bits < signBit then bits else signBit - 1 - bits

end Binary64

instance : Scalar Float where
  decLe := inferInstance
  decLt := inferInstance
  ofNat := Float.ofNat
  ofInt := Float.ofInt
  abs := Float.abs
  floor := Float.floor
  round := Float.round
  remainder := Binary64.remainderFloat
  toNat x := x.toUInt64.toNat
  toInt x := x.toInt64.toInt
  totalCmp x y := compare (Binary64.orderKey x) (Binary64.orderKey y)
  build := .unchecked

instance : Scalar.LawfulOrder Float where
  trans :=
    { eq_swap := fun {x y} =>
        @Std.OrientedCmp.eq_swap _ compare _ (Binary64.orderKey x) (Binary64.orderKey y)
      isLE_trans := fun {x y z} hxy hyz =>
        @Std.TransCmp.isLE_trans _ compare _ (Binary64.orderKey x) (Binary64.orderKey y)
          (Binary64.orderKey z) hxy hyz }

end LeadSheet
