import LeadSheet.Scalar.Binary64

/-!
# Shortest decimals

The decimal with the fewest digits that reads back as a given double, and of those the nearest to
it. All is computed in whole numbers: the value and the ends of the interval that rounds to it are
counted on a scale where one unit is a step of the seventeenth significant digit.
-/

namespace LeadSheet
set_option autoImplicit false

/-- The number `coefficient * 10 ^ exponent`. -/
structure Decimal where
  coefficient : Nat
  exponent : Int
  deriving Repr, DecidableEq

namespace Decimal

def tenTo (n : Nat) : Nat := Nat.pow 10 n

/-- Which of two equally near decimals is taken. -/
inductive Tie
  | up
  | even
  deriving Repr, DecidableEq

def stripZeros (d : Decimal) : Decimal :=
  if h : d.coefficient ≠ 0 ∧ d.coefficient % 10 = 0 then
    stripZeros ⟨d.coefficient / 10, d.exponent + 1⟩
  else d
termination_by d.coefficient
decreasing_by omega

end Decimal

namespace Binary64

/-- Whether the magnitude is at least `10 ^ e`. -/
def reaches (v : Binary64) (e : Int) : Bool :=
  Decimal.tenTo e.toNat <<< (-v.exponent).toNat ≤
    v.significand <<< v.exponent.toNat * Decimal.tenTo (-e).toNat

/-- The exponent of the greatest power of ten not above the magnitude, from an estimate one or two
below it. -/
def log10 (v : Binary64) : Int :=
  let estimate := (Nat.log2 v.significand + v.exponent) * 30103 / 100000 - 1
  [0, 1, 2].foldl (fun e (_ : Nat) => if v.reaches (e + 1) then e + 1 else e) estimate

/-- A magnitude among the reals that round to it, counted in parts of a seventeenth digit. -/
structure Neighbourhood where
  lower : Nat
  value : Nat
  upper : Nat
  /-- The ends round to the value too. -/
  closed : Bool
  unit : Nat

def neighbourhood (v : Binary64) : Neighbourhood :=
  let quarter := v.exponent - 2
  let last := v.log10 - 16
  let scale := Decimal.tenTo (-last).toNat <<< quarter.toNat
  { lower := (4 * v.significand - if v.narrowBelow then 1 else 2) * scale
    value := 4 * v.significand * scale
    upper := (4 * v.significand + 2) * scale
    closed := v.significand % 2 = 0
    unit := Decimal.tenTo last.toNat <<< (-quarter).toNat }

namespace Neighbourhood

def holds (i : Neighbourhood) (x : Nat) : Bool :=
  i.lower < x && x < i.upper || i.closed && (x == i.lower || x == i.upper)

/-- The point of the `n`-digit grid that reads back, the nearer one if both neighbours of the value
do. -/
def onGrid (i : Neighbourhood) (tie : Decimal.Tie) (n : Nat) : Option Nat :=
  let step := i.unit * Decimal.tenTo (17 - n)
  let below := i.value / step * step
  let above := below + step
  match i.holds below, i.holds above with
  | false, false => none
  | true, false => some below
  | false, true => some above
  | true, true =>
    match compare (i.value - below) (above - i.value), tie with
    | .lt, _ => some below
    | .gt, _ => some above
    | .eq, .up => some above
    | .eq, .even => some (if i.value / step % 2 = 0 then below else above)

end Neighbourhood

def shortest (v : Binary64) (tie : Decimal.Tie) : Decimal :=
  let i := v.neighbourhood
  let chosen := ((List.range 17).findSome? fun n => i.onGrid tie (n + 1)).getD i.value
  Decimal.stripZeros ⟨chosen / i.unit, v.log10 - 16⟩

end Binary64

end LeadSheet
