/-!
# Scalars

Times, beats and tempos are computed in one arithmetic, and every rule of the library is stated once
for all of them: `Scalar` lists the operations a rule may use. The rationals compute exactly, and
the binary doubles round; `Scalar.LawfulOrder` says what both owe to a sort. Bars are numbered in
words of 64 bits, and what comes of a number beyond them is up to the build.
-/

namespace LeadSheet
set_option autoImplicit false

/-- A checked build stops at a whole number that its word does not hold. An unchecked one goes on
with what is left of the number in the word. -/
inductive Build
  | checked | unchecked
  deriving Repr, DecidableEq

namespace Word64

def wrap (n : Int) : Int := (Int64.ofInt n).toInt

def holds (n : Int) : Bool := Int64.minValue.toInt ≤ n && n ≤ Int64.maxValue.toInt

/-- Ticks are counted in words without a sign. -/
def holdsNat (n : Nat) : Bool := n < UInt64.size

end Word64

/-- The operations on times and beats. Casts to whole numbers cut the fraction off. -/
class Scalar (α : Type) extends
    Add α, Sub α, Mul α, Div α, Neg α, LE α, LT α, BEq α, OfScientific α where
  decLe : DecidableLE α
  decLt : DecidableLT α
  ofNat : Nat → α
  ofInt : Int → α
  abs : α → α
  floor : α → α
  /-- The nearest whole number, a half going away from zero. -/
  round : α → α
  /-- The remainder of the quotient cut to a whole number; its sign is the dividend's. -/
  remainder : α → α → α
  toNat : α → Nat
  toInt : α → Int
  /-- A total order, which `≤` need not be when a value compares with nothing. -/
  totalCmp : α → α → Ordering
  build : Build := .checked

namespace Scalar

attribute [reducible, instance] decLe decLt

variable {α : Type} [Scalar α]

instance (priority := low) instOfNat (n : Nat) : OfNat α n := ⟨Scalar.ofNat n⟩

@[reducible] def inBuild (α : Type) [arithmetic : Scalar α] (build : Build) : Scalar α :=
  { arithmetic with build := build }

def buildOf (α : Type) [Scalar α] : Build := @build α _

/-- A bar number as it is kept. A checked build keeps those that it has not stopped at. -/
def bar (α : Type) [Scalar α] (n : Int) : Int :=
  match buildOf α with
  | .checked => n
  | .unchecked => Word64.wrap n

/-- A value that does not equal itself stands for no number. -/
def isNumber (x : α) : Bool := x == x

/-- The larger value, or the one that is a number. -/
def larger (x y : α) : α := if x < y then y else if isNumber x then x else y

def clamp (x lo hi : α) : α := if x < lo then lo else if hi < x then hi else x

/-- The remainder that is never below zero. -/
def modulo (x y : α) : α :=
  let r := remainder x y
  if r < 0 then r + abs y else r

/-- Rounds to three decimals, the precision of every written column. -/
def thousandths (x : α) : α := round (x * 1000) / 1000

def atMost (x y : α) : Bool := (totalCmp x y).isLE

class LawfulOrder (α : Type) [Scalar α] : Prop where
  trans : Std.TransCmp (totalCmp : α → α → Ordering)

attribute [instance] LawfulOrder.trans

end Scalar

end LeadSheet
