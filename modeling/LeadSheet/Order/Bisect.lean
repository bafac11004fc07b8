/-!
# Bisection

How many entries at the front of a list have a property, found by halving. When the property holds
for a first part of the list and nowhere after it, that is the length of this part.
-/

namespace LeadSheet.Order
set_option autoImplicit false

variable {β : Type}

/-- Bisection of the `size` entries from `base` on; before `base` the property holds. -/
def bisectFrom (holds : Nat → Bool) (base size : Nat) : Nat :=
  if h : 1 < size then
    let half := size / 2
    bisectFrom holds (if holds (base + half) then base + half else base) (size - half)
  else if size = 1 ∧ holds base then base + 1
  else base
termination_by size
decreasing_by omega

/-- The number of entries at the front with the property. -/
def bisect (holds : β → Bool) (xs : List β) : Nat :=
  bisectFrom (fun i => xs[i]?.any holds) 0 xs.length

end LeadSheet.Order
