/-!
# Runs of neighbours

Lists in which neighbours that belong together are merged into one entry: the last of a run, or the
first.
-/

namespace LeadSheet.Order
set_option autoImplicit false

variable {β : Type}

/-- Of neighbours that are the same the last stays. -/
def keepLast (same : β → β → Bool) : List β → List β
  | [] => []
  | [x] => [x]
  | x :: y :: ys =>
    if same x y then keepLast same (y :: ys) else x :: keepLast same (y :: ys)

/-- An entry goes when the last kept one before it is the same. -/
def keepFirst (same : β → β → Bool) : List β → List β
  | [] => []
  | [x] => [x]
  | x :: y :: ys =>
    if same x y then keepFirst same (x :: ys) else x :: keepFirst same (y :: ys)
termination_by xs => xs.length

end LeadSheet.Order
