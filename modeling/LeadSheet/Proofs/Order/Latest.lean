import LeadSheet.Proofs.Order.Stable

/-!
# The latest entry

The greatest entry of a list, and of entries that may stand either way round the one listed last. A
stable sort puts it at the end, whatever part of the list is asked for. The latest entry is the one
with the greatest key.
-/

namespace LeadSheet.Order
set_option autoImplicit false

variable {β : Type}

/-- The greatest entry; of equal ones the last. -/
def greatest? (le : β → β → Bool) : List β → Option β
  | [] => none
  | x :: xs =>
    match greatest? le xs with
    | some y => if le x y then some y else some x
    | none => some x

theorem greatest?_eq_getLast? {le : β → β → Bool}
    (hTrans : ∀ x y z, le x y = true → le y z = true → le x z = true)
    (hTotal : ∀ x y, (le x y || le y x) = true) (xs : List β) :
    greatest? le xs = (xs.mergeSort le).getLast? := by
  induction xs with
  | nil =>
    rw [List.mergeSort_nil]
    rfl
  | cons x xs ih =>
    -- sorting puts `x` in front of all entries that are not below it, which is where it stood
    obtain ⟨front, back, hAll, hRest, hFront⟩ := List.mergeSort_cons hTrans hTotal x xs
    have hSorted := List.pairwise_mergeSort hTrans hTotal (x :: xs)
    rw [hAll] at hSorted ⊢
    rw [greatest?, ih, hRest, List.getLast?_append, List.getLast?_append, List.getLast?_cons]
    cases hLast : back.getLast? with
    | some y =>
      have hBack := (List.pairwise_cons.mp (List.pairwise_append.mp hSorted).2.1).1
      simp [hBack y (List.mem_of_getLast? hLast)]
    | none =>
      cases hLast : front.getLast? with
      | none => rfl
      | some y =>
        have hBelow := hFront y (List.mem_of_getLast? hLast)
        rw [Bool.not_eq_true'] at hBelow
        simp [hBelow]

theorem eq_singleton_iff {xs : List β} {x : β} :
    xs = [x] ↔ xs.length ≤ 1 ∧ xs.getLast? = some x := by
  constructor
  · rintro rfl
    exact ⟨Nat.le_refl 1, rfl⟩
  · rintro ⟨hOne, hLast⟩
    obtain ⟨front, rfl⟩ := List.getLast?_eq_some_iff.mp hLast
    have hFront : front = [] := by simpa using hOne
    rw [hFront, List.nil_append]

/-- The entry listed last is the greatest exactly when none is above it. -/
theorem greatest?_eq_some_iff_of_getLast? {le : β → β → Bool}
    (hTrans : ∀ x y z, le x y = true → le y z = true → le x z = true)
    (hTotal : ∀ x y, (le x y || le y x) = true) {xs : List β} {y : β}
    (hLast : xs.getLast? = some y) :
    greatest? le xs = some y ↔ ∀ x ∈ xs, le x y = true := by
  constructor
  · intro h x hx
    rw [greatest?_eq_getLast? hTrans hTotal, List.getLast?_eq_some_iff] at h
    obtain ⟨front, hSort⟩ := h
    have hSorted := List.pairwise_mergeSort hTrans hTotal xs
    have hx : x ∈ xs.mergeSort le := List.mem_mergeSort.mpr hx
    rw [hSort] at hx
    rw [hSort, List.pairwise_append] at hSorted
    rcases List.mem_append.mp hx with hx | hx
    · exact hSorted.2.2 x hx y List.mem_cons_self
    · rw [List.mem_singleton.mp hx]
      simpa using hTotal y y
  · intro h
    induction xs with
    | nil => cases hLast
    | cons x xs ih =>
      rw [List.getLast?_cons] at hLast
      cases hRest : xs.getLast? with
      | none =>
        rw [hRest] at hLast
        cases hLast
        rw [List.getLast?_eq_none_iff.mp hRest]
        rfl
      | some z =>
        rw [hRest] at hLast
        cases hLast
        rw [greatest?, ih hRest fun u hu => h u (List.mem_cons_of_mem x hu)]
        exact if_pos (h x List.mem_cons_self)

/-- The entry with the greatest key; of equal ones the last. -/
def latest? (key : β → Nat) : List β → Option β
  | [] => none
  | x :: xs =>
    match latest? key xs with
    | some y => if key x ≤ key y then some y else some x
    | none => some x

theorem keyLe_trans (key : β → Nat) (x y z : β) (hxy : decide (key x ≤ key y) = true)
    (hyz : decide (key y ≤ key z) = true) : decide (key x ≤ key z) = true := by
  rw [decide_eq_true_eq] at hxy hyz ⊢
  exact Nat.le_trans hxy hyz

theorem keyLe_total (key : β → Nat) (x y : β) :
    (decide (key x ≤ key y) || decide (key y ≤ key x)) = true := by
  rw [Bool.or_eq_true, decide_eq_true_eq, decide_eq_true_eq]
  exact Nat.le_total (key x) (key y)

theorem pairwise_mergeSort_key (key : β → Nat) (xs : List β) :
    (xs.mergeSort fun x y => key x ≤ key y).Pairwise fun x y => key x ≤ key y := by
  have h := List.pairwise_mergeSort (keyLe_trans key) (keyLe_total key) xs
  exact h.imp fun hxy => decide_eq_true_eq.mp hxy

theorem latest?_eq_greatest? (key : β → Nat) (xs : List β) :
    latest? key xs = greatest? (fun x y => key x ≤ key y) xs := by
  induction xs with
  | nil => rfl
  | cons x xs ih =>
    rw [latest?, greatest?, ih]
    simp only [decide_eq_true_eq]

theorem latest?_filter_eq (key : β → Nat) (p : β → Bool) (xs : List β) :
    latest? key (xs.filter p) =
      ((xs.mergeSort fun x y => key x ≤ key y).filter p).getLast? := by
  rw [latest?_eq_greatest?, greatest?_eq_getLast? (keyLe_trans key) (keyLe_total key),
    filter_mergeSort (keyLe_trans key) (keyLe_total key)]

theorem latest?_filter_of_pairwise {key : β → Nat} {xs : List β}
    (h : xs.Pairwise fun x y => key x ≤ key y) (p : β → Bool) :
    latest? key (xs.filter p) = (xs.filter p).getLast? := by
  have hSort : (xs.mergeSort fun x y => key x ≤ key y) = xs :=
    List.mergeSort_of_pairwise (h.imp fun hxy => decide_eq_true hxy)
  rw [latest?_filter_eq, hSort]

end LeadSheet.Order
