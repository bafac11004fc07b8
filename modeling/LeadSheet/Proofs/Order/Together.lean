import LeadSheet.Proofs.Order.Runs
import LeadSheet.Proofs.Order.Stable

/-!
# What stands together

Merging neighbours leaves one entry of each run. So of all entries of one kind it leaves one only if
they are a single run, which nothing of another kind cuts in two. In a sorted list that is a matter
of the order alone.
-/

namespace LeadSheet.Order
set_option autoImplicit false

variable {β : Type} {same : β → β → Bool} {p : β → Bool}

theorem filter_keepLast_of_forall (hp : ∀ x y, p x = true → same x y = false)
    (xs : List β) : (keepLast same xs).filter p = xs.filter p := by
  fun_induction keepLast same xs with
  | case1 => rfl
  | case2 x => rfl
  | case3 x y ys hSame ih =>
    have hx : ¬p x = true := fun hx => by simp [hp x y hx] at hSame
    rw [ih, List.filter_cons_of_neg hx]
  | case4 x y ys _ ih => rw [List.filter_cons, List.filter_cons, ih]

/-- No entry without a property stands behind one that has it and before another. -/
def Together (p : β → Bool) (xs : List β) : Prop :=
  ∀ x y z, [x, y, z].Sublist xs → p x = true → p z = true → p y = true

theorem together_cons_of_neg {x : β} (hx : ¬p x = true) (xs : List β) :
    Together p (x :: xs) ↔ Together p xs := by
  refine ⟨fun h u v w hSub => h u v w (hSub.cons x), fun h u v w hSub hu hw => ?_⟩
  cases hSub with
  | cons _ hSub => exact h u v w hSub hu hw
  | cons_cons _ hSub => exact (hx hu).elim

theorem together_cons_cons_of_pos {y : β} (hy : p y = true) (x : β)
    (ys : List β) : Together p (x :: y :: ys) ↔ Together p (y :: ys) := by
  refine ⟨fun h u v w hSub => h u v w (hSub.cons x), fun h u v w hSub hu hw => ?_⟩
  cases hSub with
  | cons _ hSub => exact h u v w hSub hu hw
  | cons_cons _ hSub =>
    -- `y` can stand for `x` unless it is the entry between
    cases hSub with
    | cons _ hSub => exact h y v w (hSub.cons_cons y) hy hw
    | cons_cons _ hSub => exact hy

theorem together_cons_cons_of_pos_of_neg {x y : β} (hx : p x = true)
    (hy : ¬p y = true) (ys : List β) :
    Together p (x :: y :: ys) ↔ (y :: ys).filter p = [] := by
  rw [List.filter_cons_of_neg hy, List.filter_eq_nil_iff]
  constructor
  · intro h z hz hpz
    exact hy (h x y z (((List.singleton_sublist.mpr hz).cons_cons y).cons_cons x) hx hpz)
  · intro hNone u v w hSub _ hw
    have hTail : [v, w].Sublist (y :: ys) := hSub.tail
    have hMem : w ∈ ys := hTail.tail.mem List.mem_cons_self
    exact (hNone w hMem hw).elim

theorem filter_keepLast_eq_nil_iff (hp : ∀ x y, same x y = true → p x = p y)
    (xs : List β) : (keepLast same xs).filter p = [] ↔ xs.filter p = [] := by
  rw [← List.getLast?_eq_none_iff, ← List.getLast?_eq_none_iff, getLast?_filter_keepLast hp]

/-- Of the entries of one kind merging leaves one only if they stand together. -/
theorem length_filter_keepLast_le_one_iff
    (hp : ∀ x y, same x y = true → p x = p y)
    (hSame : ∀ x y, p x = true → p y = true → same x y = true) (xs : List β) :
    ((keepLast same xs).filter p).length ≤ 1 ↔ Together p xs := by
  fun_induction keepLast same xs with
  | case1 => simp [Together]
  | case2 x =>
    refine ⟨fun _ u v w hSub => ?_, fun _ => List.length_filter_le _ _⟩
    exact absurd hSub.length_le (by simp)
  | case3 x y ys hxy ih =>
    rw [ih]
    by_cases hx : p x = true
    · exact (together_cons_cons_of_pos ((hp x y hxy).symm.trans hx) x ys).symm
    · exact (together_cons_of_neg hx (y :: ys)).symm
  | case4 x y ys hxy ih =>
    by_cases hx : p x = true
    · have hy : ¬p y = true := fun hy => hxy (hSame x y hx hy)
      rw [together_cons_cons_of_pos_of_neg hx hy, ← filter_keepLast_eq_nil_iff hp,
        List.filter_cons_of_pos hx, List.length_cons, ← List.length_eq_zero_iff]
      omega
    · rw [List.filter_cons_of_neg hx, ih, together_cons_of_neg hx]

section Sorted

variable {le : β → β → Bool} {front back : List β} {x y : β}

theorem mem_front_of_not_le (hSorted : (front ++ y :: back).Pairwise fun x y => le x y = true)
    (hRefl : le y y = true) (hx : x ∈ front ++ y :: back) (hyx : ¬le y x = true) : x ∈ front := by
  rcases List.mem_append.mp hx with hx | hx
  · exact hx
  · rw [List.pairwise_append, List.pairwise_cons] at hSorted
    rcases List.mem_cons.mp hx with rfl | hx
    · exact (hyx hRefl).elim
    · exact (hyx (hSorted.2.1.1 x hx)).elim

theorem mem_back_of_not_le (hSorted : (front ++ y :: back).Pairwise fun x y => le x y = true)
    (hRefl : le y y = true) (hx : x ∈ front ++ y :: back) (hxy : ¬le x y = true) : x ∈ back := by
  rcases List.mem_append.mp hx with hx | hx
  · rw [List.pairwise_append] at hSorted
    exact (hxy (hSorted.2.2 x hx y List.mem_cons_self)).elim
  · rcases List.mem_cons.mp hx with rfl | hx
    · exact (hxy hRefl).elim
    · exact hx

/-- What stands together in a sorted list is what the order leaves together. -/
theorem together_mergeSort_iff (hTrans : ∀ x y z, le x y = true → le y z = true → le x z = true)
    (hTotal : ∀ x y, (le x y || le y x) = true)
    (hTies : ∀ x y, ties le x y = true → p x = p y) (xs : List β) :
    Together p (xs.mergeSort le) ↔ ∀ x ∈ xs, ∀ y ∈ xs, ∀ z ∈ xs, p x = true → p z = true →
      le x y = true → le y z = true → p y = true := by
  have hSorted := List.pairwise_mergeSort hTrans hTotal xs
  constructor
  · intro h x hx y hy z hz hpx hpz hxy hyz
    by_contra hpy
    -- nothing of the kind ties with `y`, so sorting has put `x` before it and `z` behind it
    have hyx : ¬le y x = true := fun hyx => hpy (hTies x y (by simp [ties, hxy, hyx]) ▸ hpx)
    have hzy : ¬le z y = true := fun hzy => hpy (hTies z y (by simp [ties, hzy, hyz]) ▸ hpz)
    have hRefl : le y y = true := by simpa using hTotal y y
    have hx : x ∈ xs.mergeSort le := List.mem_mergeSort.mpr hx
    have hz : z ∈ xs.mergeSort le := List.mem_mergeSort.mpr hz
    obtain ⟨front, back, hSplit⟩ := List.append_of_mem (List.mem_mergeSort.mpr hy)
    rw [hSplit] at hx hz hSorted h
    have hFront := List.singleton_sublist.mpr (mem_front_of_not_le hSorted hRefl hx hyx)
    have hBack := List.singleton_sublist.mpr (mem_back_of_not_le hSorted hRefl hz hzy)
    exact hpy (h x y z (hFront.append (hBack.cons_cons y)) hpx hpz)
  · intro h x y z hSub hpx hpz
    have hMem {u : β} (hu : u ∈ [x, y, z]) : u ∈ xs := List.mem_mergeSort.mp (hSub.mem hu)
    obtain ⟨hx, hRest⟩ := List.pairwise_cons.mp (hSorted.sublist hSub)
    exact h x (hMem (by simp)) y (hMem (by simp)) z (hMem (by simp)) hpx hpz
      (hx y (by simp)) ((List.pairwise_cons.mp hRest).1 z (by simp))

end Sorted

end LeadSheet.Order
