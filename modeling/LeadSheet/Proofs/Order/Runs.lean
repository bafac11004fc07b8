import Mathlib.Data.List.Chain
import Mathlib.Data.List.Destutter
import Mathlib.Order.Lattice
import LeadSheet.Order.Runs

/-!
# What merging runs keeps

Merging takes entries away and never moves one. What is kept has no two neighbours that belong
together, and the last entry of any part is still the last entry there: itself when the last of a
run stays, and up to what its run shares when the first stays.
-/

namespace LeadSheet.Order
set_option autoImplicit false

variable {β γ : Type} {same : β → β → Bool}

theorem getLast?_filter_cons (p : β → Bool) (x : β) (xs : List β) :
    ((x :: xs).filter p).getLast? =
      ((xs.filter p).getLast?).or (if p x then some x else none) := by
  rw [List.filter_cons]
  split
  · rw [List.getLast?_cons]
    cases (xs.filter p).getLast? <;> rfl
  · rw [Option.or_none]

theorem getLast?_filter_append_cons {p : β → Bool} {front back : List β} {x : β}
    (hx : p x = true) (hBack : ∀ y ∈ back, ¬p y = true) :
    ((front ++ x :: back).filter p).getLast? = some x := by
  rw [List.filter_append, List.getLast?_append, getLast?_filter_cons,
    List.filter_eq_nil_iff.mpr hBack, if_pos hx]
  rfl

theorem keepLast_sublist (same : β → β → Bool) (xs : List β) : (keepLast same xs).Sublist xs := by
  fun_induction keepLast same xs with
  | case1 => exact List.Sublist.refl _
  | case2 x => exact List.Sublist.refl _
  | case3 x y ys _ ih => exact ih.cons x
  | case4 x y ys _ ih => exact ih.cons_cons x

theorem keepFirst_sublist (same : β → β → Bool) (xs : List β) : (keepFirst same xs).Sublist xs := by
  fun_induction keepFirst same xs with
  | case1 => exact List.Sublist.refl _
  | case2 x => exact List.Sublist.refl _
  | case3 x y ys _ ih => exact ih.trans ((List.sublist_cons_self y ys).cons_cons x)
  | case4 x y ys _ ih => exact ih.cons_cons x

theorem keepLast_ne_nil (same : β → β → Bool) {xs : List β} (h : xs ≠ []) : keepLast same xs ≠ [] := by
  fun_induction keepLast same xs with
  | case1 => exact h
  | case2 x => exact h
  | case3 x y ys _ ih => exact ih (List.cons_ne_nil y ys)
  | case4 x y ys _ ih => exact List.cons_ne_nil _ _

theorem exists_cons_keepLast_mergeSort (same le : β → β → Bool) {xs : List β} (h : xs ≠ []) :
    ∃ x rest, keepLast same (xs.mergeSort le) = x :: rest := by
  have hSorted : xs.mergeSort le ≠ [] := by
    rw [← List.length_pos_iff, List.length_mergeSort]
    exact List.length_pos_iff.mpr h
  exact List.exists_cons_of_ne_nil (keepLast_ne_nil same hSorted)

theorem mem_keepLast {x : β} (hSame : ∀ x y, same x y = true → x = y) {xs : List β} :
    x ∈ keepLast same xs ↔ x ∈ xs := by
  fun_induction keepLast same xs with
  | case1 => rfl
  | case2 y => rfl
  | case3 y z zs hyz ih =>
    cases hSame y z hyz
    simp [ih]
  | case4 y z zs _ ih => rw [List.mem_cons, List.mem_cons, ih]

theorem keepLast_of_isChain {xs : List β} (h : xs.IsChain fun x y => same x y = false) :
    keepLast same xs = xs := by
  fun_induction keepLast same xs with
  | case1 => rfl
  | case2 x => rfl
  | case3 x y ys hSame ih =>
    rw [List.isChain_cons_cons] at h
    rw [h.1] at hSame
    cases hSame
  | case4 x y ys _ ih => rw [ih (List.isChain_cons_cons.mp h).2]

theorem keepFirst_of_isChain {xs : List β} (h : xs.IsChain fun x y => same x y = false) :
    keepFirst same xs = xs := by
  fun_induction keepFirst same xs with
  | case1 => rfl
  | case2 x => rfl
  | case3 x y ys hSame ih =>
    rw [List.isChain_cons_cons] at h
    rw [h.1] at hSame
    cases hSame
  | case4 x y ys _ ih => rw [ih (List.isChain_cons_cons.mp h).2]

/-- Sorted by a key, merged by the same key: every key is there once. -/
theorem pairwise_lt_keepLast {κ : Type} [LinearOrder κ] (same : β → β → Bool) {key : β → κ}
    {xs : List β}
    (hSame : ∀ x y, same x y = true ↔ key x = key y)
    (hSorted : xs.Pairwise fun x y => key x ≤ key y) :
    (keepLast same xs).Pairwise fun x y => key x < key y := by
  fun_induction keepLast same xs with
  | case1 => exact List.Pairwise.nil
  | case2 x => exact List.pairwise_singleton _ x
  | case3 x y ys _ ih => exact ih hSorted.tail
  | case4 x y ys hxy ih =>
    obtain ⟨hx, hSorted⟩ := List.pairwise_cons.mp hSorted
    refine List.pairwise_cons.mpr ⟨fun z hz => ?_, ih hSorted⟩
    have hlt : key x < key y :=
      lt_of_le_of_ne (hx y List.mem_cons_self) fun h => hxy ((hSame x y).mpr h)
    rcases List.mem_cons.mp ((keepLast_sublist same (y :: ys)).mem hz) with rfl | hz
    · exact hlt
    · exact lt_of_lt_of_le hlt ((List.pairwise_cons.mp hSorted).1 z hz)

theorem getLast?_filter_keepLast {p : β → Bool} (hp : ∀ x y, same x y = true → p x = p y)
    (xs : List β) : ((keepLast same xs).filter p).getLast? = (xs.filter p).getLast? := by
  fun_induction keepLast same xs with
  | case1 => rfl
  | case2 x => rfl
  | case3 x y ys hSame ih =>
    rw [ih, getLast?_filter_cons p x, getLast?_filter_cons p y, hp x y hSame]
    cases (ys.filter p).getLast? with
    | some z => rfl
    | none => by_cases hy : p y = true <;> simp [hy]
  | case4 x y ys _ ih => rw [getLast?_filter_cons p x, getLast?_filter_cons p x, ih]

theorem head?_keepFirst (x : β) (ys : List β) : (keepFirst same (x :: ys)).head? = some x := by
  induction ys with
  | nil => rw [keepFirst, List.head?_cons]
  | cons y ys ih =>
    rw [keepFirst]
    split
    · exact ih
    · rfl

theorem isChain_keepFirst (xs : List β) :
    (keepFirst same xs).IsChain fun x y => same x y = false := by
  fun_induction keepFirst same xs with
  | case1 => exact .nil
  | case2 x => exact .singleton x
  | case3 x y ys _ ih => exact ih
  | case4 x y ys hSame ih =>
    have hy : (keepFirst same (y :: ys)).head? = some y := head?_keepFirst y ys
    cases hRest : keepFirst same (y :: ys) with
    | nil => exact .singleton x
    | cons z zs =>
      rw [hRest] at hy ih
      cases hy
      exact .cons_cons (by simpa using hSame) ih

theorem keepFirst_cons_eq_destutter' (x : β) (xs : List β) :
    keepFirst same (x :: xs) = xs.destutter' (fun y z => ¬same y z = true) x := by
  induction xs generalizing x with
  | nil => rw [keepFirst, List.destutter'_nil]
  | cons y ys ih =>
    rw [keepFirst]
    split
    · rename_i hSame
      rw [ih, List.destutter'_cons_neg _ (not_not.mpr hSame)]
    · rename_i hSame
      rw [ih, List.destutter'_cons_pos _ hSame]

theorem keepFirst_eq_destutter [DecidableEq β] (xs : List β) :
    keepFirst (· == ·) xs = xs.destutter (· ≠ ·) := by
  cases xs with
  | nil => rw [keepFirst, List.destutter_nil]
  | cons x xs =>
    rw [keepFirst_cons_eq_destutter', List.destutter_cons']
    simp only [beq_iff_eq]

/-- What the entries of a run share is read off the last entry of every first part. -/
theorem map_getLast?_filter_keepFirst {p : β → Bool} {f : β → γ}
    (hf : ∀ x y, same x y = true → f x = f y) {xs : List β}
    (hp : xs.Pairwise fun x y => p y = true → p x = true) :
    ((keepFirst same xs).filter p).getLast?.map f = (xs.filter p).getLast?.map f := by
  fun_induction keepFirst same xs with
  | case1 => rfl
  | case2 x => rfl
  | case3 x y ys hSame ih =>
    rw [ih (hp.sublist ((List.sublist_cons_self y ys).cons_cons x)), getLast?_filter_cons p x ys,
      getLast?_filter_cons p x (y :: ys), getLast?_filter_cons p y]
    cases (ys.filter p).getLast? with
    | some z => rfl
    | none =>
      by_cases hy : p y = true
      · have hx : p x = true := (List.pairwise_cons.mp hp).1 y List.mem_cons_self hy
        simp [hx, hy, hf x y hSame]
      · simp [hy]
  | case4 x y ys _ ih =>
    rw [getLast?_filter_cons p x, getLast?_filter_cons p x (y :: ys)]
    have ih := ih hp.tail
    cases hKept : ((keepFirst same (y :: ys)).filter p).getLast? <;>
      cases hAll : ((y :: ys).filter p).getLast? <;> simp_all

end LeadSheet.Order
