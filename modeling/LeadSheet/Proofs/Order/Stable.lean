import Mathlib.Data.List.Pairwise
import LeadSheet.Scalar

/-!
# Parts of a sorted list

A stable sort never changes the order of entries that it may leave as they are. So sorting a list
and then taking the entries with a property is taking them and then sorting, whatever the order is.
And there is one way only to put the entries in order and leave those that tie as they are listed.
-/

namespace LeadSheet.Order
set_option autoImplicit false

variable {β : Type} {le : β → β → Bool}

/-- A list whose first part has a property that the rest has not is cut in one way. -/
theorem append_inj_of_forall {p : β → Bool} {front back front' back' : List β}
    (hEq : front ++ back = front' ++ back') (hFront : ∀ x ∈ front, p x = true)
    (hBack : ∀ x ∈ back, ¬p x = true) (hFront' : ∀ x ∈ front', p x = true)
    (hBack' : ∀ x ∈ back', ¬p x = true) : front = front' ∧ back = back' := by
  have hPart := congrArg (List.filter p) hEq
  rw [List.filter_append, List.filter_append, List.filter_eq_self.mpr hFront,
    List.filter_eq_self.mpr hFront', List.filter_eq_nil_iff.mpr hBack,
    List.filter_eq_nil_iff.mpr hBack', List.append_nil, List.append_nil] at hPart
  exact ⟨hPart, List.append_cancel_left (hPart ▸ hEq)⟩

theorem filter_mergeSort (hTrans : ∀ x y z, le x y = true → le y z = true → le x z = true)
    (hTotal : ∀ x y, (le x y || le y x) = true) (p : β → Bool) (xs : List β) :
    (xs.mergeSort le).filter p = (xs.filter p).mergeSort le := by
  induction xs with
  | nil => rw [List.filter_nil, List.mergeSort_nil, List.filter_nil]
  | cons x xs ih =>
    -- `x` is put in front of all entries that it may stand before, in the list and in its part
    obtain ⟨front, back, hAll, hRest, hFront⟩ := List.mergeSort_cons hTrans hTotal x xs
    rw [hRest, List.filter_append] at ih
    rw [hAll, List.filter_append]
    by_cases hx : p x = true
    · obtain ⟨front', back', hAll', hRest', hFront'⟩ :=
        List.mergeSort_cons hTrans hTotal x (xs.filter p)
      have hSorted := List.pairwise_mergeSort hTrans hTotal (x :: xs)
      have hSorted' := List.pairwise_mergeSort hTrans hTotal (x :: xs.filter p)
      rw [hAll] at hSorted
      rw [hAll'] at hSorted'
      have hBack := (List.pairwise_cons.mp (List.pairwise_append.mp hSorted).2.1).1
      have hBack' := (List.pairwise_cons.mp (List.pairwise_append.mp hSorted').2.1).1
      obtain ⟨hEqFront, hEqBack⟩ := append_inj_of_forall (p := fun y => !le x y)
        (ih.trans hRest') (fun y hy => hFront y (List.mem_filter.mp hy).1)
        (fun y hy => by simp [hBack y (List.mem_filter.mp hy).1]) hFront'
        (fun y hy => by simp [hBack' y hy])
      rw [List.filter_cons_of_pos hx, List.filter_cons_of_pos hx, hAll', hEqFront, hEqBack]
    · rw [List.filter_cons_of_neg hx, List.filter_cons_of_neg hx, ih]

theorem isLE_total (cmp : β → β → Ordering) [Std.OrientedCmp cmp] (x y : β) :
    ((cmp x y).isLE || (cmp y x).isLE) = true := by
  have hSwap : cmp y x = (cmp x y).swap := Std.OrientedCmp.eq_swap
  rw [hSwap]
  cases cmp x y <;> rfl

def ties (le : β → β → Bool) (x y : β) : Bool := le x y && le y x

/-- The entries of `xs` in order, those that tie as they are listed there. -/
structure IsStableSort (le : β → β → Bool) (xs ys : List β) : Prop where
  perm : ys.Perm xs
  sorted : ys.Pairwise fun x y => le x y = true
  stable : ∀ x ∈ xs, ys.filter (ties le x) = xs.filter (ties le x)

section Unique

variable (hTotal : ∀ x y, (le x y || le y x) = true)
include hTotal

theorem le_of_pairwise_cons {x y : β} {xs : List β}
    (h : (x :: xs).Pairwise fun x y => le x y = true) (hy : y ∈ x :: xs) : le x y = true := by
  rcases List.mem_cons.mp hy with rfl | hy
  · simpa using hTotal y y
  · exact (List.pairwise_cons.mp h).1 y hy

theorem eq_of_stable {ys zs : List β} (hPerm : ys.Perm zs)
    (hys : ys.Pairwise fun x y => le x y = true) (hzs : zs.Pairwise fun x y => le x y = true)
    (hTies : ∀ x ∈ ys, ys.filter (ties le x) = zs.filter (ties le x)) : ys = zs := by
  induction ys generalizing zs with
  | nil => exact hPerm.nil_eq
  | cons y ys ih =>
    cases zs with
    | nil => exact hPerm.eq_nil
    | cons z zs =>
      -- both lists start with a least entry, so these tie, and the first of the ties is the same
      have hyy : ties le y y = true := by simpa [ties] using hTotal y y
      have hyz : ties le y z = true := by
        rw [ties, Bool.and_eq_true]
        exact ⟨le_of_pairwise_cons hTotal hys (hPerm.mem_iff.mpr List.mem_cons_self),
          le_of_pairwise_cons hTotal hzs (hPerm.mem_iff.mp List.mem_cons_self)⟩
      have hHead := hTies y List.mem_cons_self
      rw [List.filter_cons_of_pos hyy, List.filter_cons_of_pos hyz] at hHead
      cases (List.cons.inj hHead).1
      rw [ih hPerm.cons_inv hys.tail hzs.tail]
      intro x hx
      have hRest := hTies x (List.mem_cons_of_mem _ hx)
      rw [List.filter_cons, List.filter_cons] at hRest
      split at hRest
      · exact (List.cons.inj hRest).2
      · exact hRest

theorem isStableSort_iff (hTrans : ∀ x y z, le x y = true → le y z = true → le x z = true)
    {xs ys : List β} : IsStableSort le xs ys ↔ ys = xs.mergeSort le := by
  have hSort : IsStableSort le xs (xs.mergeSort le) := by
    refine ⟨List.mergeSort_perm xs le, List.pairwise_mergeSort hTrans hTotal xs, fun x _ => ?_⟩
    rw [filter_mergeSort hTrans hTotal]
    apply List.mergeSort_of_pairwise
    apply List.pairwise_of_forall_mem_list
    intro y hy z hz
    have hy := (List.mem_filter.mp hy).2
    have hz := (List.mem_filter.mp hz).2
    rw [ties, Bool.and_eq_true] at hy hz
    exact hTrans y x z hy.2 hz.1
  constructor
  · intro h
    apply eq_of_stable hTotal (h.perm.trans hSort.perm.symm) h.sorted hSort.sorted
    intro x hx
    have hx := h.perm.mem_iff.mp hx
    rw [h.stable x hx, hSort.stable x hx]
  · rintro rfl
    exact hSort

/-- Sorting leaves entries that tie in any order in which all entries were. -/
theorem pairwise_mergeSort_of_pairwise
    (hTrans : ∀ x y z, le x y = true → le y z = true → le x z = true) {listed : β → β → Prop}
    {xs : List β} (h : xs.Pairwise listed) :
    (xs.mergeSort le).Pairwise fun x y => le x y = true ∧ (le y x = true → listed x y) := by
  have hSort : IsStableSort le xs (xs.mergeSort le) := (isStableSort_iff hTotal hTrans).mpr rfl
  refine hSort.sorted.and (List.pairwise_iff_forall_sublist.mpr fun {x y} hSub hyx => ?_)
  have hxy : le x y = true := by simpa using hSort.sorted.sublist hSub
  have hxx : le x x = true := by simpa using hTotal x x
  have hBoth : [x, y].filter (ties le x) = [x, y] := by simp [ties, hxx, hxy, hyx]
  -- the two stand so among those that tie with `x`, which are as they were listed
  have hTies := hSub.filter (ties le x)
  rw [hBoth, hSort.stable x (hSort.perm.mem_iff.mp (hSub.mem List.mem_cons_self))] at hTies
  simpa using h.sublist (hTies.trans List.filter_sublist)

end Unique

end LeadSheet.Order

namespace LeadSheet.Scalar

variable {α : Type} [Scalar α] [LawfulOrder α]

theorem atMost_trans {x y z : α} (hxy : atMost x y = true) (hyz : atMost y z = true) :
    atMost x z = true :=
  Std.TransCmp.isLE_trans hxy hyz

theorem atMost_total (x y : α) : (atMost x y || atMost y x) = true :=
  Order.isLE_total totalCmp x y

end LeadSheet.Scalar
