import LeadSheet.Order.Bisect

/-!
# Where bisection stops

When a property holds for a first part of a list and nowhere after it, bisection finds the length of
this part.
-/

namespace LeadSheet.Order
set_option autoImplicit false

variable {β : Type}

theorem bisectFrom_eq {holds : Nat → Bool} {n : Nat} (hBelow : ∀ i, i < n → holds i = true)
    (hAbove : ∀ i, n ≤ i → holds i = false) (base size : Nat) (hBase : base ≤ n)
    (hSize : n ≤ base + size) : bisectFrom holds base size = n := by
  fun_induction bisectFrom holds base size with
  | case1 base size h half ih =>
    have hHalf : half = size / 2 := rfl
    by_cases hMid : base + half < n
    · rw [hBelow _ hMid] at ih ⊢
      exact ih (by simp; omega) (by simp; omega)
    · rw [hAbove _ (by omega)] at ih ⊢
      exact ih (by simpa using hBase) (by simp; omega)
  | case2 base size h hOne =>
    have hlt : ¬n ≤ base := by
      intro hn
      rw [hAbove base hn] at hOne
      exact absurd hOne.2 (by decide)
    omega
  | case3 base size h hOne =>
    by_cases hn : base < n
    · exact absurd ⟨by omega, hBelow base hn⟩ hOne
    · omega

theorem bisect_append {holds : β → Bool} {front back : List β}
    (hFront : ∀ x ∈ front, holds x = true) (hBack : ∀ x ∈ back, holds x = false) :
    bisect holds (front ++ back) = front.length := by
  apply bisectFrom_eq
  · intro i hi
    rw [List.getElem?_append_left hi, List.getElem?_eq_getElem hi]
    exact hFront _ (List.getElem_mem hi)
  · intro i hi
    rw [List.getElem?_append_right hi]
    cases hx : back[i - front.length]? with
    | none => rfl
    | some x => exact hBack x (List.mem_of_getElem? hx)
  · exact Nat.zero_le _
  · simp

theorem bisect_map {γ : Type} (holds : γ → Bool) (f : β → γ) (xs : List β) :
    bisect holds (xs.map f) = bisect (fun x => holds (f x)) xs := by
  simp only [bisect, List.length_map, List.getElem?_map, Option.any_map]

theorem bisectFrom_le (holds : Nat → Bool) (base size : Nat) :
    bisectFrom holds base size ≤ base + size := by
  fun_induction bisectFrom holds base size with
  | case1 base size h half ih =>
    have hHalf : half = size / 2 := rfl
    refine Nat.le_trans ih ?_
    split <;> omega
  | case2 base size h hOne => omega
  | case3 base size h hOne => omega

theorem bisect_le_length (holds : β → Bool) (xs : List β) : bisect holds xs ≤ xs.length := by
  have h := bisectFrom_le (fun i => xs[i]?.any holds) 0 xs.length
  rwa [Nat.zero_add] at h

/-- The last entry at the front with a property is in the list. -/
theorem lt_length_of_bisect {holds : β → Bool} {xs : List β} {n : Nat}
    (h : bisect holds xs = n + 1) : n < xs.length := by
  have hBisect := bisect_le_length holds xs
  omega

/-- A list with a property somewhere, cut at the last entry that has it. -/
theorem exists_last {p : β → Prop} {xs : List β} (hSome : ∃ x ∈ xs, p x) :
    ∃ front x back, xs = front ++ x :: back ∧ p x ∧ ∀ y ∈ back, ¬p y := by
  induction xs with
  | nil =>
    obtain ⟨x, hx, _⟩ := hSome
    cases hx
  | cons x xs ih =>
    by_cases hLater : ∃ y ∈ xs, p y
    · obtain ⟨front, y, back, rfl, hy, hBack⟩ := ih hLater
      exact ⟨x :: front, y, back, rfl, hy, hBack⟩
    · have hNone : ∀ y ∈ xs, ¬p y := fun y hy h => hLater ⟨y, hy, h⟩
      obtain ⟨y, hy, hpy⟩ := hSome
      rcases List.mem_cons.mp hy with rfl | hy
      · exact ⟨[], y, xs, rfl, hpy, hNone⟩
      · exact absurd hpy (hNone y hy)

/-- A list in which a property that holds somewhere holds for a first part, cut at the last entry
of this part. -/
theorem exists_last_split {p : β → Prop} {xs : List β} (hp : xs.Pairwise fun x y => p y → p x)
    (hSome : ∃ x ∈ xs, p x) :
    ∃ front x back, xs = front ++ x :: back ∧ (∀ y ∈ front, p y) ∧ p x ∧ ∀ y ∈ back, ¬p y := by
  obtain ⟨front, x, back, rfl, hx, hBack⟩ := exists_last hSome
  refine ⟨front, x, back, rfl, fun y hy => ?_, hx, hBack⟩
  exact (List.pairwise_append.mp hp).2.2 y hy x List.mem_cons_self hx

end LeadSheet.Order
