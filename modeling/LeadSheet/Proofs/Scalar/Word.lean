import LeadSheet.Scalar

/-!
# Bar numbers in words

What an unchecked build keeps of a number differs from it by a multiple of the size of a word. So it
does not matter whether a sum is taken of numbers or of what is kept of them, and a number that is
kept as it is can be told from any other such number by a sum with it.
-/

namespace LeadSheet
set_option autoImplicit false

namespace Word64

theorem wrap_wrap_add (n m : Int) : wrap (wrap n + m) = wrap (n + m) := by
  simp only [wrap, Int64.toInt_ofInt]
  exact Int.bmod_add_bmod

theorem wrap_of_holds {n : Int} (h : holds n = true) : wrap n = n := by
  rw [holds, Bool.and_eq_true, decide_eq_true_eq, decide_eq_true_eq] at h
  exact Int64.toInt_ofInt_of_le h.1 (Int.lt_of_le_sub_one h.2)

end Word64

namespace Scalar

variable {α : Type} [Scalar α]

theorem bar_of_checked (h : buildOf α = .checked) (n : Int) : bar α n = n := by
  rw [bar, h]

theorem bar_of_unchecked (h : buildOf α = .unchecked) (n : Int) : bar α n = Word64.wrap n := by
  rw [bar, h]

theorem bar_of_holds {n : Int} (h : Word64.holds n = true) : bar α n = n := by
  cases hBuild : buildOf α with
  | checked => exact bar_of_checked hBuild n
  | unchecked => rw [bar_of_unchecked hBuild, Word64.wrap_of_holds h]

theorem bar_bar_add (n m : Int) : bar α (bar α n + m) = bar α (n + m) := by
  cases h : buildOf α with
  | checked => simp only [bar_of_checked h]
  | unchecked =>
    simp only [bar_of_unchecked h]
    exact Word64.wrap_wrap_add n m

@[simp] theorem bar_bar (n : Int) : bar α (bar α n) = bar α n := by
  have h : bar α (bar α n + 0) = bar α (n + 0) := bar_bar_add n 0
  rwa [Int.add_zero, Int.add_zero] at h

@[simp] theorem bar_zero : bar α 0 = 0 := by
  cases h : buildOf α with
  | checked => exact bar_of_checked h 0
  | unchecked => exact bar_of_unchecked h 0

@[simp] theorem bar_one : bar α 1 = 1 := by
  cases h : buildOf α with
  | checked => exact bar_of_checked h 1
  | unchecked => exact bar_of_unchecked h 1

theorem eq_of_bar_add_eq {b c offset : Int} (hB : bar α b = b) (hC : bar α c = c)
    (h : bar α (b + offset) = bar α (c + offset)) : b = c :=
  calc b = bar α (bar α (b + offset) + -offset) := by rw [bar_bar_add, Int.add_neg_cancel_right, hB]
    _ = bar α (bar α (c + offset) + -offset) := by rw [h]
    _ = c := by rw [bar_bar_add, Int.add_neg_cancel_right, hC]

end Scalar

end LeadSheet
