import Mathlib.Algebra.Group.Nat.Defs
import LeadSheet.Export.Timecode
import LeadSheet.Text.Digit

/-!
# Numbers written and read

A number written in decimal digits, with any zeros in front, has digits alone and reads back as
itself.
-/

namespace LeadSheet.Text
set_option autoImplicit false

theorem isDigit_bounds {c : Char} (h : c.isDigit = true) : 48 ≤ c.toNat ∧ c.toNat < 58 := by
  rw [Char.isDigit, Bool.and_eq_true, decide_eq_true_eq, decide_eq_true_eq] at h
  have hLow : '0'.toNat ≤ c.toNat := h.1
  have hHigh : c.toNat ≤ '9'.toNat := h.2
  exact ⟨hLow, Nat.lt_succ_of_le hHigh⟩

theorem isDigit_of_isDigit {c : Char} (h : c.isDigit = true) : isDigit c = true := by
  have hBounds := isDigit_bounds h
  rw [isDigit, if_pos (by omega), Bool.and_eq_true, decide_eq_true_eq, decide_eq_true_eq]
  exact hBounds

theorem asciiDigit?_of_isDigit {c : Char} (h : c.isDigit = true) :
    asciiDigit? c = some (c.toNat - 48) := if_pos (isDigit_bounds h)

theorem foldl_asciiDigit? {cs : List Char} (h : ∀ c ∈ cs, c.isDigit = true) (n : Nat) :
    cs.foldl (fun n c => do return (← n) * 10 + (← asciiDigit? c)) (some n) =
      some (Nat.ofDigitChars 10 cs n) := by
  induction cs generalizing n with
  | nil => rfl
  | cons c cs ih =>
    obtain ⟨hc, hRest⟩ := List.forall_mem_cons.mp h
    have hStep : n * 10 + (c.toNat - 48) = 10 * n + (c.toNat - '0'.toNat) := by
      rw [Nat.mul_comm]
      rfl
    rw [List.foldl_cons, asciiDigit?_of_isDigit hc, Nat.ofDigitChars, List.foldl_cons, ← hStep]
    exact ih hRest _

theorem natOfDigits?_eq {cs : List Char} (h : ∀ c ∈ cs, c.isDigit = true) :
    natOfDigits? cs = some (Nat.ofDigitChars 10 cs 0) := foldl_asciiDigit? h 0

theorem ofDigitChars_replicate_zero (k : Nat) (cs : List Char) :
    Nat.ofDigitChars 10 (List.replicate k '0' ++ cs) 0 = Nat.ofDigitChars 10 cs 0 := by
  induction k with
  | zero => rfl
  | succ k ih =>
    rw [List.replicate_succ, List.cons_append, Nat.ofDigitChars, List.foldl_cons]
    exact ih

end LeadSheet.Text

namespace LeadSheet.Export

theorem toList_padded (width n : Nat) : (padded width n).toList =
    List.replicate (width - (Nat.toDigits 10 n).length) '0' ++ Nat.toDigits 10 n :=
  String.toList_ofList

theorem isDigit_of_mem_padded {width n : Nat} {c : Char} (h : c ∈ (padded width n).toList) :
    c.isDigit = true := by
  rw [toList_padded, List.mem_append] at h
  rcases h with hZero | hDigit
  · rw [(List.mem_replicate.mp hZero).2]
    rfl
  · exact Nat.isDigit_of_mem_toDigits (by decide) (by decide) hDigit

theorem length_padded (width n : Nat) :
    (padded width n).toList.length = max width (Nat.toDigits 10 n).length := by
  rw [toList_padded, List.length_append, List.length_replicate]
  omega

theorem length_padded_of_lt {width n : Nat} (hWidth : 0 < width) (h : n < 10 ^ width) :
    (padded width n).toList.length = width := by
  have hDigits := (Nat.length_toDigits_le_iff (b := 10) (by decide) hWidth).mpr h
  rw [length_padded, Nat.max_eq_left hDigits]

theorem natOfDigits?_padded (width n : Nat) :
    Text.natOfDigits? (padded width n).toList = some n := by
  rw [Text.natOfDigits?_eq fun _ => isDigit_of_mem_padded, toList_padded,
    Text.ofDigitChars_replicate_zero, Nat.ofDigitChars_toDigits (by decide) (by decide)]

end LeadSheet.Export
