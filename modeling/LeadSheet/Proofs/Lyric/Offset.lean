import LeadSheet.Lyric.Align
import LeadSheet.Proofs.Scalar.Number

/-!
# The offset of words in any order

The words of a song are moved together, so what one of them does to the offset it does to all. The
offset is the upper median of the distances to the grid, pulled into the window, and no two
distances look alike to the order they are sorted by: the words may be listed in any order.
-/

namespace LeadSheet
set_option autoImplicit false

section Median

variable {α : Type} {le : α → α → Bool}

def strictlyBelow (le : α → α → Bool) (x y : α) : Bool := !le y x

/-- At most half of the values are below the median, and fewer than half above. -/
structure IsUpperMedian (le : α → α → Bool) (x : α) (xs : List α) : Prop where
  mem : x ∈ xs
  below : 2 * xs.countP (strictlyBelow le · x) ≤ xs.length
  above : 2 * xs.countP (strictlyBelow le x ·) < xs.length

theorem countP_strictlyBelow_le {front back : List α} {x : α}
    (hRefl : le x x = true) (hSorted : (front ++ x :: back).Pairwise fun y z => le y z = true) :
    (front ++ x :: back).countP (strictlyBelow le · x) ≤ front.length := by
  have hBack := (List.pairwise_cons.mp (List.pairwise_append.mp hSorted).2.1).1
  have hNone : (x :: back).countP (strictlyBelow le · x) = 0 := by
    apply List.countP_eq_zero.mpr
    intro y hy
    rcases List.mem_cons.mp hy with rfl | hy
    · simp [strictlyBelow, hRefl]
    · simp [strictlyBelow, hBack y hy]
  rw [List.countP_append, hNone]
  exact List.countP_le_length

theorem countP_strictlyAbove_le {front back : List α} {x : α}
    (hRefl : le x x = true) (hSorted : (front ++ x :: back).Pairwise fun y z => le y z = true) :
    (front ++ x :: back).countP (strictlyBelow le x ·) ≤ back.length := by
  have hFront := (List.pairwise_append.mp hSorted).2.2
  have hNone : front.countP (strictlyBelow le x ·) = 0 := by
    apply List.countP_eq_zero.mpr
    intro y hy
    simp [strictlyBelow, hFront y hy x List.mem_cons_self]
  rw [List.countP_append, hNone, List.countP_cons_of_neg (by simp [strictlyBelow, hRefl]),
    Nat.zero_add]
  exact List.countP_le_length

theorem isUpperMedian_of_sorted {xs : List α} {x : α} (hRefl : le x x = true)
    (hSorted : xs.Pairwise fun y z => le y z = true) (hx : xs[xs.length / 2]? = some x) :
    IsUpperMedian le x xs := by
  obtain ⟨hLt, hx⟩ := List.getElem?_eq_some_iff.mp hx
  -- nothing after the middle is below it, and nothing before it above
  obtain ⟨front, back, hSplit, hFront⟩ :
      ∃ front back, xs = front ++ x :: back ∧ front.length = xs.length / 2 := by
    refine ⟨xs.take (xs.length / 2), xs.drop (xs.length / 2 + 1), ?_, ?_⟩
    · rw [← hx, ← List.drop_eq_getElem_cons hLt, List.take_append_drop]
    · rw [List.length_take]
      omega
  have hLength : xs.length = front.length + back.length + 1 := by
    rw [hSplit, List.length_append, List.length_cons, Nat.add_assoc]
  rw [hSplit] at hSorted
  have hBelow := countP_strictlyBelow_le hRefl hSorted
  have hAbove := countP_strictlyAbove_le hRefl hSorted
  rw [← hSplit] at hBelow hAbove
  constructor
  · rw [hSplit]
    exact List.mem_append_right front List.mem_cons_self
  · omega
  · omega

theorem IsUpperMedian.of_perm {xs ys : List α} {x : α} (h : IsUpperMedian le x xs)
    (hPerm : xs.Perm ys) : IsUpperMedian le x ys where
  mem := hPerm.mem_iff.mp h.mem
  below := by
    rw [← hPerm.countP_eq, ← hPerm.length_eq]
    exact h.below
  above := by
    rw [← hPerm.countP_eq, ← hPerm.length_eq]
    exact h.above

end Median

namespace Aligner

variable {α : Type} [Scalar α]

def residuals (a : Aligner α) (words : List (Word α)) : List α :=
  words.map fun w => a.residual w.start

def InWindow (a : Aligner α) (x : α) : Prop := -a.maxOffset ≤ x ∧ x ≤ a.maxOffset

theorem exists_globalOffset_eq (a : Aligner α) {words : List (Word α)} (h : words ≠ []) :
    ∃ median,
      ((words.map fun w => a.residual w.start).mergeSort residualAtMost)[words.length / 2]? =
        some median ∧
      a.globalOffset words = Scalar.clamp median (-a.maxOffset) a.maxOffset := by
  have hPos := List.length_pos_iff.mpr h
  have hLength : ((words.map fun w => a.residual w.start).mergeSort residualAtMost).length =
      words.length := by
    rw [List.length_mergeSort, List.length_map]
  have hLt : words.length / 2 <
      ((words.map fun w => a.residual w.start).mergeSort residualAtMost).length := by omega
  refine ⟨_, List.getElem?_eq_getElem hLt, ?_⟩
  simp only [globalOffset, hLength, List.getElem?_eq_getElem hLt]

section Lawful

variable [Scalar.LawfulNumbers α]

theorem residualAtMost_trans (x y z : α) (hxy : residualAtMost x y = true)
    (hyz : residualAtMost y z = true) : residualAtMost x z = true := by
  unfold residualAtMost at *
  cases hx : Scalar.isNumber x with
  | false => rfl
  | true =>
    simp only [hx, Bool.not_true, Bool.false_or, Bool.and_eq_true] at hxy ⊢
    simp only [hxy.1, Bool.not_true, Bool.false_or, Bool.and_eq_true] at hyz
    exact ⟨hyz.1, Scalar.atMost_trans hxy.2 hyz.2⟩

theorem residualAtMost_total (x y : α) : (residualAtMost x y || residualAtMost y x) = true := by
  have hTotal := Scalar.atMost_total x y
  unfold residualAtMost
  cases Scalar.isNumber x <;> cases Scalar.isNumber y <;> simp_all

theorem residualAtMost_refl (x : α) : residualAtMost x x = true := by
  simpa using residualAtMost_total x x

/-- The order tells all values apart: there is one that is no number. -/
theorem eq_of_residualAtMost {x y : α} (hxy : residualAtMost x y = true)
    (hyx : residualAtMost y x = true) : x = y := by
  unfold residualAtMost at hxy hyx
  cases hx : Scalar.isNumber x <;> cases hy : Scalar.isNumber y <;>
    simp only [hx, hy, Bool.not_true, Bool.not_false, Bool.false_or, Bool.true_or, Bool.true_and,
      Bool.false_and, Bool.false_eq_true] at hxy hyx
  · exact Scalar.LawfulNumbers.eq_of_not_isNumber hx hy
  · exact Scalar.LawfulNumbers.eq_of_atMost hxy hyx

theorem mergeSort_residualAtMost_eq {rs ss : List α} (hPerm : rs.Perm ss) :
    rs.mergeSort residualAtMost = ss.mergeSort residualAtMost := by
  have hSorted (rs : List α) := List.pairwise_mergeSort residualAtMost_trans
    residualAtMost_total rs
  -- equal values are the same value, so a sorted list has no freedom left
  apply List.Perm.eq_of_pairwise _ (hSorted rs) (hSorted ss)
  · exact (List.mergeSort_perm rs _).trans (hPerm.trans (List.mergeSort_perm ss _).symm)
  · intro x y _ _
    exact eq_of_residualAtMost

theorem inWindow_clamp_iff {a : Aligner α} (hWindow : -a.maxOffset ≤ a.maxOffset) (r : α) :
    a.InWindow (Scalar.clamp r (-a.maxOffset) a.maxOffset) ↔ Scalar.isNumber r = true := by
  constructor
  · rintro ⟨hLo, _⟩
    cases hr : Scalar.isNumber r with
    | true => rfl
    | false =>
      rw [Scalar.clamp_of_not_isNumber hr] at hLo
      rw [← hr]
      exact (Scalar.LawfulNumbers.isNumber_of_le hLo).2
  · intro hr
    exact Scalar.clamp_bounds hr hWindow

theorem globalOffset_perm (a : Aligner α) {words others : List (Word α)}
    (hPerm : words.Perm others) : a.globalOffset others = a.globalOffset words := by
  simp only [globalOffset, mergeSort_residualAtMost_eq (hPerm.map fun w => a.residual w.start)]

theorem exists_isUpperMedian (a : Aligner α) {words : List (Word α)} (hWords : words ≠ []) :
    ∃ r, IsUpperMedian residualAtMost r (a.residuals words) ∧
      a.globalOffset words = Scalar.clamp r (-a.maxOffset) a.maxOffset := by
  obtain ⟨r, hMiddle, hOffset⟩ := a.exists_globalOffset_eq hWords
  refine ⟨r, ?_, hOffset⟩
  have hPerm := List.mergeSort_perm (a.residuals words) residualAtMost
  have hSorted := List.pairwise_mergeSort residualAtMost_trans residualAtMost_total
    (a.residuals words)
  have hLength : words.length = ((a.residuals words).mergeSort residualAtMost).length := by
    rw [hPerm.length_eq, residuals, List.length_map]
  rw [hLength] at hMiddle
  exact (isUpperMedian_of_sorted (residualAtMost_refl r) hSorted hMiddle).of_perm hPerm

/-- What aligning words in another order gives: the same offset, and every word the same row. -/
structure SameRows (a : Aligner α) (words others : List (Word α)) : Prop where
  offset : (a.align others).1 = (a.align words).1
  rows : ∃ row : Word α → Row α,
    (a.align words).2 = words.map row ∧ (a.align others).2 = others.map row

theorem sameRows_of_perm (a : Aligner α) {words others : List (Word α)}
    (hPerm : words.Perm others) : a.SameRows words others where
  offset := a.globalOffset_perm hPerm
  rows := by
    refine ⟨fun w => a.snapWord (w.shift (a.globalOffset words)), ?_, ?_⟩
    · rw [align, snapWords, List.map_map]
      rfl
    · rw [align, snapWords, List.map_map, a.globalOffset_perm hPerm]
      rfl

theorem align_perm (a : Aligner α) (hWindow : -a.maxOffset ≤ a.maxOffset)
    {words others : List (Word α)} (hPerm : words.Perm others) :
    a.SameRows words others ∧ (words ≠ [] → ∃ r,
      IsUpperMedian residualAtMost r (a.residuals words) ∧
      (a.align words).1 = Scalar.clamp r (-a.maxOffset) a.maxOffset ∧
      (a.InWindow (a.align words).1 ↔ Scalar.isNumber r = true)) := by
  refine ⟨a.sameRows_of_perm hPerm, ?_⟩
  intro hWords
  obtain ⟨r, hMedian, hOffset⟩ := a.exists_isUpperMedian hWords
  have hOffset : (a.align words).1 = Scalar.clamp r (-a.maxOffset) a.maxOffset := hOffset
  refine ⟨r, hMedian, hOffset, ?_⟩
  rw [hOffset]
  exact inWindow_clamp_iff hWindow r

/-- Two words, one a fortieth of a second before its sub-beat and one a twentieth after. -/
theorem align_perm_two_words :
    let a : Aligner Rat :=
      ⟨.constant 120, 4, 0, 4, 3 / 10, 95 / 100, by decide⟩
    let early : Word Rat := ⟨"twinkle", 1 / 10, none, none⟩
    let late : Word Rat := ⟨"star", 3 / 10, none, none⟩
    [early, late].Perm [late, early] ∧ -a.maxOffset ≤ a.maxOffset ∧
      a.SameRows [early, late] [late, early] ∧
      (∃ r, IsUpperMedian residualAtMost r (a.residuals [early, late]) ∧
        (a.align [early, late]).1 = Scalar.clamp r (-a.maxOffset) a.maxOffset) ∧
      (a.align [late, early]).1 = 1 / 40 := by
  intro a early late
  have hWindow : -a.maxOffset ≤ a.maxOffset := by decide +kernel
  have hPerm : [early, late].Perm [late, early] := .swap _ _ _
  obtain ⟨hSame, hMedian⟩ := a.align_perm hWindow hPerm
  obtain ⟨r, hMedian, hOffset, _⟩ := hMedian (List.cons_ne_nil _ _)
  refine ⟨hPerm, hWindow, hSame, ⟨r, hMedian, hOffset⟩, ?_⟩
  have hResiduals : a.residuals [late, early] = [-1 / 20, 1 / 40] := by decide +kernel
  have hSorted : (a.residuals [late, early]).mergeSort residualAtMost = [-1 / 20, 1 / 40] := by
    rw [hResiduals]
    exact List.mergeSort_of_pairwise (by decide +kernel)
  change a.globalOffset [late, early] = 1 / 40
  unfold globalOffset
  rw [← residuals, hSorted]
  decide +kernel

end Lawful

section Overflow

theorem not_isNumber_residual {a : Aligner Float} {t : Float}
    (h : Scalar.isNumber (a.position t).beat = false) : Scalar.isNumber (a.residual t) = false :=
  Binary64.not_isNumber_mul
    (Binary64.not_isNumber_sub (.inr (Binary64.not_isNumber_sub (.inl h))))

/-- At an endless tempo the beat of a word at the start is no number, and neither is the offset. -/
theorem align_beyond_window :
    let a : Aligner Float := ⟨.constant (1 / 0), 4, 0, 4, 0.3, 0.95, by decide⟩
    let words : List (Word Float) := [⟨"la", 0, some 0, none⟩]
    words ≠ [] ∧ (∀ w ∈ words, Scalar.IsFinite w.start) ∧ -a.maxOffset ≤ a.maxOffset ∧
      ¬a.InWindow (a.align words).1 := by
  intro a words
  have hWindow : -a.maxOffset ≤ a.maxOffset := by decide +kernel
  have hBeat : Scalar.isNumber (a.position 0).beat = false := by decide +kernel
  refine ⟨List.cons_ne_nil _ _, by decide +kernel, hWindow, ?_⟩
  have hOffset : (a.align words).1 = Scalar.clamp (a.residual 0) (-a.maxOffset) a.maxOffset := by
    simp [align, globalOffset, words]
  rw [hOffset, inWindow_clamp_iff hWindow, not_isNumber_residual hBeat]
  exact Bool.false_ne_true

end Overflow

end Aligner

end LeadSheet
