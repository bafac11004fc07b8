import LeadSheet.Proofs.Form.Tiling

/-!
# Two views of a form

Labels of bars and ranges of bars say the same. The ranges of labels partition the bars, and ranges
are those of their own labels exactly when they partition the bars: a range is as long as its name
lasts, so no range can be cut in two and no two can be one.
-/

namespace LeadSheet.Form
set_option autoImplicit false

variable {name : SectionName} {sections : List SectionRange}

theorem addBar_of_ne (bar : Int) (h : ∀ r ∈ sections.head?, name ≠ r.name) :
    addBar name bar sections = ⟨name, bar, bar⟩ :: sections := by
  cases sections with
  | nil => rfl
  | cons r rs => exact if_neg (Ne.symm (h r rfl))

theorem addBar_of_eq (bar next last : Int) (rs : List SectionRange) :
    addBar name bar (⟨name, next, last⟩ :: rs) = ⟨name, bar, last⟩ :: rs := if_pos rfl

theorem rangesFrom_replicate_append (bar n : Nat) {labels : List SectionName}
    (h : ∀ r ∈ (rangesFrom (bar + n + 1) labels).head?, name ≠ r.name) :
    rangesFrom bar (List.replicate (n + 1) name ++ labels) =
      ⟨name, bar, (bar + n : Nat)⟩ :: rangesFrom (bar + n + 1) labels := by
  induction n generalizing bar with
  | zero => exact addBar_of_ne bar h
  | succ n ih =>
    have hNext : bar + (n + 1) = bar + 1 + n := by omega
    rw [hNext] at h ⊢
    rw [List.replicate_succ, List.cons_append, rangesFrom_cons, ih (bar + 1) h, addBar_of_eq]

/-- By induction on the ranges: the labels of the first of them make one range, since the next one
has another name. -/
theorem rangesFrom_labelsOf {bar : Nat} {last : Int} (hTiles : Tiles bar sections last)
    (hDistinct : sections.IsChain fun r s => r.name ≠ s.name) :
    rangesFrom bar (labelsOf sections) = sections := by
  induction sections generalizing bar with
  | nil => rfl
  | cons r rs ih =>
    obtain ⟨hStart, hle, hRest⟩ := hTiles
    obtain ⟨hHead, hDistinct⟩ := List.isChain_cons.mp hDistinct
    obtain ⟨n, hn⟩ := Int.le.dest hle
    have hEnd : ((bar + n : Nat) : Int) = r.barEnd := by omega
    have hNext : r.barEnd + 1 = (bar + n + 1 : Nat) := by omega
    have hLength : (r.barEnd - r.barStart + 1).toNat = n + 1 := by omega
    rw [hNext] at hRest
    have hRanges := ih hRest hDistinct
    rw [labelsOf_cons, SectionRange.labels, hLength, rangesFrom_replicate_append, hRanges, hEnd,
      ← hStart]
    rwa [hRanges]

theorem Partition.ranges_labelsOf {bars : Int} (h : Partition sections bars) :
    ranges (labelsOf sections) = sections := rangesFrom_labelsOf h.tiles h.distinct

theorem partition_iff {bars : Int} : Partition sections bars ↔
    ranges (labelsOf sections) = sections ∧ bars = (labelsOf sections).length := by
  constructor
  · intro h
    have hLength := h.tiles.length_labelsOf
    exact ⟨h.ranges_labelsOf, by omega⟩
  · rintro ⟨hRanges, rfl⟩
    have h := partition_ranges (labelsOf sections)
    rwa [hRanges] at h

/-- Ranges and labels are inverse to each other. -/
theorem ranges_inverse_labelsOf :
    (∀ labels, Partition (ranges labels) labels.length ∧ labelsOf (ranges labels) = labels) ∧
      ∀ (sections : List SectionRange) (bars : Int), Partition sections bars ↔
        ranges (labelsOf sections) = sections ∧ bars = (labelsOf sections).length :=
  ⟨fun labels => ⟨partition_ranges labels, labelsOf_ranges labels⟩, fun _ _ => partition_iff⟩

end LeadSheet.Form
