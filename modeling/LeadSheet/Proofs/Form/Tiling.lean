import Mathlib.Data.List.Chain
import LeadSheet.Form.Range

/-!
# Ranges that tile the bars of a song

The ranges of labels follow each other from bar 1 to the last bar, and neighbours differ in name. So
do the ranges that are lengthened by more bars, and both say of each bar what its label says.
-/

namespace LeadSheet.Form
set_option autoImplicit false

/-- Ranges from bar `first` to bar `last`, none empty, each from where the one before it ends. -/
def Tiles : Int → List SectionRange → Int → Prop
  | first, [], last => first = last + 1
  | first, r :: rs, last => r.barStart = first ∧ r.barStart ≤ r.barEnd ∧ Tiles (r.barEnd + 1) rs last

/-- The bars from 1 to `bars`, cut into ranges as long as they can be. -/
structure Partition (sections : List SectionRange) (bars : Int) : Prop where
  tiles : Tiles 1 sections bars
  distinct : sections.IsChain fun r s => r.name ≠ s.name

theorem Tiles.start_le_end {first last : Int} {sections : List SectionRange}
    (h : Tiles first sections last) : ∀ r ∈ sections, r.barStart ≤ r.barEnd := by
  induction sections generalizing first with
  | nil => exact fun r hr => (List.not_mem_nil hr).elim
  | cons r rs ih =>
    obtain ⟨_, hle, hRest⟩ := h
    exact List.forall_mem_cons.mpr ⟨hle, ih hRest⟩

theorem labelsOf_cons (r : SectionRange) (rs : List SectionRange) :
    labelsOf (r :: rs) = r.labels ++ labelsOf rs := List.flatMap_cons

theorem Tiles.length_labelsOf {first last : Int} {sections : List SectionRange}
    (h : Tiles first sections last) : ((labelsOf sections).length : Int) = last + 1 - first := by
  induction sections generalizing first with
  | nil =>
    have hEnd : first = last + 1 := h
    simp [labelsOf, hEnd]
  | cons r rs ih =>
    obtain ⟨hStart, hle, hRest⟩ := h
    have hRest := ih hRest
    rw [labelsOf_cons, List.length_append, SectionRange.labels, List.length_replicate]
    omega

theorem holds_iff (r : SectionRange) (bar : Int) :
    r.holds bar = true ↔ r.barStart ≤ bar ∧ bar ≤ r.barEnd := by
  rw [SectionRange.holds, Bool.and_eq_true, decide_eq_true_eq, decide_eq_true_eq]

theorem nameAt?_cons (r : SectionRange) (rs : List SectionRange) (bar : Int) :
    nameAt? (r :: rs) bar = if r.holds bar then some r.name else nameAt? rs bar := by
  rw [nameAt?, List.find?_cons]
  cases r.holds bar <;> rfl

theorem Tiles.nameAt?_eq {first last : Int} {sections : List SectionRange}
    (h : Tiles first sections last) (bar : Int) :
    nameAt? sections bar =
      if first ≤ bar then (labelsOf sections)[(bar - first).toNat]? else none := by
  induction sections generalizing first with
  | nil => simp [nameAt?, labelsOf]
  | cons r rs ih =>
    obtain ⟨rfl, hle, hRest⟩ := h
    have hRest := ih hRest
    rw [labelsOf_cons, SectionRange.labels]
    rw [nameAt?_cons, hRest]
    by_cases hHolds : r.holds bar = true
    · have hBounds := (holds_iff r bar).mp hHolds
      rw [if_pos hHolds, if_pos hBounds.1,
        List.getElem?_append_left (by rw [List.length_replicate]; omega), List.getElem?_replicate,
        if_pos (by omega)]
    · have hBounds := mt (holds_iff r bar).mpr hHolds
      rw [if_neg hHolds]
      by_cases hBefore : r.barStart ≤ bar
      · have hPlace : (bar - (r.barEnd + 1)).toNat =
            (bar - r.barStart).toNat - (r.barEnd - r.barStart + 1).toNat := by omega
        rw [if_pos hBefore, if_pos (by omega),
          List.getElem?_append_right (by rw [List.length_replicate]; omega), List.length_replicate,
          hPlace]
      · rw [if_neg hBefore, if_neg (by omega)]

theorem Tiles.exists_nameAt? {first last bar : Int} {sections : List SectionRange}
    (h : Tiles first sections last) (hFirst : first ≤ bar) (hLast : bar ≤ last) :
    ∃ r ∈ sections, r.holds bar = true ∧ nameAt? sections bar = some r.name := by
  have hName := h.nameAt?_eq bar
  have hLength := h.length_labelsOf
  rw [if_pos hFirst, List.getElem?_eq_getElem (by omega)] at hName
  obtain ⟨r, hFound, _⟩ := Option.map_eq_some_iff.mp hName
  have hHolds : r.holds bar = true :=
    List.find?_some (p := fun r : SectionRange => r.holds bar) hFound
  exact ⟨r, List.mem_of_find?_eq_some hFound, hHolds, by rw [nameAt?, hFound]; rfl⟩

theorem Tiles.nameAt?_eq_none {first last bar : Int} {sections : List SectionRange}
    (h : Tiles first sections last) (hOut : bar < first ∨ last < bar) :
    nameAt? sections bar = none := by
  have hLength := h.length_labelsOf
  rw [h.nameAt?_eq]
  split
  · exact List.getElem?_eq_none (by omega)
  · rfl

theorem name_mem_labels {r : SectionRange} (h : r.barStart ≤ r.barEnd) : r.name ∈ r.labels := by
  rw [SectionRange.labels, List.mem_replicate]
  exact ⟨by omega, rfl⟩

/-- What holds of labels in their order holds of the names of the ranges in theirs. -/
theorem pairwise_name {R : SectionName → SectionName → Prop} {sections : List SectionRange}
    (hRanges : ∀ r ∈ sections, r.barStart ≤ r.barEnd) (h : (labelsOf sections).Pairwise R) :
    sections.Pairwise fun r s => R r.name s.name :=
  (List.pairwise_flatMap.mp h).2.imp_of_mem fun hr hs hrs =>
    hrs _ (name_mem_labels (hRanges _ hr)) _ (name_mem_labels (hRanges _ hs))

theorem mem_labelsOf_iff {sections : List SectionRange}
    (hRanges : ∀ r ∈ sections, r.barStart ≤ r.barEnd) (name : SectionName) :
    name ∈ labelsOf sections ↔ ∃ r ∈ sections, r.name = name := by
  rw [labelsOf, List.mem_flatMap]
  constructor
  · rintro ⟨r, hr, hName⟩
    exact ⟨r, hr, (List.mem_replicate.mp hName).2.symm⟩
  · rintro ⟨r, hr, rfl⟩
    exact ⟨r, hr, name_mem_labels (hRanges r hr)⟩

section Ranges

def rangesFrom (bar : Nat) (labels : List SectionName) : List SectionRange :=
  (labels.zipIdx bar).foldr (fun (name, bar) found => addBar name bar found) []

theorem rangesFrom_cons (bar : Nat) (name : SectionName) (labels : List SectionName) :
    rangesFrom bar (name :: labels) = addBar name bar (rangesFrom (bar + 1) labels) := rfl

variable {name : SectionName} {bar last : Int} {sections : List SectionRange}

theorem Tiles.addBar (h : Tiles (bar + 1) sections last) :
    Tiles bar (Form.addBar name bar sections) last := by
  cases sections with
  | nil => exact ⟨rfl, Int.le_refl bar, h⟩
  | cons r rs =>
    obtain ⟨hStart, hle, hRest⟩ := h
    rw [Form.addBar]
    split
    · exact ⟨rfl, by simp only; omega, hRest⟩
    · exact ⟨rfl, Int.le_refl bar, hStart, hle, hRest⟩

theorem isChain_addBar (h : sections.IsChain fun r s => r.name ≠ s.name) :
    (Form.addBar name bar sections).IsChain fun r s => r.name ≠ s.name := by
  cases sections with
  | nil => exact .singleton _
  | cons r rs =>
    rw [Form.addBar]
    split
    · exact List.isChain_cons.mpr (List.isChain_cons.mp h)
    · rename_i hNe
      exact .cons_cons (Ne.symm hNe) h

theorem labelsOf_addBar (h : Tiles (bar + 1) sections last) :
    labelsOf (Form.addBar name bar sections) = name :: labelsOf sections := by
  cases sections with
  | nil => simp [Form.addBar, labelsOf, SectionRange.labels]
  | cons r rs =>
    obtain ⟨hStart, hle, _⟩ := h
    rw [Form.addBar]
    split
    · rename_i hName
      have hLength : (r.barEnd - bar + 1).toNat = (r.barEnd - r.barStart + 1).toNat + 1 := by omega
      rw [labelsOf_cons, labelsOf_cons, SectionRange.labels, SectionRange.labels]
      simp only [hLength, List.replicate_succ, hName, List.cons_append]
    · rw [labelsOf_cons, SectionRange.labels]
      simp

theorem tiles_rangesFrom (bar : Nat) (labels : List SectionName) :
    Tiles bar (rangesFrom bar labels) (bar + labels.length - 1) := by
  induction labels generalizing bar with
  | nil =>
    change (bar : Int) = bar + (0 : Nat) - 1 + 1
    omega
  | cons name labels ih =>
    rw [rangesFrom_cons]
    have hRest := ih (bar + 1)
    have hLast : ((bar + 1 : Nat) : Int) + labels.length - 1 = bar + (name :: labels).length - 1 := by
      rw [List.length_cons]
      omega
    rw [hLast] at hRest
    exact hRest.addBar

theorem isChain_rangesFrom (bar : Nat) (labels : List SectionName) :
    (rangesFrom bar labels).IsChain fun r s => r.name ≠ s.name := by
  induction labels generalizing bar with
  | nil => exact .nil
  | cons name labels ih => exact isChain_addBar (ih (bar + 1))

theorem labelsOf_rangesFrom (bar : Nat) (labels : List SectionName) :
    labelsOf (rangesFrom bar labels) = labels := by
  induction labels generalizing bar with
  | nil => rfl
  | cons name labels ih =>
    rw [rangesFrom_cons, labelsOf_addBar (tiles_rangesFrom (bar + 1) labels), ih]

theorem partition_ranges (labels : List SectionName) :
    Partition (ranges labels) labels.length where
  tiles := by
    have h := tiles_rangesFrom 1 labels
    rwa [show ((1 : Nat) : Int) + labels.length - 1 = labels.length by omega] at h
  distinct := isChain_rangesFrom 1 labels

theorem labelsOf_ranges (labels : List SectionName) : labelsOf (ranges labels) = labels :=
  labelsOf_rangesFrom 1 labels

end Ranges

section Extension

variable {name : SectionName} {first last bars : Int} {sections : List SectionRange}

theorem tiles_append {front back : List SectionRange} :
    Tiles first (front ++ back) last ↔ ∃ mid, Tiles first front mid ∧ Tiles (mid + 1) back last := by
  induction front generalizing first with
  | nil =>
    constructor
    · intro h
      exact ⟨first - 1, by rw [Tiles]; omega, by rwa [Int.sub_add_cancel]⟩
    · rintro ⟨mid, rfl, h⟩
      exact h
  | cons r rs ih =>
    constructor
    · rintro ⟨hStart, hle, hRest⟩
      obtain ⟨mid, hFront, hBack⟩ := ih.mp hRest
      exact ⟨mid, ⟨hStart, hle, hFront⟩, hBack⟩
    · rintro ⟨mid, ⟨hStart, hle, hFront⟩, hBack⟩
      exact ⟨hStart, hle, ih.mpr ⟨mid, hFront, hBack⟩⟩

theorem tiles_singleton {r : SectionRange} :
    Tiles first [r] last ↔ r.barStart = first ∧ r.barStart ≤ r.barEnd ∧ r.barEnd = last := by
  rw [Tiles, Tiles, Int.add_left_inj]

theorem Tiles.barCount_eq (h : Tiles 1 sections last) : barCount sections = last := by
  rcases List.eq_nil_or_concat' sections with rfl | ⟨front, r, rfl⟩
  · have hEnd : (1 : Int) = last + 1 := h
    rw [barCount, List.getLast?_nil, Option.map_none, Option.getD_none]
    omega
  · obtain ⟨_, _, hLast⟩ := tiles_append.mp h
    rw [barCount, List.getLast?_concat]
    exact (tiles_singleton.mp hLast).2.2

theorem addBars_concat (front : List SectionRange) (r : SectionRange) :
    addBars name bars (front ++ [r]) =
      front ++ (if r.name = name then [{ r with barEnd := bars }]
        else [r, ⟨name, r.barEnd + 1, bars⟩]) := by
  induction front with
  | nil => rfl
  | cons q front ih =>
    cases front with
    | nil =>
      change q :: addBars name bars ([] ++ [r]) = _
      rw [ih]
      rfl
    | cons p front =>
      change q :: addBars name bars (p :: front ++ [r]) = _
      rw [ih]
      rfl

theorem Partition.addBars (h : Partition sections last) (hlt : last < bars) (hPos : 0 < bars) :
    Partition (Form.addBars name bars sections) bars := by
  obtain ⟨hTiles, hDistinct⟩ := h
  rcases List.eq_nil_or_concat' sections with rfl | ⟨front, r, rfl⟩
  · exact ⟨tiles_singleton.mpr ⟨rfl, hPos, rfl⟩, .singleton _⟩
  · obtain ⟨mid, hFront, hLast⟩ := tiles_append.mp hTiles
    obtain ⟨hStart, hle, hEnd⟩ := tiles_singleton.mp hLast
    obtain ⟨hChain, _, hLink⟩ := List.isChain_append.mp hDistinct
    rw [addBars_concat]
    split
    · refine ⟨tiles_append.mpr ⟨mid, hFront, tiles_singleton.mpr ⟨hStart, ?_, rfl⟩⟩, ?_⟩
      · simp only
        omega
      · exact List.isChain_append.mpr ⟨hChain, .singleton _, fun q hq p hp => by
          cases hp
          exact hLink q hq r rfl⟩
    · rename_i hNe
      refine ⟨tiles_append.mpr ⟨mid, hFront, hStart, hle, rfl, ?_, rfl⟩, ?_⟩
      · simp only
        omega
      · exact List.isChain_append.mpr ⟨hChain, .cons_cons hNe (.singleton _), fun q hq p hp => by
          cases hp
          exact hLink q hq r rfl⟩

theorem Tiles.labelsOf_addBars (h : Tiles 1 sections last) (hlt : last < bars) :
    labelsOf (Form.addBars name bars sections) =
      labelsOf sections ++ List.replicate (bars - last).toNat name := by
  rcases List.eq_nil_or_concat' sections with rfl | ⟨front, r, rfl⟩
  · have hEnd : (1 : Int) = last + 1 := h
    have hLength : bars - 1 + 1 = bars - last := by omega
    rw [Form.addBars, labelsOf_cons, SectionRange.labels, hLength]
    exact List.append_nil _
  · obtain ⟨mid, _, hLast⟩ := tiles_append.mp h
    obtain ⟨_, hle, rfl⟩ := tiles_singleton.mp hLast
    rw [addBars_concat, labelsOf, labelsOf, List.flatMap_append, List.flatMap_append,
      List.append_assoc]
    congr 1
    have hNew : bars - (r.barEnd + 1) + 1 = bars - r.barEnd := by omega
    split
    · rename_i hName
      have hLength : (bars - r.barStart + 1).toNat =
          (r.barEnd - r.barStart + 1).toNat + (bars - r.barEnd).toNat := by omega
      simp only [List.flatMap_singleton, SectionRange.labels, hLength, hName,
        List.replicate_append_replicate]
    · simp only [List.flatMap_cons, List.flatMap_nil, SectionRange.labels, hNew, List.append_nil]

/-- More bars carry the name of bars after the last range, and the others keep their names. -/
theorem Partition.extend {last : Nat} (h : Partition sections last) (bars : Int) :
    Partition (Form.extend sections bars) (max last bars) ∧
      labelsOf (Form.extend sections bars) =
        labelsOf sections ++ List.replicate (bars - last).toNat (nameAfter sections) := by
  rw [Form.extend, h.tiles.barCount_eq]
  split
  · have hNone : (bars - last).toNat = 0 := by omega
    rw [Int.max_eq_left (by omega), hNone, List.replicate_zero, List.append_nil]
    exact ⟨h, rfl⟩
  · rw [Int.max_eq_right (by omega)]
    exact ⟨h.addBars (by omega) (by omega), h.tiles.labelsOf_addBars (by omega)⟩

end Extension

end LeadSheet.Form
