import LeadSheet.Proofs.Form.Stamp

/-!
# Inferring sections again

Sections are inferred from what rows sound, and a stamped row sounds as it did before. So rows that
are stamped imply the sections that they were stamped with. A row is stamped once at most: with the
name of the range of its bar, if it has a bar of the form and no section before.
-/

namespace LeadSheet.Form
set_option autoImplicit false

variable {α : Type} {sections : List SectionRange}

/-- A row before and after it is stamped in a form of `bars` bars. -/
inductive Stamped (sections : List SectionRange) (bars : Nat) : Row α → Row α → Prop
  | named {row : Row α} {r : SectionRange} (unnamed : row.sectionName = none)
      (inside : 1 ≤ row.bar ∧ row.bar ≤ bars) (mem : r ∈ sections)
      (holds : r.barStart ≤ row.bar ∧ row.bar ≤ r.barEnd) :
      Stamped sections bars row { row with sectionName := some r.name }
  | kept {row : Row α}
      (untouched : row.sectionName ≠ none ∨ row.bar < 1 ∨ bars < row.bar) :
      Stamped sections bars row row

section Rows

theorem stampRow_of_named {row : Row α} (h : row.sectionName ≠ none) :
    stampRow sections row = row := if_pos (Option.isSome_iff_ne_none.mpr h)

theorem stampRow_of_unnamed {row : Row α} (h : row.sectionName = none) :
    stampRow sections row = { row with sectionName := nameAt? sections row.bar } := by
  rw [stampRow, h]
  rfl

theorem stamped_stampRow {bars : Nat} (hForm : Tiles 1 sections bars) (row : Row α) :
    Stamped sections bars row (stampRow sections row) := by
  by_cases hName : row.sectionName = none
  · by_cases hInside : 1 ≤ row.bar ∧ row.bar ≤ bars
    · obtain ⟨r, hr, hHolds, hAt⟩ := hForm.exists_nameAt? hInside.1 hInside.2
      rw [stampRow_of_unnamed hName, hAt]
      exact .named hName hInside hr ((holds_iff r row.bar).mp hHolds)
    · have hOut : row.bar < 1 ∨ bars < row.bar := by omega
      rw [stampRow_of_unnamed hName, hForm.nameAt?_eq_none hOut, ← hName]
      exact .kept (.inr hOut)
  · rw [stampRow_of_named hName]
    exact .kept (.inl hName)

theorem stampRow_stampRow (sections : List SectionRange) (row : Row α) :
    stampRow sections (stampRow sections row) = stampRow sections row := by
  by_cases hName : row.sectionName = none
  · rw [stampRow_of_unnamed hName, stampRow]
    split <;> rfl
  · rw [stampRow_of_named hName, stampRow_of_named hName]

theorem stamp_stamp (sections : List SectionRange) (rows : List (Row α)) :
    stamp sections (stamp sections rows) = stamp sections rows := by
  rw [stamp, stamp, List.map_map]
  exact List.map_congr_left fun row _ => stampRow_stampRow sections row

end Rows

section Signatures

theorem lastBar_stamp (sections : List SectionRange) (rows : List (Row α)) :
    lastBar (stamp sections rows) = lastBar rows := by
  rw [lastBar, lastBar, stamp, List.foldl_map]
  congr
  funext n row
  obtain ⟨name, hName⟩ := stampRow_eq sections row
  rw [hName]

variable [Scalar α]

theorem holdRow_stampRow (sections : List SectionRange) (perBar : α) (table : List (List String))
    (row : Row α) : holdRow perBar table (stampRow sections row) = holdRow perBar table row := by
  obtain ⟨name, hName⟩ := stampRow_eq sections row
  rw [hName]
  rfl

/-- No section feeds back into the signatures. -/
theorem barSignatures_stamp (sections : List SectionRange) (rows : List (Row α)) (beatsPerBar : α) :
    barSignatures (stamp sections rows) beatsPerBar = barSignatures rows beatsPerBar := by
  rw [barSignatures, barSignatures, chordTable_eq_foldl, chordTable_eq_foldl, lastBar_stamp, stamp,
    List.foldl_map]
  simp only [holdRow_stampRow]

theorem sectionsOf_stamp (sections : List SectionRange) (rows : List (Row α)) (beatsPerBar : α)
    (minBars : Nat) (settings : SectionSettings) :
    sectionsOf (stamp sections rows) beatsPerBar minBars settings =
      sectionsOf rows beatsPerBar minBars settings := by
  rw [sectionsOf, sectionsOf, barSignatures_stamp]

end Signatures

/-- Rows that have the sections that they imply imply the same sections and take no others. These
cover the bars of the signatures and as many as were asked for, and only a row without a section
whose bar is one of them gets one. -/
theorem inferSections_inferSections [Scalar α] (rows : List (Row α)) (beatsPerBar : α)
    (minBars : Nat) (settings : SectionSettings) :
    let inferred := inferSections rows beatsPerBar minBars settings
    let bars := max minBars (barSignatures rows beatsPerBar).length
    inferSections inferred.1 beatsPerBar minBars settings = inferred ∧
      List.Forall₂ (Stamped inferred.2 bars) rows inferred.1 ∧ Partition inferred.2 bars := by
  intro inferred bars
  have hForm := (partition_sectionsOf rows beatsPerBar minBars settings).1
  refine ⟨?_, ?_, hForm⟩
  · change (stamp (sectionsOf (stamp _ rows) beatsPerBar minBars settings) (stamp _ rows),
      sectionsOf (stamp _ rows) beatsPerBar minBars settings) = _
    rw [sectionsOf_stamp, stamp_stamp]
    rfl
  · refine List.forall₂_map_right_iff.mpr (List.forall₂_same.mpr fun row _ => ?_)
    exact stamped_stampRow hForm.tiles row

end LeadSheet.Form
