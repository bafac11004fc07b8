import LeadSheet.Form.Stamp
import LeadSheet.Proofs.Form.Shape
import LeadSheet.Proofs.Form.Signature

/-!
# Rows in the form

The sections that rows imply reach over all their bars. Rows without a section are stamped with the
name of their bar, and keep the right name when the form becomes longer.
-/

namespace LeadSheet.Form
set_option autoImplicit false

variable {α : Type}

/-- The form that rows imply covers the bars of their signatures and as many as were asked for. -/
theorem partition_sectionsOf [Scalar α] (rows : List (Row α)) (beatsPerBar : α) (minBars : Nat)
    (settings : SectionSettings) :
    Partition (sectionsOf rows beatsPerBar minBars settings)
        (max minBars (barSignatures rows beatsPerBar).length : Nat) ∧
      Shaped (labelsOf (sectionsOf rows beatsPerBar minBars settings)) := by
  rw [sectionsOf]
  generalize barSignatures rows beatsPerBar = signatures
  generalize hPadded : signatures ++ List.replicate (minBars - signatures.length) "" = padded
  have hLength : max minBars signatures.length = padded.length := by
    rw [← hPadded, List.length_append, List.length_replicate]
    omega
  constructor
  · rw [hLength, ← length_inferLabels padded settings]
    exact partition_ranges _
  · rw [labelsOf_ranges]
    exact shaped_inferLabels padded settings

theorem stampRow_eq (sections : List SectionRange) (row : Row α) :
    ∃ name, stampRow sections row = { row with sectionName := name } := by
  rw [stampRow]
  split
  · exact ⟨row.sectionName, rfl⟩
  · exact ⟨_, rfl⟩

section Names

variable {sections : List SectionRange} {bars : Int} {row : Row α}

/-- A row in a form of `bars` bars, with the section of its bar. -/
structure Stands (sections : List SectionRange) (bars : Int) (row : Row α) : Prop where
  inside : row.bar ≤ bars
  named : row.sectionName = nameAt? sections row.bar

theorem stands_stampRow (hBar : row.bar ≤ bars) (hName : row.sectionName = none) :
    Stands sections bars (stampRow sections row) := by
  rw [stampRow, hName]
  exact ⟨hBar, rfl⟩

theorem stands_stamp {rows : List (Row α)} (hBars : lastBar rows ≤ bars)
    (hNames : ∀ row ∈ rows, row.sectionName = none) :
    ∀ row ∈ stamp sections rows, Stands sections bars row := by
  intro stamped hStamped
  obtain ⟨row, hRow, rfl⟩ := List.mem_map.mp hStamped
  exact stands_stampRow (Int.le_trans (bar_le_lastBar hRow) hBars) (hNames row hRow)

/-- A longer form says the same of the bars that the shorter one has. -/
theorem Stands.extend {last : Nat} (hForm : Partition sections last)
    (h : Stands sections last row) (more : Int) :
    Stands (Form.extend sections more) (max last more) row := by
  obtain ⟨hLonger, hLabels⟩ := hForm.extend more
  refine ⟨Int.le_trans h.inside (Int.le_max_left _ _), ?_⟩
  rw [h.named, hForm.tiles.nameAt?_eq, hLonger.tiles.nameAt?_eq, hLabels]
  have hLength := hForm.tiles.length_labelsOf
  have hInside := h.inside
  split
  · rw [List.getElem?_append_left (by omega)]
  · rfl

theorem Stands.name_of_pos (hForm : Tiles 1 sections bars) (h : Stands sections bars row)
    (hPos : 1 ≤ row.bar) :
    ∃ r ∈ sections, r.holds row.bar = true ∧ row.sectionName = some r.name := by
  obtain ⟨r, hr, hHolds, hName⟩ := hForm.exists_nameAt? hPos h.inside
  exact ⟨r, hr, hHolds, h.named.trans hName⟩

theorem Stands.name_of_not_pos (hForm : Tiles 1 sections bars) (h : Stands sections bars row)
    (hBefore : row.bar < 1) : row.sectionName = none := by
  rw [h.named, hForm.nameAt?_eq_none (.inl hBefore)]

end Names

end LeadSheet.Form
