import LeadSheet.Form.Labels
import LeadSheet.Form.Range
import LeadSheet.Form.Signature

/-!
# Sections on rows

Each row takes the name of the range that holds its bar. A row that has a section keeps it, and a
row outside the ranges gets none.
-/

namespace LeadSheet.Form
set_option autoImplicit false

variable {α : Type}

def stampRow (sections : List SectionRange) (row : Row α) : Row α :=
  if row.sectionName.isSome then row
  else { row with sectionName := nameAt? sections row.bar }

def stamp (sections : List SectionRange) (rows : List (Row α)) : List (Row α) :=
  rows.map (stampRow sections)

def sectionsOf [Scalar α] (rows : List (Row α)) (beatsPerBar : α) (minBars : Nat)
    (settings : SectionSettings) : List SectionRange :=
  let signatures := barSignatures rows beatsPerBar
  ranges (inferLabels (signatures ++ List.replicate (minBars - signatures.length) "") settings)

def inferSections [Scalar α] (rows : List (Row α)) (beatsPerBar : α) (minBars : Nat)
    (settings : SectionSettings) : List (Row α) × List SectionRange :=
  let sections := sectionsOf rows beatsPerBar minBars settings
  (stamp sections rows, sections)

end LeadSheet.Form
