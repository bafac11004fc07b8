import LeadSheet.Row

/-!
# Section ranges

A song's form has two views: one label for each bar, and ranges of bars with one name. Ranges count
bars from 1, include both ends, follow each other without a gap, and neighbours differ in name. A
form is kept as its ranges, which stay few however many bars it has.
-/

namespace LeadSheet
set_option autoImplicit false

structure SectionRange where
  name : SectionName
  barStart : Int
  barEnd : Int
  deriving Repr, DecidableEq

namespace SectionRange

def holds (r : SectionRange) (bar : Int) : Bool := r.barStart ≤ bar && bar ≤ r.barEnd

def labels (r : SectionRange) : List SectionName :=
  List.replicate (r.barEnd - r.barStart + 1).toNat r.name

end SectionRange

namespace Form

def addBar (name : SectionName) (bar : Int) : List SectionRange → List SectionRange
  | [] => [⟨name, bar, bar⟩]
  | r :: rs =>
    if r.name = name then { r with barStart := bar } :: rs else ⟨name, bar, bar⟩ :: r :: rs

def ranges (labels : List SectionName) : List SectionRange :=
  (labels.zipIdx 1).foldr (fun (name, bar) found => addBar name bar found) []

/-- The labels of the bars of ranges that follow each other. -/
def labelsOf (sections : List SectionRange) : List SectionName :=
  sections.flatMap SectionRange.labels

def nameAt? (sections : List SectionRange) (bar : Int) : Option SectionName :=
  (sections.find? (·.holds bar)).map (·.name)

def addBars (name : SectionName) (last : Int) : List SectionRange → List SectionRange
  | [] => [⟨name, 1, last⟩]
  | [r] =>
    if r.name = name then [{ r with barEnd := last }]
    else [r, ⟨name, r.barEnd + 1, last⟩]
  | r :: rs => r :: addBars name last rs

def barCount (sections : List SectionRange) : Int :=
  (sections.getLast?.map (·.barEnd)).getD 0

/-- The name of bars after the last range: an outro if the song has a chorus. -/
def nameAfter (sections : List SectionRange) : SectionName :=
  if sections.any (·.name = .chorus) then .outro else .verse

def extend (sections : List SectionRange) (bars : Int) : List SectionRange :=
  if bars ≤ barCount sections then sections
  else addBars (nameAfter sections) bars sections

end Form

end LeadSheet
