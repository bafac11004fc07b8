import LeadSheet.Form.Repeat
import LeadSheet.Row
import LeadSheet.Settings

/-!
# Section labels

The most frequent block of bars is the chorus and the next one the verse; a bar in both is in the
chorus. What comes before the first of them is the intro, what comes after the last the outro, and
every other bar a verse.
-/

namespace LeadSheet.Form
set_option autoImplicit false

/-- The chorus and the verse among blocks in the order of their frequency. -/
def chorusAndVerse (tieBreak : TieBreak) : List Block → Option Block × Option Block
  | [] => (none, none)
  | [only] => (some only, none)
  | top :: second :: _ =>
    let topIsChorus :=
      if top.count = second.count then
        match tieBreak with
        | .laterFirst => decide (second.first < top.first)
        | .earlierFirst => decide (top.first < second.first)
      else decide (second.count < top.count)
    if topIsChorus then (some top, some second) else (some second, some top)

/-- For each bar, whether an occurrence of a window covers it. The last occurrence before reaches
into the first `reach` bars. -/
def coverFrom (window : List String) (reach : Nat) : List String → List Bool
  | [] => []
  | s :: signatures =>
    let reach := if window.isPrefixOf (s :: signatures) then window.length else reach
    (0 < reach) :: coverFrom window (reach - 1) signatures

def cover (block : Option Block) (signatures : List String) : List Bool :=
  match block with
  | some b => coverFrom b.window 0 signatures
  | none => signatures.map fun _ => false

def coveredLabel (inChorus inVerse : Bool) : Option SectionName :=
  if inChorus then some .chorus else if inVerse then some .verse else none

def lastLabelled (labels : List (Option SectionName)) : Option Nat :=
  (labels.reverse.findIdx? Option.isSome).map (labels.length - 1 - ·)

/-- Labels with an intro before the first of them and an outro after the last. -/
def frame (introMaxBars : Option Nat) (labels : List (Option SectionName)) :
    List (Option SectionName) :=
  match labels.findIdx? Option.isSome, lastLabelled labels with
  | some first, some last =>
    let introBars :=
      match introMaxBars with
      | some cap => min first cap
      | none => first
    labels.mapIdx fun i label =>
      if i < introBars then some .intro else if last < i then some .outro else label
  | _, _ => labels

def inferLabels (signatures : List String) (settings : SectionSettings) : List SectionName :=
  let blocks := repeatedBlocks signatures settings.windowBars settings.chorusMinOccurs
  let (chorus, verse) := chorusAndVerse settings.tieBreak blocks
  let labels := List.zipWith coveredLabel (cover chorus signatures) (cover verse signatures)
  (frame settings.introMaxBars labels).map (·.getD .verse)

end LeadSheet.Form
