import LeadSheet.Chord.NoteName
import LeadSheet.Error

/-!
# Chord recognition

The chord that a set of pitches forms. A template of intervals fits at a root when all its notes
sound. Of all fitting pairs the best has the largest template, then the fewest colour tones beside
it, then the first suffix in text order, then the lowest root, so no two pairs tie.
-/

namespace LeadSheet.Chord
set_option autoImplicit false

structure Template where
  suffix : String
  intervals : List PitchClass
  deriving Repr, DecidableEq

def templates : List Template := [
  ⟨"maj7", [0, 4, 7, 11]⟩,
  ⟨"7", [0, 4, 7, 10]⟩,
  ⟨"m7", [0, 3, 7, 10]⟩,
  ⟨"m7b5", [0, 3, 6, 10]⟩,
  ⟨"dim7", [0, 3, 6, 9]⟩,
  ⟨"", [0, 4, 7]⟩,
  ⟨"m", [0, 3, 7]⟩,
  ⟨"dim", [0, 3, 6]⟩,
  ⟨"#5", [0, 4, 8]⟩,
  ⟨"sus2", [0, 2, 7]⟩,
  ⟨"sus4", [0, 5, 7]⟩,
  ⟨"5", [0, 7]⟩]

/-- The ninth, the eleventh and the thirteenth. -/
def colourTones : List PitchClass := [2, 5, 9]

structure Match where
  root : PitchClass
  suffix : String
  templateSize : Nat
  colourExtras : Nat
  deriving Repr, DecidableEq

namespace Match

def name (m : Match) : String := m.root.name ++ m.suffix

def betterThan (m n : Match) : Bool :=
  if m.templateSize ≠ n.templateSize then n.templateSize < m.templateSize
  else if m.colourExtras ≠ n.colourExtras then m.colourExtras < n.colourExtras
  else if m.suffix ≠ n.suffix then m.suffix < n.suffix
  else m.root < n.root

end Match

/-- The match of a template at a root, if all its notes sound. -/
def fit? (sounding : List PitchClass) (root : PitchClass) (t : Template) : Option Match :=
  let intervals := sounding.map (· - root)
  if t.intervals.all (intervals.contains ·) then
    some {
      root := root
      suffix := t.suffix
      templateSize := t.intervals.length
      colourExtras :=
        (intervals.filter fun i => !t.intervals.contains i && colourTones.contains i).length }
  else none

def fits (sounding : List PitchClass) : List Match :=
  (List.finRange 12).flatMap fun root => templates.filterMap (fit? sounding root)

/-- The first of the best matches. -/
def best : List Match → Option Match
  | [] => none
  | m :: ms => some (ms.foldl (fun b n => if n.betterThan b then n else b) m)

def recognise {α : Type} (pitches : List Nat) : Except (Error α) (Option Match) :=
  let sounding := PitchClass.members (pitches.map PitchClass.ofPitch)
  if sounding.length < 2 then .error (.insufficientPitchInfo sounding.length)
  else .ok (best (fits sounding))

def nameOf? (pitches : List Nat) : Option String :=
  match recognise (α := Unit) pitches with
  | .ok found => found.map Match.name
  | .error _ => none

end LeadSheet.Chord
