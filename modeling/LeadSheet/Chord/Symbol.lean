import LeadSheet.Chord.Spelling
import LeadSheet.Error

/-!
# Chord symbols

A label is a chord symbol when it is a root, a run of quality tokens and at most one slash bass, and
nothing else. This is the gate that tells chord labels from other text; the symbol it gives is in
canonical spelling.
-/

namespace LeadSheet.Chord
set_option autoImplicit false

def isQualityMark (c : Char) : Bool :=
  '0' ≤ c && c ≤ '9' ||
    ['m', 'M', '#', 'b', '+', '-', '°', 'ø', '(', ')', ','].contains c

def isQuality : List Char → Bool
  | 'm' :: 'a' :: 'j' :: cs | 'm' :: 'i' :: 'n' :: cs | 'd' :: 'i' :: 'm' :: cs
  | 'a' :: 'u' :: 'g' :: cs | 's' :: 'u' :: 's' :: cs | 'a' :: 'd' :: 'd' :: cs
  | 'a' :: 'l' :: 't' :: cs | 'n' :: 'o' :: cs => isQuality cs
  | c :: cs => isQualityMark c && isQuality cs
  | [] => true

/-- Chord shapes by the start of the quality, the most specific first. -/
def qualityShapes : List (String × List PitchClass) := [
  ("maj7", [0, 4, 7, 11]),
  ("maj", [0, 4, 7]),
  ("m7b5", [0, 3, 6, 10]),
  ("m7", [0, 3, 7, 10]),
  ("-7", [0, 3, 7, 10]),
  ("m", [0, 3, 7]),
  ("-", [0, 3, 7]),
  ("dim7", [0, 3, 6, 9]),
  ("dim", [0, 3, 6]),
  ("sus2", [0, 2, 7]),
  ("sus4", [0, 5, 7]),
  ("sus", [0, 5, 7]),
  ("7", [0, 4, 7, 10]),
  ("#5", [0, 4, 8]),
  ("5", [0, 7])]

/-- The shape of a quality; one that starts in no listed way is a major triad. -/
def shapeOf (quality : String) : List PitchClass :=
  match qualityShapes.find? fun entry => entry.1.toList.isPrefixOf quality.toList with
  | some (_, shape) => shape
  | none => [0, 4, 7]

end LeadSheet.Chord

namespace LeadSheet

structure ChordSymbol where
  root : NoteName
  quality : String
  bass : Option NoteName
  deriving Repr, DecidableEq

namespace ChordSymbol

def chars (s : ChordSymbol) : List Char :=
  s.root.chars ++ s.quality.toList ++
    match s.bass with
    | none => []
    | some bass => '/' :: bass.chars

def text (s : ChordSymbol) : String := String.ofList s.chars

/-- The pitch classes of the basic shape and of the bass. -/
def pitchClasses (s : ChordSymbol) : List PitchClass :=
  PitchClass.members
    ((Chord.shapeOf s.quality).map (s.root.pitchClass + ·) ++
      (s.bass.map NoteName.pitchClass).toList)

def scanBass? : List Char → Option (Option NoteName)
  | [] => some none
  | _ :: cs =>
    match NoteName.scan? cs with
    | some (bass, []) => some (some bass)
    | _ => none

/-- The symbol of a label without blanks. A small letter alone is a word. -/
def ofChars? (cs : List Char) : Option ChordSymbol := do
  let (root, rest) ← NoteName.scan? cs
  let quality := rest.takeWhile (· ≠ '/')
  let bass ← scanBass? (rest.dropWhile (· ≠ '/'))
  if !Chord.isQuality quality then none
  else if rest.isEmpty ∧ root.accidental = .natural ∧ cs.head? ≠ some root.letter.toChar then none
  else
    some {
      root := root.sharpened
      quality := String.ofList (Chord.spellTail quality)
      bass := bass.map NoteName.sharpened }

def ofLabel? (label : String) : Option ChordSymbol :=
  ofChars? ((Chord.clean label.toList).filter (· ≠ ' '))

def parse {α : Type} (label : String) : Except (Error α) ChordSymbol :=
  match ofLabel? label with
  | some symbol => .ok symbol
  | none => .error (.unparseableChordLabel label)

def isLabel (text : String) : Bool := (ofLabel? text).isSome

end ChordSymbol

end LeadSheet
