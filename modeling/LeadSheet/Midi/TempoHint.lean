import LeadSheet.Scalar
import LeadSheet.Text.Blank
import LeadSheet.Text.Digit

/-!
# Tempo hints

A tempo written into a file name, as in `take_128_BPM`: a decimal number, blanks, underscores and
dashes, and the letters of either case. The first such place counts, and only if its number is a
tempo.
-/

namespace LeadSheet
set_option autoImplicit false

variable {α : Type} [Scalar α]

namespace TempoHint

def isGap (c : Char) : Bool := Text.isBlank c || c == '_' || c == '-'

def startsBpm : List Char → Bool
  | b :: p :: m :: _ => [b, p, m].map Char.toLower == ['b', 'p', 'm']
  | _ => false

/-- The digits after a point, and what follows them. Without digits the point is no part of the
number. -/
def scanFraction : List Char → List Char × List Char
  | '.' :: cs =>
    let digits := cs.takeWhile Text.isDigit
    if digits.isEmpty then ([], '.' :: cs) else (digits, cs.dropWhile Text.isDigit)
  | cs => ([], cs)

def scan? (cs : List Char) : Option (List Char × List Char) :=
  let digits := cs.takeWhile Text.isDigit
  let fraction := scanFraction (cs.dropWhile Text.isDigit)
  if !digits.isEmpty && startsBpm (fraction.2.dropWhile isGap) then some (digits, fraction.1)
  else none

def find? : List Char → Option (List Char × List Char)
  | [] => none
  | c :: cs => (scan? (c :: cs)).or (find? cs)

/-- The tempo that a name hints at, from 20 to 300. -/
def ofName (name : String) : Option α := do
  let (digits, fraction) ← find? name.toList
  let n ← Text.natOfDigits? (digits ++ fraction)
  let bpm : α := OfScientific.ofScientific n true fraction.length
  if 20 ≤ bpm ∧ bpm ≤ 300 then some bpm else none

end TempoHint

end LeadSheet
