import LeadSheet.Lyric.Digits
import LeadSheet.Lyric.Lrc

/-!
# WebVTT lyrics

A cue line gives a start and an end, with or without hours and with a point or a comma before the
milliseconds. The lines after it, up to a blank one, are the text of one word.
-/

namespace LeadSheet.Lyric
set_option autoImplicit false

variable {α : Type} [Scalar α]

/-- The milliseconds of a stamp: a point or a comma and three digits. -/
def scanMillis? : List Char → Option (α × List Char)
  | '.' :: cs | ',' :: cs =>
    let digits := cs.take 3
    if digits.length = 3 ∧ digits.all Text.isDigit then some (fraction digits, cs.drop 3)
    else none
  | _ => none

/-- A colon and a field of two digits, and what follows them. -/
def scanPair? (cs : List Char) : Option (List Char × List Char) := do
  let rest ← scanChar? ':' cs
  scanField? 2 2 rest

def scanHours? (cs : List Char) : Option (α × List Char) := do
  let (hours, rest) ← scanField? 1 2 cs
  let (minutes, rest) ← scanPair? rest
  let (seconds, rest) ← scanPair? rest
  let (parts, rest) ← scanMillis? rest
  some (whole hours * 3600 + whole minutes * 60 + whole seconds + parts, rest)

def scanMinutes? (cs : List Char) : Option (α × List Char) := do
  let (minutes, rest) ← scanField? 2 2 cs
  let (seconds, rest) ← scanPair? rest
  let (parts, rest) ← scanMillis? rest
  some (0 * 3600 + whole minutes * 60 + whole seconds + parts, rest)

def scanStamp? (cs : List Char) : Option (α × List Char) :=
  (scanHours? cs).or (scanMinutes? cs)

def scanArrow? : List Char → Option (List Char)
  | '-' :: '-' :: '>' :: cs => some cs
  | _ => none

def scanCue? (line : List Char) : Option (α × α) := do
  let (start, rest) ← scanStamp? line
  let rest ← scanArrow? (Text.trimStart rest)
  let (stop, _) ← scanStamp? (Text.trimStart rest)
  some (start, stop)

def isBlankLine (line : List Char) : Bool := (Text.trim line).isEmpty

def readCues : List (List Char) → List (Word α)
  | [] => []
  | line :: more =>
    match scanCue? (Text.trim line) with
    | none => readCues more
    | some (start, stop) =>
      let payload := (more.takeWhile (!isBlankLine ·)).map Text.trim
      let after := (more.dropWhile (!isBlankLine ·)).drop 1
      let words := readCues after
      if payload.isEmpty then words
      else ⟨String.ofList ([' '].intercalate payload), start, some stop, none⟩ :: words
termination_by lines => lines.length
decreasing_by
  · simp
  · have := (List.dropWhile_sublist (l := more) (!isBlankLine ·)).length_le
    simp
    omega

def readVtt (text : String) : List (Word α) := readCues (Text.lines text.toList)

def hasArrow : List Char → Bool
  | [] => false
  | c :: cs => (scanArrow? (c :: cs)).isSome || hasArrow cs

/-- The words of a text in either format: a `WEBVTT` heading or any arrow means WebVTT. -/
def read (text : String) : List (Word α) :=
  if "WEBVTT".toList.isPrefixOf (Text.trimStart text.toList) || hasArrow text.toList then
    readVtt text
  else readLrc text

end LeadSheet.Lyric
