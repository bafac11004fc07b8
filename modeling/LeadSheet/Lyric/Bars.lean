import LeadSheet.Lyric.Align
import LeadSheet.Text.Blank

/-!
# Bars of words

The words of each bar are joined, in the order of their start, into one row on its downbeat. A bar
whose words are all blank has no such row.
-/

namespace LeadSheet.Aligner
set_option autoImplicit false

variable {α : Type} [Scalar α]

def barsOf (rows : List (Row α)) : List Int :=
  Order.keepLast (· == ·)
    (((rows.filter (·.kind = .lyric)).map (·.bar)).mergeSort fun b c => b ≤ c)

def wordsOf (rows : List (Row α)) (bar : Int) : List (Row α) :=
  (rows.filter fun r => r.kind = .lyric && r.bar = bar).mergeSort fun r s =>
    Scalar.atMost r.start s.start

def shownLyric? (row : Row α) : Option String :=
  (row.lyric.map Text.trimmed).filter (!·.isEmpty)

def mean (x : α) (xs : List α) : α := xs.foldl (· + ·) x / Scalar.ofNat (xs.length + 1)

def meanConfidence (a : Aligner α) (words : List (Row α)) : α :=
  match words.filterMap (·.lyricConf) with
  | [] => a.defaultConfidence
  | x :: xs => mean x xs

/-- The row that joins the words of a bar, given in order. -/
def barRow? (a : Aligner α) (joiner : String) (bar : Int) (words : List (Row α)) :
    Option (Row α) :=
  let text := String.intercalate joiner (words.filterMap shownLyric?)
  if text.isEmpty then none
  else
    let downbeat := GridPosition.downbeat bar a.numerator a.pickup
    let start := a.tempo.secondsAt downbeat
    let dur := Scalar.ofNat a.numerator * a.tempo.secondsPerBeatAt start
    let row := Row.blank .lyricBar bar 1 (Scalar.thousandths downbeat) (Scalar.thousandths start)
    some { row with
      chord := (words.filterMap (·.chord)).find? (!·.isEmpty)
      durBeats := some (Scalar.ofNat a.numerator)
      dur := some (Scalar.thousandths dur)
      lyric := some text
      lyricConf := some (Scalar.thousandths (a.meanConfidence words))
      wordStart := some (Scalar.thousandths start)
      wordEnd := some (Scalar.thousandths (start + dur))
      subIndex := some 0
      melisma := some false }

def groupByBar (a : Aligner α) (joiner : String) (rows : List (Row α)) : List (Row α) :=
  (barsOf rows).filterMap fun bar => a.barRow? joiner bar (wordsOf rows bar)

end LeadSheet.Aligner
