import LeadSheet.Form.Range
import LeadSheet.Text.Blank

/-!
# Chord charts

A chart for the music stand: under a heading for each run of bars of one section, the words of each
bar and, in a line above them, the chords that start in the bar. A chord stands over the part of the
words at which it starts.
-/

namespace LeadSheet.Export
set_option autoImplicit false

variable {α : Type} [Scalar α]

def inTime (kind : RowKind) (rows : List (Row α)) : List (Row α) :=
  (rows.filter (·.kind = kind)).mergeSort fun r s => Scalar.atMost r.time s.time

/-- The width of a bar whose words are `lyric`; a bar without words has room for its beats. -/
def barWidth (lyric : List Char) (bar : Row α) : Nat :=
  if lyric.isEmpty then max (Scalar.toNat (bar.durBeats.getD 4 * 4)) 16 else lyric.length

/-- A line with a text written over it from a column on. What has no room is left out. -/
def writeOver (line : List Char) (column : Nat) (text : List Char) : List Char :=
  line.take column ++
    (text.take (line.length - column) ++ line.drop (column + text.length))

def chordColumn (width : Nat) (start dur time : α) : Nat :=
  let part := if 0 < dur then (time - start) / dur else 0
  Scalar.toNat (Scalar.clamp part 0 0.999 * Scalar.ofNat width)

/-- The line of a bar with one chord more, if it starts in the bar. -/
def placeChord (bar : Row α) (line : List Char) (chord : Row α) : List Char :=
  let dur := bar.dur.getD 0
  let name := Text.trim (chord.chord.getD "").toList
  if bar.time ≤ chord.time ∧ chord.time < bar.time + dur ∧ name ≠ [] then
    writeOver line (chordColumn line.length bar.time dur chord.time) name
  else line

def chartBar (chords : List (Row α)) (bar : Row α) : List Char :=
  let lyric := Text.trimEnd (bar.lyric.getD "").toList
  let line := chords.foldl (placeChord bar) (List.replicate (barWidth lyric bar) ' ')
  Text.trimEnd line ++ '\n' :: lyric ++ ['\n']

def heading (bar : Row α) : String := (bar.sectionName.map SectionName.text).getD "Unknown"

def chartBars (chords : List (Row α)) (current : Option String) :
    List (Row α) → List Char
  | [] => []
  | bar :: bars =>
    let head := heading bar
    let title := if current = some head then [] else '\n' :: '[' :: head.toList ++ [']', '\n']
    title ++ chartBar chords bar ++ chartBars chords (some head) bars

def chart (rows : List (Row α)) (title : String) : String :=
  let bars := inTime .lyricBar rows
  let body :=
    if bars.isEmpty then "\n(no lyric bars)\n"
    else String.ofList (chartBars (inTime .chord rows) none bars)
  "Chart: " ++ title ++ "\n" ++ body

def sectionSummary (sections : List SectionRange) : String :=
  String.join (sections.map fun s =>
    s.name.text ++ ": bars " ++ toString s.barStart ++ "-" ++ toString s.barEnd ++ "\n")

end LeadSheet.Export
