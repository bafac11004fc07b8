import LeadSheet.Export.Timecode
import LeadSheet.Row

/-!
# Lyric files

The words of a sheet written as LRC and as WebVTT, in the order of the rows.
-/

namespace LeadSheet.Export
set_option autoImplicit false

variable {α : Type} [Scalar α]

def wordRows (rows : List (Row α)) : List (Row α) := rows.filter (·.kind = .lyric)

def lyricText (row : Row α) : String := row.lyric.getD ""

def lrcLine (row : Row α) : String := lrcTag row.start ++ lyricText row ++ "\n"

def lrc (rows : List (Row α)) : String := String.join ((wordRows rows).map lrcLine)

def defaultCue : α := 0.5

/-- The end of a cue: that of the word, or of the row, or after a moment. -/
def cueEnd (row : Row α) : α :=
  match row.wordEnd, row.dur with
  | some stop, _ => stop
  | none, some dur => row.start + dur
  | none, none => row.start + defaultCue

def vttCue (row : Row α) : String :=
  vttStamp row.start ++ " --> " ++ vttStamp (cueEnd row) ++ "\n" ++ lyricText row ++ "\n\n"

def vtt (rows : List (Row α)) : String :=
  "WEBVTT\n\n" ++ String.join ((wordRows rows).map vttCue)

end LeadSheet.Export
