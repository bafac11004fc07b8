import LeadSheet.Decimal.Layout
import LeadSheet.Export.Timecode
import LeadSheet.Row

/-!
# Records

Rows as the texts of a table with one column for each thing a row may say.
-/

namespace LeadSheet.Export
set_option autoImplicit false

def columns : List String := [
  "Bar", "Beat", "BeatAbs", "Time_s", "Timecode", "Chord", "Section", "Dur_beats", "Dur_s",
  "Lyric", "Lyric_conf", "EventType", "WordStart_s", "WordEnd_s", "SubIdx", "Melisma",
  "Chord_conf", "Section_conf"]

def number (x : Float) : String := Decimal.Layout.plain.write x

def optional {β : Type} (write : β → String) (x : Option β) : String := (x.map write).getD ""

def record (r : Row Float) : List String := [
  toString r.bar,
  number r.beat,
  number r.beatAbs,
  number r.time,
  timecode r.time,
  r.chord.getD "",
  optional SectionName.text r.sectionName,
  optional number r.durBeats,
  optional number r.dur,
  r.lyric.getD "",
  optional number r.lyricConf,
  r.kind.text,
  optional number r.wordStart,
  optional number r.wordEnd,
  optional toString r.subIndex,
  optional (fun m => if m then "1" else "0") r.melisma,
  optional number r.chordConf,
  optional number r.sectionConf]

def records (rows : List (Row Float)) : List (List String) := columns :: rows.map record

end LeadSheet.Export
