import LeadSheet.Export.Chart
import LeadSheet.Export.Json
import LeadSheet.Export.Lyrics
import LeadSheet.Export.Record
import LeadSheet.Song.Sheet

/-!
# Output formats

The formats in which a sheet is written, by name, and the text of each.
-/

namespace LeadSheet.Export
set_option autoImplicit false

inductive Format
  | json | records | lrc | vtt | chart | sections
  deriving Repr, DecidableEq

def Format.name : Format → String
  | .json => "json"
  | .records => "records"
  | .lrc => "lrc"
  | .vtt => "vtt"
  | .chart => "chart"
  | .sections => "sections"

def Format.ofName? (name : String) : Option Format :=
  [Format.json, .records, .lrc, .vtt, .chart, .sections].find? (·.name == name)

def optionalJson {β : Type} (write : β → Json) : Option β → Json
  | none => .null
  | some x => write x

def rowJson (r : Row Float) : Json :=
  .record (columns.zip [
    .whole r.bar,
    .number r.beat,
    .number r.beatAbs,
    .number r.time,
    .text (timecode r.time),
    optionalJson .text r.chord,
    optionalJson (fun s => .text s.text) r.sectionName,
    optionalJson .number r.durBeats,
    optionalJson .number r.dur,
    optionalJson .text r.lyric,
    optionalJson .number r.lyricConf,
    .text r.kind.text,
    optionalJson .number r.wordStart,
    optionalJson .number r.wordEnd,
    optionalJson (fun n : Nat => .whole n) r.subIndex,
    optionalJson (fun m => .whole (if m then 1 else 0)) r.melisma,
    optionalJson .number r.chordConf,
    optionalJson .number r.sectionConf])

def rangeJson (s : SectionRange) : Json :=
  .record [
    ("name", .text s.name.text),
    ("bar_start", .whole s.barStart),
    ("bar_end", .whole s.barEnd)]

def sheetJson (s : Sheet Float) : Json :=
  .record [
    ("rows", .list (s.rows.map rowJson)),
    ("sections", .list (s.sections.map rangeJson)),
    ("offset_s", optionalJson .number s.offset)]

/-- A sheet in a format. Only a chart shows the title. -/
def render (format : Format) (title : String) (s : Sheet Float) : String :=
  match format with
  | .json => (sheetJson s).pretty
  | .records => (Json.list ((records s.rows).map fun r => .list (r.map .text))).pretty
  | .lrc => lrc s.rows
  | .vtt => vtt s.rows
  | .chart => chart s.rows title
  | .sections => sectionSummary s.sections

end LeadSheet.Export
