import LeadSheet.Scalar.Rational
import LeadSheet.Decimal.Layout
import LeadSheet.Text.Blank
import LeadSheet.Text.Digit
import LeadSheet.Text.Quoted
import LeadSheet.Text.Line
import LeadSheet.Text.Utf8
import LeadSheet.Chord.Symbol
import LeadSheet.Chord.Template
import LeadSheet.Tempo.Position
import LeadSheet.Grid.ChordRows
import LeadSheet.Form.Stamp
import LeadSheet.Lyric.Vtt
import LeadSheet.Lyric.Bars
import LeadSheet.Lyric.Live
import LeadSheet.Lyric.Chords
import LeadSheet.Midi.Harmony
import LeadSheet.Midi.TempoHint
import LeadSheet.Export.Lyrics
import LeadSheet.Export.Chart
import LeadSheet.Export.Record
import LeadSheet.Export.Json
import LeadSheet.Config.Reader
import LeadSheet.Main
import LeadSheet.Proofs.Scalar.Exact
import LeadSheet.Proofs.Order.Bisect
import LeadSheet.Proofs.Order.Runs
import LeadSheet.Proofs.Order.Latest
import LeadSheet.Proofs.Tempo.Line
import LeadSheet.Proofs.Tempo.Ticks
import LeadSheet.Proofs.Form.Repeat
import LeadSheet.Proofs.Form.Labels
import LeadSheet.Proofs.Form.Shape
import LeadSheet.Proofs.Grid.Downbeats
import LeadSheet.Proofs.Form.Stamp
import LeadSheet.Proofs.Song.Sections
import LeadSheet.Proofs.Text.Blank
import LeadSheet.Proofs.Text.Line
import LeadSheet.Proofs.Lyric.Stamp
import LeadSheet.Proofs.Lyric.Vtt
import LeadSheet.Proofs.Lyric.Lrc
import LeadSheet.Proofs.Chord.Word
import LeadSheet.Proofs.Chord.Label
import LeadSheet.Proofs.Form.Signature
import LeadSheet.Proofs.Form.Reach
import LeadSheet.Proofs.Grid.Rounding
import LeadSheet.Proofs.Grid.Placement
import LeadSheet.Proofs.Chord.Spelling
import LeadSheet.Proofs.Chord.Steps
import LeadSheet.Proofs.Chord.Reading
import LeadSheet.Proofs.Chord.Spacing
import LeadSheet.Proofs.Chord.Respelling
import LeadSheet.Proofs.Grid.Sounding
import LeadSheet.Proofs.Grid.Resnapping
import LeadSheet.Proofs.Order.Stable
import LeadSheet.Proofs.Song.Renumbering
import LeadSheet.Proofs.Lyric.Bars
import LeadSheet.Proofs.Lyric.Joining
import LeadSheet.Proofs.Scalar.Sign
import LeadSheet.Proofs.Song.Tracks
import LeadSheet.Proofs.Song.Overlay
import LeadSheet.Proofs.Lyric.Ranks
import LeadSheet.Proofs.Song.Bounds
import LeadSheet.Proofs.Song.Outcome
import LeadSheet.Proofs.Midi.Spans
import LeadSheet.Proofs.Grid.Position
import LeadSheet.Proofs.Midi.Sources
import LeadSheet.Proofs.Midi.BarLines
import LeadSheet.Proofs.Tempo.Pace
import LeadSheet.Proofs.Lyric.Windows
import LeadSheet.Proofs.Lyric.SubBeats
import LeadSheet.Proofs.Scalar.Number
import LeadSheet.Proofs.Lyric.ChordScan
import LeadSheet.Proofs.Midi.Pairing
import LeadSheet.Proofs.Midi.Faithful
import LeadSheet.Proofs.Lyric.Offset
import LeadSheet.Proofs.Export.ChordLine
import LeadSheet.Proofs.Midi.Changes
import LeadSheet.Proofs.Order.Together
import LeadSheet.Proofs.Tempo.Segments
import LeadSheet.Proofs.Tempo.Numbering
import LeadSheet.Proofs.Chord.Recognition
import LeadSheet.Proofs.Grid.Duration
import LeadSheet.Proofs.Form.Views
import LeadSheet.Proofs.Form.Inference
import LeadSheet.Proofs.Form.Rank
