import LeadSheet.Decimal.Layout
import LeadSheet.Text.Quoted

/-!
# Errors

Why a song could not be laid out. The settings that are out of range carry the value they were
given.
-/

namespace LeadSheet
set_option autoImplicit false

inductive MidiFault
  | notMidi
  | noHeader
  | trackBeforeHeader
  | badHeader
  | noRiffChunk
  | noFormType
  | notMidiForm
  | noDataChunk
  deriving Repr, DecidableEq

inductive SettingFault (α : Type)
  | windowBars
  | chorusOccurrences
  | snapDivision
  | snapBeats (given : α)
  | pickupBeats (given : α)
  | melismaBeats (given : α)
  | maxOffset (given : α)
  deriving Repr, DecidableEq

inductive FileFault
  | missing
  | directory
  | notText
  | other (reason : String)
  deriving Repr, DecidableEq

inductive Error (α : Type)
  | emptyTempoMap
  | invalidTimeSignature
  | unparseableChordLabel (label : String)
  | insufficientPitchInfo (distinct : Nat)
  | invalidConfig (fault : SettingFault α)
  | configParse
  | midiParse (fault : MidiFault)
  | unsupportedTiming
  | file (fault : FileFault)
  /-- A whole number left the word that holds it. The text is that for a sum. -/
  | overflow
  deriving Repr, DecidableEq

instance decidableEqExcept {ε β : Type} [DecidableEq ε] [DecidableEq β] :
    DecidableEq (Except ε β)
  | .ok x, .ok y => decidable_of_iff (x = y) (by rw [Except.ok.injEq])
  | .error e, .error f => decidable_of_iff (e = f) (by rw [Except.error.injEq])
  | .ok _, .error _ => isFalse (nomatch ·)
  | .error _, .ok _ => isFalse (nomatch ·)

def MidiFault.message : MidiFault → String
  | .notMidi => "not a midi file"
  | .noHeader => "no midi header chunk"
  | .trackBeforeHeader => "expected header, found track"
  | .badHeader => "invalid midi header"
  | .noRiffChunk => "no main riff chunk"
  | .noFormType => "failed to read riff formtype"
  | .notMidiForm => "not an rmid riff file"
  | .noDataChunk => "no rmid data chunk"

def FileFault.message : FileFault → String
  | .missing => "No such file or directory (os error 2)"
  | .directory => "Is a directory (os error 21)"
  | .notText => "stream did not contain valid UTF-8"
  | .other reason => reason

def SettingFault.message : SettingFault Float → String
  | .windowBars => "sections.ngram_bars must be at least 1"
  | .chorusOccurrences => "sections.chorus_min_occurs must be at least 1"
  | .snapDivision => "lyrics.snap_div must be at least 1"
  | .snapBeats v => "midi.snap_beats must not be negative, got " ++ Decimal.Layout.plain.write v
  | .pickupBeats v => "midi.pickup_beats must not be negative, got " ++ Decimal.Layout.plain.write v
  | .melismaBeats v =>
    "lyrics.melisma_threshold_beats must be positive, got " ++ Decimal.Layout.plain.write v
  | .maxOffset v => "lyrics.max_offset_s must be positive, got " ++ Decimal.Layout.plain.write v

def Error.message : Error Float → String
  | .emptyTempoMap => "Tempo map must have at least one segment"
  | .invalidTimeSignature => "Invalid time signature: numerator 0 must be >= 1"
  | .unparseableChordLabel label => "Unparseable chord label: " ++ Text.quoted label
  | .insufficientPitchInfo distinct =>
    "Insufficient pitch information: " ++ toString distinct ++
      " distinct pitch class(es), need at least 2"
  | .invalidConfig fault => "Invalid configuration: " ++ fault.message
  | .configParse => "Configuration parse error: the document does not fit the settings"
  | .midiParse fault => "MIDI parse error: invalid midi: " ++ fault.message
  | .unsupportedTiming =>
    "Unsupported MIDI timing: timecode-based files have no ticks per beat"
  | .file fault => fault.message
  | .overflow => "attempt to add with overflow"

end LeadSheet
