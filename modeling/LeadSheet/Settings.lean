import LeadSheet.Error
import LeadSheet.Scalar

/-!
# Settings

What can be tuned, one record for each part of the work, with the values that hold when nothing is
said. `Settings.check` refuses the values under which a part would be without meaning, and names
the first of them in the order in which they stand there.
-/

namespace LeadSheet
set_option autoImplicit false

inductive TieBreak
  | laterFirst
  | earlierFirst
  deriving Repr, DecidableEq

def TieBreak.name : TieBreak → String
  | .laterFirst => "later_first"
  | .earlierFirst => "earlier_first"

structure MidiSettings (α : Type) where
  /-- How near a bar line a chord moves onto it; none does at 0. -/
  snapBeats : α
  /-- Beats before the first bar. -/
  pickupBeats : α
  /-- What is added to each bar number, whatever `prebars` says. -/
  barIndexOffset : Option Int
  /-- Bars counted in before the song. -/
  prebars : Nat
  /-- Points of the chord grid in each beat. -/
  chordGridDivision : Nat
  /-- With fewer labels than this, chords are recognised from the notes. -/
  minTextChords : Nat
  ignoreDrums : Bool
  deriving Repr, DecidableEq

structure SectionSettings where
  /-- The length of the windows that are compared. -/
  windowBars : Nat
  /-- How often a window must occur to count as repeated. -/
  chorusMinOccurs : Nat
  introMaxBars : Option Nat
  tieBreak : TieBreak
  deriving Repr, DecidableEq

structure LyricSettings (α : Type) where
  /-- Parts of a beat that words snap to. -/
  snapDivision : Nat
  joiner : String
  /-- A live word held this long is a melisma. -/
  melismaBeats : α
  maxOffset : α
  defaultConfidence : α
  deriving Repr, DecidableEq

structure Settings (α : Type) where
  midi : MidiSettings α
  sections : SectionSettings
  lyrics : LyricSettings α
  deriving Repr, DecidableEq

variable {α : Type} [Scalar α]

def MidiSettings.default : MidiSettings α where
  snapBeats := 0.9
  pickupBeats := 0
  barIndexOffset := none
  prebars := 0
  chordGridDivision := 2
  minTextChords := 3
  ignoreDrums := true

def SectionSettings.default : SectionSettings where
  windowBars := 8
  chorusMinOccurs := 2
  introMaxBars := none
  tieBreak := .laterFirst

def LyricSettings.default : LyricSettings α where
  snapDivision := 4
  joiner := " "
  melismaBeats := 1
  maxOffset := 1.5
  defaultConfidence := 0.95

def Settings.default : Settings α where
  midi := .default
  sections := .default
  lyrics := .default

/-- What is added to the bar numbers of rows. Bars counted in are numbered up to bar 0. -/
def MidiSettings.barOffset {α : Type} (s : MidiSettings α) : Int :=
  match s.barIndexOffset with
  | some offset => offset
  | none => if 0 < s.prebars then -(s.prebars + 1 : Int) else 0

def Settings.fault? (s : Settings α) : Option (SettingFault α) :=
  if s.sections.windowBars = 0 then some .windowBars
  else if s.sections.chorusMinOccurs = 0 then some .chorusOccurrences
  else if s.lyrics.snapDivision = 0 then some .snapDivision
  else if s.midi.snapBeats < 0 then some (.snapBeats s.midi.snapBeats)
  else if s.midi.pickupBeats < 0 then some (.pickupBeats s.midi.pickupBeats)
  else if s.lyrics.melismaBeats ≤ 0 then some (.melismaBeats s.lyrics.melismaBeats)
  else if s.lyrics.maxOffset ≤ 0 then some (.maxOffset s.lyrics.maxOffset)
  else none

def Settings.check (s : Settings α) : Except (Error α) Unit :=
  match s.fault? with
  | some fault => .error (.invalidConfig fault)
  | none => .ok ()

end LeadSheet
