import LeadSheet.Error
import LeadSheet.Scalar

/-!
# Rows

A row is one fact on the song's grid: a chord change, a word, or the words of a bar. Every row has a
place; what else it carries depends on what it is a fact about.
-/

namespace LeadSheet
set_option autoImplicit false

inductive RowKind
  | chord | lyric | lyricBar
  deriving Repr, DecidableEq

def RowKind.text : RowKind → String
  | .chord => "Chord"
  | .lyric => "Lyric"
  | .lyricBar => "LyricBar"

inductive SectionName
  | intro | verse | chorus | outro
  deriving Repr, DecidableEq

def SectionName.text : SectionName → String
  | .intro => "Intro"
  | .verse => "Verse"
  | .chorus => "Chorus"
  | .outro => "Outro"

structure Row (α : Type) where
  kind : RowKind
  bar : Int
  beat : α
  beatAbs : α
  time : α
  chord : Option String
  sectionName : Option SectionName
  durBeats : Option α
  dur : Option α
  lyric : Option String
  lyricConf : Option α
  wordStart : Option α
  wordEnd : Option α
  subIndex : Option Nat
  melisma : Option Bool
  chordConf : Option α
  sectionConf : Option α
  deriving Repr, DecidableEq

namespace Row

variable {α : Type}

def blank (kind : RowKind) (bar : Int) (beat beatAbs time : α) : Row α where
  kind := kind
  bar := bar
  beat := beat
  beatAbs := beatAbs
  time := time
  chord := none
  sectionName := none
  durBeats := none
  dur := none
  lyric := none
  lyricConf := none
  wordStart := none
  wordEnd := none
  subIndex := none
  melisma := none
  chordConf := none
  sectionConf := none

/-- When the word starts, which for other rows is when the row does. -/
def start (r : Row α) : α := r.wordStart.getD r.time

/-- The row in a count of bars that starts elsewhere. -/
def renumber (offset : Int) (r : Row α) : Row α := { r with bar := r.bar + offset }

variable [Scalar α]

def keepBar (r : Row α) : Row α := { r with bar := Scalar.bar α r.bar }

/-- The row with an offset added to its bar. A checked build stops at a sum beyond words. -/
def shiftBar (offset : Int) (r : Row α) : Except (Error α) (Row α) :=
  if Scalar.buildOf α = .checked ∧ Word64.holds (r.bar + offset) = false then .error .overflow
  else .ok { r with bar := Scalar.bar α (r.bar + offset) }

end Row

end LeadSheet
