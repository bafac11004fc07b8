import LeadSheet.Lyric.Word
import LeadSheet.Row
import LeadSheet.Settings
import LeadSheet.Tempo.Position

/-!
# Aligning words

Words whose times come from elsewhere are moved together by one offset, the upper median of their
distances to the grid of sub-beats, and each is then put on the nearest sub-beat. A word that ends
in a later sub-beat than it starts in is a melisma.
-/

namespace LeadSheet
set_option autoImplicit false

variable {α : Type} [Scalar α]

structure Aligner (α : Type) where
  tempo : TempoMap α
  numerator : Nat
  pickup : α
  /-- Parts of a beat. -/
  division : Nat
  maxOffset : α
  defaultConfidence : α
  numerator_pos : 0 < numerator

structure SubBeat (α : Type) where
  whole : α
  fraction : α
  snapped : α

def SubBeat.ofBeat (beat : α) (division : Nat) : SubBeat α :=
  let fraction := beat - Scalar.floor beat
  { whole := Scalar.floor beat
    fraction := fraction
    snapped := Scalar.round (fraction * Scalar.ofNat division) / Scalar.ofNat division }

/-- A place on the grid of sub-beats; places are compared by bar, then beat, then sub-beat. -/
structure GridPoint where
  bar : Int
  beat : Int
  sub : Int
  deriving Repr, DecidableEq

def GridPoint.before (p q : GridPoint) : Bool :=
  p.bar < q.bar || p.bar == q.bar && (p.beat < q.beat || p.beat == q.beat && p.sub < q.sub)

namespace Aligner

def create (tempo : TempoMap α) (numerator : Nat) (pickup : α) :
    Except (Error α) (Aligner α) :=
  if h : numerator = 0 then .error .invalidTimeSignature
  else
    .ok {
      tempo := tempo
      numerator := numerator
      pickup := pickup
      division := (LyricSettings.default : LyricSettings α).snapDivision
      maxOffset := LyricSettings.default.maxOffset
      defaultConfidence := LyricSettings.default.defaultConfidence
      numerator_pos := Nat.pos_of_ne_zero h }

def withDivision (a : Aligner α) (division : Nat) : Aligner α :=
  { a with division := max division 1 }

def withSettings (a : Aligner α) (s : LyricSettings α) : Aligner α :=
  { a with
    division := max s.snapDivision 1
    maxOffset := Scalar.abs s.maxOffset
    defaultConfidence := s.defaultConfidence }

def position (a : Aligner α) (t : α) : GridPosition α :=
  GridPosition.split (a.tempo.beatsAt t) a.numerator a.pickup

/-- How far, in seconds, a time is before its sub-beat. -/
def residual (a : Aligner α) (t : α) : α :=
  let sub := SubBeat.ofBeat (a.position t).beat a.division
  (sub.snapped - sub.fraction) * a.tempo.secondsPerBeatAt t

/-- Residuals in order. A word beyond all beats has one that is no number, which comes first. -/
def residualAtMost (x y : α) : Bool :=
  !Scalar.isNumber x || Scalar.isNumber y && Scalar.atMost x y

def globalOffset (a : Aligner α) (words : List (Word α)) : α :=
  let residuals := (words.map fun w => a.residual w.start).mergeSort residualAtMost
  match residuals[residuals.length / 2]? with
  | some median => Scalar.clamp median (-a.maxOffset) a.maxOffset
  | none => 0

/-- The sub-beat on which a word starts, its beat still with the fraction. -/
def snappedStart (a : Aligner α) (t : α) : Int × α × Int :=
  let pos := a.position t
  let sub := SubBeat.ofBeat pos.beat a.division
  let index :=
    Scalar.toInt (Scalar.round (sub.snapped * Scalar.ofNat a.division)) % (a.division : Int)
  let beat := sub.whole + sub.snapped
  if pos.bar = 0 ∧ 1 ≤ beat then (1, 1, index)
  else if 1 ≤ pos.bar ∧ Scalar.ofNat a.numerator + 1 ≤ beat then
    (Scalar.bar α (pos.bar + 1), 1, index)
  else (pos.bar, beat, index)

def pointOf (a : Aligner α) (t : α) : GridPoint :=
  let pos := a.position t
  let whole := Scalar.floor pos.beat
  let sub := Scalar.toInt (Scalar.floor ((pos.beat - whole) * Scalar.ofNat a.division))
  ⟨pos.bar, Scalar.toInt whole, max 0 (min sub (a.division - 1))⟩

def snapWord (a : Aligner α) (w : Word α) : Row α :=
  let stop := w.stop.getD (w.start + Word.defaultLength)
  let (bar, beat, sub) := a.snappedStart w.start
  let row := Row.blank .lyric bar (Scalar.thousandths beat)
    (Scalar.thousandths (a.position w.start).beatAbs) (Scalar.thousandths w.start)
  { row with
    lyric := some w.text
    lyricConf := some (w.confidence.getD a.defaultConfidence)
    wordStart := some (Scalar.thousandths w.start)
    wordEnd := some (Scalar.thousandths stop)
    subIndex := some sub.toNat
    melisma := some
      (GridPoint.before ⟨bar, Scalar.toInt (Scalar.floor beat), sub⟩ (a.pointOf stop)) }

def snapWords (a : Aligner α) (words : List (Word α)) : List (Row α) := words.map a.snapWord

def align (a : Aligner α) (words : List (Word α)) : α × List (Row α) :=
  let offset := a.globalOffset words
  (offset, a.snapWords (words.map (Word.shift offset)))

end Aligner

end LeadSheet
