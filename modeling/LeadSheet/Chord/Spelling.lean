import LeadSheet.Chord.NoteName
import LeadSheet.Text.Blank

/-!
# Canonical spelling

Chord text as people type it, brought to one spelling: ASCII accidentals and dashes, single spaces,
a sharp root and a sharp slash bass, `m` for `min` and `#5` for `aug`. Text that names no root comes
back cleaned and otherwise as it was.
-/

namespace LeadSheet.Chord
set_option autoImplicit false

def noChord : String := "N.C."

def plainGlyph : Char → Char
  | '♯' => '#'
  | '♭' => 'b'
  | '–' | '—' | '−' => '-'
  | c => c

/-- ASCII glyphs, no blanks at the ends and single spaces inside. -/
def clean (cs : List Char) : List Char :=
  Text.collapseBlanks ((Text.trim cs).map plainGlyph)

def shortenMinor : List Char → List Char
  | 'm' :: 'i' :: 'n' :: cs => 'm' :: shortenMinor cs
  | c :: cs => c :: shortenMinor cs
  | [] => []

def raiseFifth : List Char → List Char
  | 'a' :: 'u' :: 'g' :: cs => '#' :: '5' :: raiseFifth cs
  | c :: cs => c :: raiseFifth cs
  | [] => []

/-- Every note name that follows a slash, spelled as a root is. -/
def sharpenBass : List Char → List Char
  | [] => []
  | '/' :: l :: a :: cs =>
    match Letter.ofChar? l, Accidental.ofChar? a with
    | some letter, some accidental =>
      '/' :: (NoteName.mk letter accidental).sharpened.chars ++ sharpenBass cs
    | some letter, none => '/' :: letter.toChar :: sharpenBass (a :: cs)
    | none, _ => '/' :: sharpenBass (l :: a :: cs)
  | ['/', l] =>
    match Letter.ofChar? l with
    | some letter => ['/', letter.toChar]
    | none => ['/', l]
  | c :: cs => c :: sharpenBass cs

def spellTail (cs : List Char) : List Char :=
  Text.trim (sharpenBass (raiseFifth (shortenMinor cs)))

def spellChars (cs : List Char) : List Char :=
  let cleaned := clean cs
  match NoteName.scan? cleaned with
  | none => cleaned
  | some (root, tail) => Text.trim (root.sharpened.chars ++ spellTail tail)

/-- The canonical spelling of a chord label; it never fails. -/
def spell (label : String) : String := String.ofList (spellChars label.toList)

/-- The canonical spelling, with blank text standing for no chord. -/
def spellOrNone (label : String) : String :=
  let symbol := spell label
  if symbol.isEmpty then noChord else symbol

end LeadSheet.Chord
