/-!
# Note names

A note name is a letter with an optional accidental, and sounds one of twelve pitch classes. The
canonical spelling of the black keys is with a sharp.
-/

namespace LeadSheet
set_option autoImplicit false

abbrev PitchClass := Fin 12

namespace PitchClass

/-- There is a pitch class, on which the numerals of the type rest. -/
instance twelveNeZero : @NeZero Nat Zero.ofOfNat0 12 := ⟨Nat.succ_ne_zero 11⟩

def ofPitch (pitch : Nat) : PitchClass := Fin.ofNat 12 pitch

/-- The sharp spellings, from C up. -/
def names : List String :=
  ["C", "C#", "D", "D#", "E", "F", "F#", "G", "G#", "A", "A#", "B"]

def name (p : PitchClass) : String := names.getD p.val ""

/-- The members of a set of pitch classes, from C up and each once. -/
def members (ps : List PitchClass) : List PitchClass :=
  (List.finRange 12).filter (ps.contains ·)

end PitchClass

inductive Letter
  | c | d | e | f | g | a | b
  deriving Repr, DecidableEq

namespace Letter

/-- A letter of either case. -/
def ofChar? : Char → Option Letter
  | 'C' | 'c' => some .c
  | 'D' | 'd' => some .d
  | 'E' | 'e' => some .e
  | 'F' | 'f' => some .f
  | 'G' | 'g' => some .g
  | 'A' | 'a' => some .a
  | 'B' | 'b' => some .b
  | _ => none

def toChar : Letter → Char
  | .c => 'C'
  | .d => 'D'
  | .e => 'E'
  | .f => 'F'
  | .g => 'G'
  | .a => 'A'
  | .b => 'B'

def pitchClass : Letter → PitchClass
  | .c => 0
  | .d => 2
  | .e => 4
  | .f => 5
  | .g => 7
  | .a => 9
  | .b => 11

theorem ofChar?_toChar (l : Letter) : ofChar? l.toChar = some l := by cases l <;> rfl

end Letter

inductive Accidental
  | natural | sharp | flat
  deriving Repr, DecidableEq

namespace Accidental

def ofChar? : Char → Option Accidental
  | '#' => some .sharp
  | 'b' => some .flat
  | _ => none

def chars : Accidental → List Char
  | .natural => []
  | .sharp => ['#']
  | .flat => ['b']

def shift : Accidental → PitchClass
  | .natural => 0
  | .sharp => 1
  | .flat => -1

end Accidental

structure NoteName where
  letter : Letter
  accidental : Accidental
  deriving Repr, DecidableEq

namespace NoteName

def chars (n : NoteName) : List Char := n.letter.toChar :: n.accidental.chars

def text (n : NoteName) : String := String.ofList n.chars

def pitchClass (n : NoteName) : PitchClass := n.letter.pitchClass + n.accidental.shift

/-- The spelling of a black key with a sharp. A flat C or F is a white key and stays. -/
def sharpened (n : NoteName) : NoteName :=
  match n with
  | ⟨.a, .flat⟩ => ⟨.g, .sharp⟩
  | ⟨.b, .flat⟩ => ⟨.a, .sharp⟩
  | ⟨.d, .flat⟩ => ⟨.c, .sharp⟩
  | ⟨.e, .flat⟩ => ⟨.d, .sharp⟩
  | ⟨.g, .flat⟩ => ⟨.f, .sharp⟩
  | n => n

theorem sharpened_sharpened (n : NoteName) : n.sharpened.sharpened = n.sharpened := by
  rcases n with ⟨l, a⟩
  cases l <;> cases a <;> rfl

/-- A note name at the start of a text, and what follows it. An accidental belongs to the name. -/
def scan? : List Char → Option (NoteName × List Char)
  | [] => none
  | l :: rest =>
    match Letter.ofChar? l, rest with
    | none, _ => none
    | some letter, [] => some (⟨letter, .natural⟩, [])
    | some letter, a :: more =>
      match Accidental.ofChar? a with
      | some accidental => some (⟨letter, accidental⟩, more)
      | none => some (⟨letter, .natural⟩, a :: more)

/-- The note that a text names with its first two characters. -/
def ofText? (s : String) : Option NoteName :=
  match s.toList with
  | [] => none
  | [l] => (Letter.ofChar? l).map (⟨·, .natural⟩)
  | l :: a :: _ => do return ⟨← Letter.ofChar? l, ← Accidental.ofChar? a⟩

end NoteName

end LeadSheet
