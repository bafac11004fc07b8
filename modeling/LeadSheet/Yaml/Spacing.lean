import LeadSheet.Yaml.Cursor

/-!
# Spacing

What stands between two words of a scalar, and the text that it reads as. A line end reads as a
space and further line ends as themselves, without the blanks around them.
-/

namespace LeadSheet.Yaml
set_option autoImplicit false

/-- The line ends among blanks. They read as line feeds, but for the separators of lines and of
paragraphs, which are kept. -/
def lineEnds : List Char → List Char
  | [] => []
  | '\r' :: '\n' :: cs => '\n' :: lineEnds cs
  | c :: cs =>
    if c == '\u2028' || c == '\u2029' then c :: lineEnds cs
    else if isBreak c then '\n' :: lineEnds cs
    else lineEnds cs

/-- Blanks and line ends, perhaps after a line end that was escaped. -/
structure Spacing where
  chars : List Char
  joined : Bool

namespace Spacing

def none : Spacing := ⟨[], false⟩

def afterJoin : Spacing := ⟨[], true⟩

def push (s : Spacing) (c : Char) : Spacing := ⟨s.chars ++ [c], s.joined⟩

def hasBreak (s : Spacing) : Bool := s.joined || s.chars.any isBreak

def column (s : Spacing) : Nat := (s.chars.reverse.takeWhile isBlank).length

def endsAtLineStart (s : Spacing) : Bool := s.hasBreak && s.column == 0

def text (s : Spacing) : List Char :=
  match s.joined, lineEnds s.chars with
  | false, [] => s.chars
  | false, ['\n'] => [' ']
  | false, '\n' :: more => more
  | _, ends => ends

end Spacing

end LeadSheet.Yaml
