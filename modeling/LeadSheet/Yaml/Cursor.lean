/-!
# Reading positions

The characters that part a document, and a place in it with its line and column. A gap between two
tokens is blanks, comments and line ends; a byte order mark at the start of a line belongs to it.
-/

namespace LeadSheet.Yaml
set_option autoImplicit false

def isBlank (c : Char) : Bool := c == ' ' || c == '\t'

/-- Whether a character ends a line. A carriage return and a line feed end it together. -/
def isBreak (c : Char) : Bool := ['\n', '\r', '\u0085', '\u2028', '\u2029'].contains c

def isSpace (c : Char) : Bool := isBlank c || isBreak c

def startsSpace : List Char → Bool
  | [] => true
  | c :: _ => isSpace c

def isMarker : List Char → Bool
  | '-' :: '-' :: '-' :: cs | '.' :: '.' :: '.' :: cs => startsSpace cs
  | _ => false

structure Position where
  index : Nat
  line : Nat
  column : Nat

structure Cursor extends Position where
  rest : List Char

namespace Cursor

def start (text : List Char) : Cursor := { index := 0, line := 0, column := 0, rest := text }

def next (c : Cursor) : Cursor :=
  match c.rest with
  | [] => c
  | ch :: rest =>
    if isBreak ch && !(ch == '\r' && rest.head? == some '\n') then
      { index := c.index + 1, line := c.line + 1, column := 0, rest }
    else { index := c.index + 1, line := c.line, column := c.column + 1, rest }

def forward : Nat → Cursor → Cursor
  | 0, c => c
  | n + 1, c => forward n c.next

def moveTo (c : Cursor) (rest : List Char) : Cursor := c.forward (c.rest.length - rest.length)

/-- What follows a gap. Outside brackets a tab is no blank at the start of a line. -/
def gapEnd (inFlow tabs lineStart comment : Bool) : List Char → List Char
  | [] => []
  | ch :: cs =>
    if isBreak ch then gapEnd inFlow inFlow true false cs
    else if comment then gapEnd inFlow tabs false true cs
    else if lineStart && ch == '\ufeff' || ch == ' ' || tabs && ch == '\t' then
      gapEnd inFlow tabs false false cs
    else if ch == '#' then gapEnd inFlow tabs false true cs
    else ch :: cs

def skipGap (inFlow tabs : Bool) (c : Cursor) : Cursor :=
  c.moveTo (gapEnd inFlow (inFlow || tabs) (c.column == 0) false c.rest)

end Cursor

end LeadSheet.Yaml
