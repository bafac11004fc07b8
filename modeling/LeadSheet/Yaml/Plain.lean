import LeadSheet.Yaml.Spacing

/-!
# Plain scalars

Text without quotes: words with spacing between them. It ends where a colon, a comment, a bracket or
a comma inside brackets, the end of the document or a line that stands too far out begins.
-/

namespace LeadSheet.Yaml
set_option autoImplicit false

def flowMarks : List Char := [',', '[', ']', '{', '}']

/-- A word and what follows it. Inside brackets a colon and a bracket or comma are no word. -/
def plainWord? (inFlow : Bool) : List Char → Option (List Char × List Char)
  | [] => some ([], [])
  | c :: cs =>
    if isSpace c || c == ':' && startsSpace cs || inFlow && flowMarks.contains c then
      some ([], c :: cs)
    else if inFlow && c == ':' && ('?' :: flowMarks).any (cs.head? == some ·) then none
    else (plainWord? inFlow cs).map fun (word, rest) => (c :: word, rest)

/-- Whether a tab stands before a column of a line, if a column of the line is reached. -/
def tabBefore (indent : Nat) : Option Nat → List Char → Bool
  | _, [] => false
  | column, c :: cs =>
    if isBreak c then tabBefore indent (some 0) cs
    else (c == '\t' && column.any (· < indent)) || tabBefore indent (column.map (· + 1)) cs

structure PlainEnd where
  text : List Char
  /-- Whether a new line has begun behind the text. -/
  newLine : Bool
  rest : List Char

/-- The words up to the end of a scalar whose further lines start at a column or behind it, though
inside brackets anywhere. A tab does not indent. -/
def plainEnd? (inFlow : Bool) (indent : Nat) : Nat → List Char → Option PlainEnd
  | 0, cs => some ⟨[], false, cs⟩
  | words + 1, cs =>
    let spacing : Spacing := ⟨cs.takeWhile isSpace, false⟩
    let rest := cs.dropWhile isSpace
    let finish : PlainEnd := ⟨[], spacing.hasBreak, rest⟩
    if spacing.chars.isEmpty then some finish
    else if tabBefore indent none spacing.chars then none
    else if rest.head? == some '#' || spacing.endsAtLineStart && isMarker rest ||
        !inFlow && spacing.hasBreak && spacing.column < indent then
      some finish
    else do
      let (word, after) ← plainWord? inFlow rest
      if word.isEmpty then some finish
      else
        let more ← plainEnd? inFlow indent words after
        some { more with text := spacing.text ++ word ++ more.text }

def plain? (inFlow : Bool) (indent : Nat) (cs : List Char) : Option PlainEnd := do
  let (word, after) ← plainWord? inFlow cs
  let more ← plainEnd? inFlow indent cs.length after
  some { more with text := word ++ more.text }

end LeadSheet.Yaml
