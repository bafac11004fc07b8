import LeadSheet.Yaml.Number
import LeadSheet.Yaml.Spacing

/-!
# Quoted scalars

Text between quotes, which a marker of a document at the start of a line breaks off.
-/

namespace LeadSheet.Yaml
set_option autoImplicit false

/-- The text up to a closing single quote, which two of them do not close, and what follows it. -/
def singleQuoted? (spacing : Spacing) : List Char → Option (List Char × List Char)
  | [] => none
  | '\'' :: '\'' :: cs =>
    (singleQuoted? .none cs).map fun (text, rest) => (spacing.text ++ '\'' :: text, rest)
  | '\'' :: cs => some (spacing.text, cs)
  | c :: cs =>
    if isSpace c then singleQuoted? (spacing.push c) cs
    else if spacing.endsAtLineStart && isMarker (c :: cs) then none
    else
      (singleQuoted? .none cs).map fun (text, rest) => (spacing.text ++ c :: text, rest)

def escaped? (c : Char) : Option Char :=
  [('0', '\x00'), ('a', '\x07'), ('b', '\x08'), ('t', '\t'), ('\t', '\t'), ('n', '\n'),
    ('v', '\x0b'), ('f', '\x0c'), ('r', '\r'), ('e', '\x1b'), (' ', ' '), ('"', '"'),
    ('/', '/'), ('\\', '\\'), ('N', '\u0085'), ('_', '\u00a0'), ('L', '\u2028'),
    ('P', '\u2029')].lookup c

def escapeWidth? (c : Char) : Option Nat := [('x', 2), ('u', 4), ('U', 8)].lookup c

inductive QuoteState
  | text (spacing : Spacing)
  | escape
  | number (owed value : Nat)

def doubleQuoted? : QuoteState → List Char → Option (List Char × List Char)
  | _, [] => none
  | .text spacing, c :: cs =>
    if c = '"' then some (spacing.text, cs)
    else if isSpace c then doubleQuoted? (.text (spacing.push c)) cs
    else if spacing.endsAtLineStart && isMarker (c :: cs) then none
    else if c = '\\' then
      (doubleQuoted? .escape cs).map fun (text, rest) => (spacing.text ++ text, rest)
    else
      (doubleQuoted? (.text .none) cs).map fun (text, rest) => (spacing.text ++ c :: text, rest)
  | .escape, '\r' :: '\n' :: cs => doubleQuoted? (.text .afterJoin) cs
  | .escape, c :: cs =>
    if isBreak c then doubleQuoted? (.text .afterJoin) cs
    else
      match escaped? c, escapeWidth? c with
      | some d, _ => (doubleQuoted? (.text .none) cs).map fun (text, rest) => (d :: text, rest)
      | none, some width => doubleQuoted? (.number width 0) cs
      | none, none => none
  | .number owed value, c :: cs =>
    match digit? 16 c with
    | none => none
    | some d =>
      let value := value * 16 + d
      if 1 < owed then doubleQuoted? (.number (owed - 1) value) cs
      else if value.isValidChar then
        (doubleQuoted? (.text .none) cs).map fun (text, rest) => (Char.ofNat value :: text, rest)
      else none

end LeadSheet.Yaml
