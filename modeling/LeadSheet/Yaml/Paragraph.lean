import LeadSheet.Yaml.Spacing

/-!
# Indented text

Lines that stand further in than what they belong to, either as they are or with single line ends
read as spaces. A header says which, how far in they stand and what becomes of the line ends behind
the text.
-/

namespace LeadSheet.Yaml
set_option autoImplicit false

inductive Tail
  | dropped
  | one
  | kept

structure Header where
  folds : Bool
  tail : Tail := .one
  /-- How far in the lines stand, if the header says so. -/
  indent : Option Nat := none

/-- The header's marks in either order, and what follows them. Lines stand in by one or more. -/
def header? (folds : Bool) (cs : List Char) : Option (Header × List Char) :=
  let tail? (cs : List Char) : Option Tail × List Char :=
    match cs with
    | '+' :: cs => (some .kept, cs)
    | '-' :: cs => (some .dropped, cs)
    | cs => (none, cs)
  let indent? (cs : List Char) : Option Nat × List Char :=
    match cs with
    | c :: rest => if c.isDigit then (some (c.toNat - 48), rest) else (none, c :: rest)
    | [] => (none, [])
  let (tail, rest) := tail? cs
  let (indent, rest) := indent? rest
  let (tail, rest) :=
    match tail, indent with
    | none, some _ => tail? rest
    | tail, _ => (tail, rest)
  if indent == some 0 then none else some (⟨folds, tail.getD .one, indent⟩, rest)

def lineRest? (cs : List Char) : Option (List Char) :=
  let rest := cs.dropWhile isBlank
  let rest := if rest.head? == some '#' then rest.dropWhile (!isBreak ·) else rest
  match rest with
  | [] => some []
  | '\r' :: '\n' :: rest => some rest
  | c :: rest => if isBreak c then some rest else none

structure Margin where
  ends : List Char
  /-- The widest margin of them all. -/
  widest : Nat
  column : Nat
  rest : List Char

/-- The margin of the next line that is not empty, given the column at which lines start if it is
known. There are no tabs in it. -/
def margin? (indent : Option Nat) (widest column : Nat) : List Char → Option Margin
  | [] => some ⟨[], max widest column, column, []⟩
  | c :: cs =>
    let inside := indent.all (column < ·)
    if c == ' ' && inside then margin? indent widest (column + 1) cs
    else if c == '\t' && inside then none
    else if isBreak c then
      (margin? indent (max widest column) 0 cs).map fun m =>
        if c == '\r' && cs.head? == some '\n' then m else { m with ends := lineEnds [c] ++ m.ends }
    else some ⟨[], max widest column, column, c :: cs⟩

structure Between where
  first : List Char
  more : List Char
  afterBlank : Bool

/-- The text that line ends read as before a line. A single one is a space between lines that start
with no blank, if lines are folded. -/
def Between.text (folds beforeBlank : Bool) (b : Between) : List Char :=
  if folds && b.first == ['\n'] && !b.afterBlank && !beforeBlank then
    if b.more.isEmpty then [' '] else b.more
  else b.first ++ b.more

def paragraph? (folds : Bool) (indent : Nat) : Nat → Between → Nat → List Char →
    Option (List Char × Between × List Char)
  | 0, between, _, cs => some ([], between, cs)
  | lines + 1, between, column, cs =>
    if column != indent || cs.isEmpty then some ([], between, cs)
    else do
      let blank := cs.head?.any isBlank
      let line := cs.takeWhile (!isBreak ·)
      let rest := cs.dropWhile (!isBreak ·)
      let first := lineEnds (rest.take 1)
      let rest := rest.drop (if rest.head? == some '\r' && rest[1]? == some '\n' then 2 else 1)
      let margin ← margin? (some indent) 0 0 rest
      let (text, last, after) ←
        paragraph? folds indent lines ⟨first, margin.ends, blank⟩ margin.column margin.rest
      some (between.text folds blank ++ line ++ text, last, after)

def indented? (folds : Bool) (parent : Int) (cs : List Char) : Option (List Char × List Char) := do
  let (header, rest) ← header? folds cs
  let rest ← lineRest? rest
  let given := header.indent.map ((max parent 0).toNat + ·)
  let margin ← margin? given 0 0 rest
  let indent := given.getD (max margin.widest (max (parent + 1).toNat 1))
  let (text, last, after) ←
    paragraph? folds indent cs.length ⟨[], margin.ends, false⟩ margin.column margin.rest
  let tail :=
    match header.tail with
    | .dropped => []
    | .one => last.first
    | .kept => last.first ++ last.more
  some (text ++ tail, after)

end LeadSheet.Yaml
