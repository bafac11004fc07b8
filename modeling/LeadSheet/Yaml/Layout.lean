import LeadSheet.Yaml.Paragraph
import LeadSheet.Yaml.Plain
import LeadSheet.Yaml.Quoted
import LeadSheet.Yaml.Token

/-!
# Layout

The tokens of a text. A key shows only at the colon behind it, so each place where a key may have
started is kept until then: it has to be on the same line and at most 1024 characters back. What
stands at the column of a block of keys must be a key.
-/

namespace LeadSheet.Yaml
set_option autoImplicit false

structure KeyStart extends Position where
  /-- How many tokens stand before it. -/
  before : Nat
  required : Bool

def KeyStart.isPast (k : KeyStart) (p : Position) : Bool :=
  k.line < p.line || k.index + 1024 < p.index

structure Layout where
  cursor : Cursor
  /-- The tokens before the cursor, the last one first. -/
  tokens : List Token
  /-- The columns of the blocks around the cursor, the innermost first. -/
  columns : List Nat
  keyStart : Option KeyStart
  /-- The key starts outside the brackets around the cursor, the innermost first. -/
  outer : List (Option KeyStart)
  /-- Whether a key may start at the next token. -/
  mayStartKey : Bool

namespace Layout

def start (text : List Char) : Layout := ⟨.start text, [], [], none, [], true⟩

def inFlow (l : Layout) : Bool := !l.outer.isEmpty

def indent (l : Layout) : Int :=
  match l.columns with
  | [] => -1
  | column :: _ => column

def push (t : Token) (l : Layout) : Layout := { l with tokens := t :: l.tokens }

def insert (t : Token) (before : Nat) (l : Layout) : Layout :=
  { l with tokens := l.tokens.insertIdx (l.tokens.length - before) t }

def forward (n : Nat) (l : Layout) : Layout := { l with cursor := l.cursor.forward n }

def moveTo (rest : List Char) (l : Layout) : Layout := { l with cursor := l.cursor.moveTo rest }

def closeBlocks (column : Int) (l : Layout) : Layout :=
  if l.inFlow then l
  else
    let closed := l.columns.takeWhile fun (k : Nat) => decide (column < k)
    { l with
      columns := l.columns.drop closed.length
      tokens := List.replicate closed.length .blockEnd ++ l.tokens }

def openBlock (t : Token) (column before : Nat) (l : Layout) : Layout :=
  if l.inFlow || decide (column ≤ l.indent) then l
  else { l.insert t before with columns := column :: l.columns }

/-- The layout when no key has started, which fails where there must be one. -/
def dropKey? (l : Layout) : Option Layout :=
  if l.keyStart.any (·.required) then none else some { l with keyStart := none }

def saveKey? (l : Layout) : Option Layout := do
  if l.mayStartKey then
    let l ← l.dropKey?
    let required := !l.inFlow && decide (l.indent = l.cursor.column)
    some { l with keyStart := some ⟨l.cursor.toPosition, l.tokens.length, required⟩ }
  else some l

def expireKeys? (l : Layout) : Option Layout :=
  let isPast (k : KeyStart) : Bool := k.isPast l.cursor.toPosition
  if (l.keyStart :: l.outer).any (·.any fun k => k.required && isPast k) then none
  else some { l with
    keyStart := l.keyStart.filter (!isPast ·)
    outer := l.outer.map (·.filter (!isPast ·)) }

/-- The layout at the next token. In a block a new line may start with a key. -/
def skipGap? (l : Layout) : Option Layout := do
  let cursor := l.cursor.skipGap l.inFlow (!l.mayStartKey)
  let newLine := !l.inFlow && cursor.line != l.cursor.line
  let l ← { l with cursor, mayStartKey := l.mayStartKey || newLine }.expireKeys?
  some (l.closeBlocks cursor.column)

def bracketOpen? (t : Token) (l : Layout) : Option Layout := do
  let l ← l.saveKey?
  some { (l.push t).forward 1 with
    keyStart := none, outer := l.keyStart :: l.outer, mayStartKey := true }

def bracketClose? (t : Token) (l : Layout) : Option Layout := do
  let l ← l.dropKey?
  some { (l.push t).forward 1 with
    keyStart := l.outer.head?.join, outer := l.outer.drop 1, mayStartKey := false }

def comma? (l : Layout) : Option Layout := do
  let l ← l.dropKey?
  some { (l.push .comma).forward 1 with mayStartKey := true }

def item? (l : Layout) : Option Layout := do
  if !l.inFlow && !l.mayStartKey then none
  else
    let l ← (l.openBlock .blockList l.cursor.column l.tokens.length).dropKey?
    some { (l.push .item).forward 1 with mayStartKey := true }

def key? (l : Layout) : Option Layout := do
  if !l.inFlow && !l.mayStartKey then none
  else
    let l ← (l.openBlock .blockMapping l.cursor.column l.tokens.length).dropKey?
    some { (l.push .key).forward 1 with mayStartKey := !l.inFlow }

/-- A colon, behind a key that started before it or one that a question mark announced. -/
def value? (l : Layout) : Option Layout :=
  match l.keyStart with
  | some k =>
    let l := (l.insert .key k.before).openBlock .blockMapping k.column k.before
    some { (l.push .value).forward 1 with keyStart := none, mayStartKey := false }
  | none =>
    if !l.inFlow && !l.mayStartKey then none
    else
      let l := l.openBlock .blockMapping l.cursor.column l.tokens.length
      some { (l.push .value).forward 1 with mayStartKey := !l.inFlow }

def keyPart? (found : Option (Token × List Char)) (l : Layout) : Option Layout := do
  let (token, rest) ← found
  let l ← l.saveKey?
  some { (l.push token).moveTo rest with mayStartKey := false }

def quoted? (found : Option (List Char × List Char)) (l : Layout) : Option Layout :=
  l.keyPart? (found.map fun (text, rest) => (.scalar .quoted (String.ofList text), rest))

/-- Plain text, behind which a key may start if a line has ended. -/
def plain? (l : Layout) : Option Layout := do
  let found ← Yaml.plain? l.inFlow (l.indent + 1).toNat l.cursor.rest
  let l ← l.saveKey?
  some { (l.push (.scalar .plain (String.ofList found.text))).moveTo found.rest with
    mayStartKey := found.newLine }

def indented? (style : Style) (l : Layout) : Option Layout := do
  let (text, rest) ← Yaml.indented? (style = .folded) l.indent (l.cursor.rest.drop 1)
  let l ← l.dropKey?
  some { (l.push (.scalar style (String.ofList text))).moveTo rest with mayStartKey := true }

def outside? (token : Token) (rest : List Char) (l : Layout) : Option Layout := do
  let l ← (l.closeBlocks (-1)).dropKey?
  some { (l.push token).moveTo rest with mayStartKey := false }

def directive? (cs : List Char) (l : Layout) : Option Layout := do
  let (directive, rest) ← Yaml.directive? cs
  l.outside? (.directive directive) (← lineRest? rest)

def token? (l : Layout) : Option Layout :=
  let rest := l.cursor.rest
  if l.cursor.column == 0 && rest.head? == some '%' then l.directive? (rest.drop 1)
  else if l.cursor.column == 0 && isMarker rest then
    let marker := if rest.head? == some '-' then Token.documentStart else .documentEnd
    l.outside? marker (rest.drop 3)
  else
    match rest with
    | [] => none
    | '[' :: _ => l.bracketOpen? .listOpen
    | '{' :: _ => l.bracketOpen? .mappingOpen
    | ']' :: _ => l.bracketClose? .listClose
    | '}' :: _ => l.bracketClose? .mappingClose
    | ',' :: _ => l.comma?
    | '&' :: cs => l.keyPart? ((nodeName? cs).map fun (name, rest) => (.named name, rest))
    | '*' :: cs => l.keyPart? ((nodeName? cs).map fun (name, rest) => (.again name, rest))
    | '!' :: cs => l.keyPart? ((shortTag? l.inFlow cs).map fun (tag, rest) => (.tag tag, rest))
    | '\'' :: cs => l.quoted? (singleQuoted? .none cs)
    | '"' :: cs => l.quoted? (doubleQuoted? (.text .none) cs)
    | c :: cs =>
      if c == '-' && startsSpace cs then l.item?
      else if c == '?' && (l.inFlow || startsSpace cs) then l.key?
      else if c == ':' && (l.inFlow || startsSpace cs) then l.value?
      else if c == '|' && !l.inFlow then l.indented? .literal
      else if c == '>' && !l.inFlow then l.indented? .folded
      else if ['\t', '#', '|', '>', '%', '@', '\x60'].contains c then none
      else l.plain?

def tokens? : Nat → Layout → Option (List Token)
  | 0, _ => none
  | fuel + 1, l => do
    let l ← l.skipGap?
    if l.cursor.rest.isEmpty then return (← (l.closeBlocks (-1)).dropKey?).tokens.reverse
    else (← l.token?).tokens? fuel

end Layout

def tokens? (text : List Char) : Option (List Token) :=
  (Layout.start text).tokens? (text.length + 1)

end LeadSheet.Yaml
