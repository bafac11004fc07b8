import LeadSheet.Yaml.Cursor
import LeadSheet.Yaml.Number

/-!
# Names in documents

Names of nodes that are to be said again, tags with the handles that shorten them, and the
directives before a document.
-/

namespace LeadSheet.Yaml
set_option autoImplicit false

def isNameChar (c : Char) : Bool := c.isAlphanum || c == '_' || c == '-'

/-- The name of a node and what follows it, which may not be part of another text. -/
def nodeName? (cs : List Char) : Option (String × List Char) :=
  let name := cs.takeWhile isNameChar
  let rest := cs.dropWhile isNameChar
  let ends := startsSpace rest ||
    ['?', ':', ',', ']', '}', '%', '@', '\x60'].any (rest.head? == some ·)
  if !name.isEmpty && ends then some (String.ofList name, rest) else none

def isTagChar (verbatim : Bool) (c : Char) : Bool :=
  isNameChar c || ";/?:@&=+$.!~*'()".toList.contains c ||
    verbatim && [',', '[', ']'].contains c

/-- The text of a tag and what follows it. A number after a percent sign is a character. -/
def tagText? (verbatim : Bool) : List Char → Option (List Char × List Char)
  | '%' :: high :: low :: cs => do
    let code := (← digit? 16 high) * 16 + (← digit? 16 low)
    let (text, rest) ← tagText? verbatim cs
    if code < 128 then some (Char.ofNat code :: text, rest) else none
  | c :: cs =>
    if isTagChar verbatim c then
      (tagText? verbatim cs).map fun (text, rest) => (c :: text, rest)
    else if c == '%' then none
    else some ([], c :: cs)
  | [] => some ([], [])

/-- A tag as it is written: the handle, which may be empty, and the rest of it. -/
structure ShortTag where
  handle : String
  rest : String

def shortTag? (inFlow : Bool) (cs : List Char) : Option (ShortTag × List Char) := do
  let name := cs.takeWhile isNameChar
  let (tag, after) ←
    match cs, cs.dropWhile isNameChar with
    | '<' :: cs, _ => do
      let (text, after) ← tagText? true cs
      if text.isEmpty || after.head? != some '>' then none
      else some (ShortTag.mk "" (String.ofList text), after.drop 1)
    | _, '!' :: cs => do
      let (text, after) ← tagText? false cs
      if text.isEmpty then none
      else some (ShortTag.mk (String.ofList ('!' :: name ++ ['!'])) (String.ofList text), after)
    | _, _ => do
      let (text, after) ← tagText? false cs
      if text.isEmpty then some (ShortTag.mk "" "!", after)
      else some (ShortTag.mk "!" (String.ofList text), after)
  if startsSpace after || inFlow && after.head? == some ',' then some (tag, after) else none

inductive Directive
  | version (major minor : Nat)
  | handle (name start : String)

/-- A number of at most nine digits and what follows it. -/
def versionPart? (cs : List Char) : Option (Nat × List Char) := do
  let number := cs.takeWhile Char.isDigit
  if 9 < number.length then none else some (← digits? 10 number, cs.dropWhile Char.isDigit)

def versionDirective? (cs : List Char) : Option (Directive × List Char) := do
  match ← versionPart? cs with
  | (major, '.' :: rest) =>
    let (minor, rest) ← versionPart? rest
    some (.version major minor, rest)
  | _ => none

/-- A handle, which is one exclamation mark or stands between two, and the text it is short for. -/
def handleDirective? : List Char → Option (Directive × List Char)
  | '!' :: cs => do
    let name := cs.takeWhile isNameChar
    let (handle, rest) ←
      match name, cs.dropWhile isNameChar with
      | name, '!' :: rest => some ('!' :: name ++ ['!'], rest)
      | [], rest => some (['!'], rest)
      | _, _ => none
    let (text, after) ← tagText? true (rest.dropWhile isBlank)
    if rest.head?.any isBlank && !text.isEmpty && startsSpace after then
      some (.handle (String.ofList handle) (String.ofList text), after)
    else none
  | _ => none

def directive? (cs : List Char) : Option (Directive × List Char) :=
  let rest := cs.dropWhile isNameChar
  let value := rest.dropWhile isBlank
  if !startsSpace rest then none
  else
    match String.ofList (cs.takeWhile isNameChar) with
    | "YAML" => versionDirective? value
    | "TAG" => handleDirective? value
    | _ => none

end LeadSheet.Yaml
