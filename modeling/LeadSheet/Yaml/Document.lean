import LeadSheet.Yaml.Layout
import LeadSheet.Yaml.Node

/-!
# Documents

The node that a text with one document says. A node that has a name can be said again behind it. The
number that bounds the recursion comes from the tokens, of which each step uses up some.
-/

namespace LeadSheet.Yaml
set_option autoImplicit false

/-- Tokens that are still to be read, and what those before them have named. -/
structure Reading where
  tokens : List Token
  nodes : List (String × Node)
  /-- What handles of tags are short for. -/
  handles : List (String × String)

/-- Where a node stands: in brackets, in a block, or as an entry of a block of keys, where a list
may start without a column of its own. -/
inductive Place
  | flow
  | block
  | entry
  deriving DecidableEq

namespace Reading

def behind (r : Reading) (tokens : List Token) : Reading := { r with tokens }

def next? (r : Reading) (p : Token → Bool) : Bool := r.tokens.head?.any p

def tagText? (r : Reading) (tag : ShortTag) : Option String := do
  if tag.handle.isEmpty then some tag.rest else some ((← r.handles.lookup tag.handle) ++ tag.rest)

def properties? (r : Reading) : Option (Option String × Option String × Reading) :=
  match r.tokens with
  | .named name :: .tag tag :: rest | .tag tag :: .named name :: rest => do
    return (name, ← r.tagText? tag, r.behind rest)
  | .named name :: rest => some (name, none, r.behind rest)
  | .tag tag :: rest => do return (none, ← r.tagText? tag, r.behind rest)
  | _ => some (none, none, r)

def remember (r : Reading) (name : Option String) (n : Node) : Reading :=
  match name with
  | none => r
  | some name => { r with nodes := (name, n) :: r.nodes }

def nextInFlow? (first : Bool) (close : Token → Bool) (r : Reading) : Option Reading :=
  match r.tokens with
  | .comma :: rest => if first then some r else some (r.behind rest)
  | token :: _ => if first || close token then some r else none
  | [] => none

mutual

/-- A node with its name and tag, or one said again. A tag of one exclamation mark on a scalar says
nothing. -/
def node? : Nat → Place → Reading → Option (Node × Reading)
  | 0, _, _ => none
  | fuel + 1, place, r =>
    match r.tokens with
    | .again name :: rest => do return (← r.nodes.lookup name, r.behind rest)
    | _ => do
      let (name, tag, r) ← r.properties?
      let (node, r) ←
        match r.tokens, place with
        | .item :: _, .entry => flushItems? fuel r |>.map fun (items, r) => (.list items, r)
        | .scalar style text :: rest, _ =>
          some (.scalar ⟨style, tag.filter (· != "!"), text⟩, r.behind rest)
        | .listOpen :: rest, _ =>
          flowItems? fuel true (r.behind rest) |>.map fun (items, r) => (.list items, r)
        | .mappingOpen :: rest, _ =>
          flowEntries? fuel true (r.behind rest) |>.map fun (entries, r) => (.mapping entries, r)
        | .blockList :: rest, .block | .blockList :: rest, .entry =>
          blockItems? fuel (r.behind rest) |>.map fun (items, r) => (.list items, r)
        | .blockMapping :: rest, .block | .blockMapping :: rest, .entry =>
          blockEntries? fuel (r.behind rest) |>.map fun (entries, r) => (.mapping entries, r)
        | _, _ =>
          if name.isSome || tag.isSome then some (.scalar ⟨.plain, tag, ""⟩, r) else none
      some (node, r.remember name node)

def nodeUnless? : Nat → (Token → Bool) → Place → Reading → Option (Node × Reading)
  | 0, _, _, _ => none
  | fuel + 1, ends, place, r =>
    if r.next? ends then some (.missing, r) else node? fuel place r

def flowValue? : Nat → Reading → Option (Node × Reading)
  | 0, _ => none
  | fuel + 1, r =>
    match r.tokens with
    | .value :: rest => nodeUnless? fuel Token.endsFlowEntry .flow (r.behind rest)
    | _ => some (.missing, r)

/-- The items up to a closing bracket. An item with a key is a mapping of one entry; a token that
stands in place of the key is passed over. -/
def flowItems? : Nat → Bool → Reading → Option (List Node × Reading)
  | 0, _, _ => none
  | fuel + 1, first, r => do
    let r ← r.nextInFlow? first fun | .listClose => true | _ => false
    match r.tokens with
    | .listClose :: rest => some ([], r.behind rest)
    | .key :: rest =>
      let (key, r) ←
        match rest with
        | .value :: rest | .comma :: rest | .listClose :: rest => some (.missing, r.behind rest)
        | _ => node? fuel .flow (r.behind rest)
      let (value, r) ← flowValue? fuel r
      let (items, r) ← flowItems? fuel false r
      some (.mapping [(key, value)] :: items, r)
    | _ =>
      let (item, r) ← node? fuel .flow r
      let (items, r) ← flowItems? fuel false r
      some (item :: items, r)

def flowEntries? : Nat → Bool → Reading → Option (List (Node × Node) × Reading)
  | 0, _, _ => none
  | fuel + 1, first, r => do
    let r ← r.nextInFlow? first fun | .mappingClose => true | _ => false
    match r.tokens with
    | .mappingClose :: rest => some ([], r.behind rest)
    | .key :: rest =>
      let ends : Token → Bool
        | .value | .comma | .mappingClose => true
        | _ => false
      let (key, r) ← nodeUnless? fuel ends .flow (r.behind rest)
      let (value, r) ← flowValue? fuel r
      let (entries, r) ← flowEntries? fuel false r
      some ((key, value) :: entries, r)
    | _ =>
      let (key, r) ← node? fuel .flow r
      let (entries, r) ← flowEntries? fuel false r
      some ((key, .missing) :: entries, r)

def blockItems? : Nat → Reading → Option (List Node × Reading)
  | 0, _ => none
  | fuel + 1, r =>
    match r.tokens with
    | .item :: rest => do
      let ends : Token → Bool
        | .item | .blockEnd => true
        | _ => false
      let (item, r) ← nodeUnless? fuel ends .block (r.behind rest)
      let (items, r) ← blockItems? fuel r
      some (item :: items, r)
    | .blockEnd :: rest => some ([], r.behind rest)
    | _ => none

/-- The items of a list at the column of the keys around it. -/
def flushItems? : Nat → Reading → Option (List Node × Reading)
  | 0, _ => none
  | fuel + 1, r =>
    match r.tokens with
    | .item :: rest => do
      let ends : Token → Bool
        | .item => true
        | token => token.endsEntry
      let (item, r) ← nodeUnless? fuel ends .block (r.behind rest)
      let (items, r) ← flushItems? fuel r
      some (item :: items, r)
    | _ => some ([], r)

def blockEntries? : Nat → Reading → Option (List (Node × Node) × Reading)
  | 0, _ => none
  | fuel + 1, r =>
    match r.tokens with
    | .key :: rest => do
      let (key, r) ← nodeUnless? fuel Token.endsEntry .entry (r.behind rest)
      let (value, r) ←
        match r.tokens with
        | .value :: rest => nodeUnless? fuel Token.endsEntry .entry (r.behind rest)
        | _ => some (.missing, r)
      let (entries, r) ← blockEntries? fuel r
      some ((key, value) :: entries, r)
    | .blockEnd :: rest => some ([], r.behind rest)
    | _ => none

end

end Reading

def coreHandles : List (String × String) := [("!", "!"), ("!!", "tag:yaml.org,2002:")]

/-- The handles that directives declare, and what follows the directives. A document is of version
1.1 or 1.2, and declares its version and each handle once. -/
def directives? (versioned : Bool) (handles : List (String × String)) :
    List Token → Option (List (String × String) × List Token)
  | .directive (.version major minor) :: rest =>
    if versioned || major != 1 || minor != 1 && minor != 2 then none
    else directives? true handles rest
  | .directive (.handle name start) :: rest =>
    if (handles.lookup name).isSome then none
    else directives? versioned ((name, start) :: handles) rest
  | tokens => some (handles, tokens)

/-- The node of the tokens of one document; none of them say nothing. Directives stand before a mark
of the start, and marks of the end may follow. -/
def ofTokens? (tokens : List Token) : Option Node := do
  let (handles, body) ← directives? false [] tokens
  let read? (tokens : List Token) : Option (Node × Reading) :=
    Reading.node? (4 * tokens.length + 8) .block ⟨tokens, [], handles ++ coreHandles⟩
  let (node, rest) ←
    match body with
    | .documentStart :: rest =>
      if rest.head?.all Token.isOutside then some (Node.missing, rest)
      else (read? rest).map fun (node, r) => (node, r.tokens)
    | [] => if tokens.isEmpty then some (Node.missing, []) else none
    | _ =>
      if body.length == tokens.length then (read? body).map fun (node, r) => (node, r.tokens)
      else none
  if rest.all fun | .documentEnd => true | _ => false then some node else none

def isAllowed (c : Char) : Bool :=
  let n := c.toNat
  ['\t', '\n', '\r', '\u0085'].contains c || 0x20 ≤ n && n ≤ 0x7e || 0xa0 ≤ n && n ≤ 0xfffd ||
    0x10000 ≤ n

/-- The node of a text with one document; an empty one says nothing. A byte order mark in front is
no part of the text. -/
def read? (text : List Char) : Option Node := do
  let text := if text.head? = some '\ufeff' then text.drop 1 else text
  if text.all isAllowed then ofTokens? (← tokens? text) else none

end LeadSheet.Yaml
