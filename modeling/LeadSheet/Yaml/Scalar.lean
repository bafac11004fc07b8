import LeadSheet.Yaml.Number

/-!
# Scalars

A text, the way it is written and its tag. Only plain text can be anything but text; what it is
depends on what is asked of it.
-/

namespace LeadSheet.Yaml
set_option autoImplicit false

inductive Style
  | plain
  | quoted
  | literal
  | folded
  deriving DecidableEq

structure Scalar where
  style : Style
  tag : Option String
  text : String
  deriving DecidableEq

namespace Scalar

def missing : Scalar := ⟨.plain, none, ""⟩

def coreTag (kind : String) : String := "tag:yaml.org,2002:" ++ kind

/-- The text that may be a value of a kind: it is plain, or literal with the tag of the kind. -/
def textOf? (kind : String) (s : Scalar) : Option (List Char) :=
  match s.style with
  | .plain => some s.text.toList
  | .literal => if s.tag = some (coreTag kind) then some s.text.toList else none
  | _ => none

def bool? (s : Scalar) : Option Bool := do
  let text := String.ofList (← s.textOf? "bool")
  if ["true", "True", "TRUE"].contains text then some true
  else if ["false", "False", "FALSE"].contains text then some false
  else none

def intWithin? (low high : Int) (s : Scalar) : Option Int := do
  let i ← signed? (← s.textOf? "int")
  if low ≤ i ∧ i ≤ high then some i else none

/-- A whole number up to `high`, which has no minus sign even when it is 0. -/
def natUpTo? (high : Nat) (s : Scalar) : Option Nat := do
  let n ← unsigned? (← s.textOf? "int")
  if n ≤ high then some n else none

def float? (s : Scalar) : Option Float := do double? (← s.textOf? "float")

def namesNull (s : Scalar) : Bool := ["~", "null", "Null", "NULL"].contains s.text

/-- Whether there is no text and no quotes around it. -/
def isMissing (s : Scalar) : Bool := s.style = .plain && s.text.isEmpty

/-- Whether plain text says that there is no value, whatever its tag. -/
def isNothing (s : Scalar) : Bool := s.style = .plain && (s.text.isEmpty || s.namesNull)

/-- Nothing, or what `read` makes of the scalar. Where a tag says that there is nothing, so must the
text; any other tag says that there is something. -/
def optional? {β : Type} (read : Scalar → Option β) (s : Scalar) : Option (Option β) :=
  match s.tag with
  | none => if s.isNothing then some none else (read s).map some
  | some tag =>
    if s.style = .plain ∧ tag = coreTag "null" then if s.namesNull then some none else none
    else (read s).map some

/-- The name of one of several choices, which is the text or, where that says nothing, a tag of the
document's own. -/
def choice? (s : Scalar) : Option String :=
  match s.tag.map String.toList with
  | some ('!' :: name) =>
    if s.isNothing then some (if name.isEmpty then "!" else String.ofList name) else none
  | _ => some s.text

end Scalar

end LeadSheet.Yaml
