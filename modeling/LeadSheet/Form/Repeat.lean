/-!
# Repeated blocks

The windows of bars that occur more than once. Occurrences may overlap, and a window without any
chord is none. Blocks stand in the order of their frequency, the earlier first among equals, so
their order is fixed by the signatures alone.
-/

namespace LeadSheet.Form
set_option autoImplicit false

structure Block where
  window : List String
  /-- The bars, counted from 0, at which its occurrences start. -/
  starts : List Nat
  deriving Repr, DecidableEq

namespace Block

def count (b : Block) : Nat := b.starts.length

def first (b : Block) : Nat := b.starts.headD 0

def atMost (b c : Block) : Bool :=
  c.count < b.count || b.count == c.count && b.first ≤ c.first

end Block

/-- Windows and where they start, the latest start first. -/
abbrev Occurrences := List (List String × List Nat)

def addOccurrence (window : List String) (start : Nat) : Occurrences → Occurrences
  | [] => [(window, [start])]
  | (w, starts) :: others =>
    if w = window then (w, start :: starts) :: others
    else (w, starts) :: addOccurrence window start others

/-- The occurrences of all windows of `size` bars that hold a chord, in signatures of which the
first is that of the bar `start`. -/
def occurrencesFrom (size : Nat) (found : Occurrences) (start : Nat) :
    List String → Occurrences
  | [] => found
  | s :: signatures =>
    let window := (s :: signatures).take size
    if window.length < size then found
    else
      let found := if window.all String.isEmpty then found else addOccurrence window start found
      occurrencesFrom size found (start + 1) signatures

def occurrences (signatures : List String) (size : Nat) : Occurrences :=
  occurrencesFrom size [] 0 signatures

def repeatedBlocks (signatures : List String) (size minOccurs : Nat) : List Block :=
  if size = 0 then []
  else
    (((occurrences signatures size).filter fun found => max minOccurs 1 ≤ found.2.length).map
      fun found => Block.mk found.1 found.2.reverse).mergeSort Block.atMost

end LeadSheet.Form
