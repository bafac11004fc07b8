/-!
# Lines

A line ends at a line feed, which a carriage return may precede. What follows the last line feed is
a line only if it is not empty.
-/

namespace LeadSheet.Text
set_option autoImplicit false

/-- The pieces between line feeds, one more than there are line feeds. -/
def splitLineFeeds : List Char → List (List Char)
  | [] => [[]]
  | '\n' :: cs => [] :: splitLineFeeds cs
  | c :: cs =>
    match splitLineFeeds cs with
    | [] => [[c]]
    | l :: ls => (c :: l) :: ls

def dropReturn (line : List Char) : List Char :=
  if line.getLast? = some '\r' then line.dropLast else line

/-- The text has a carriage return removed only where a line feed followed it. -/
def lines (cs : List Char) : List (List Char) :=
  let pieces := splitLineFeeds cs
  let last := pieces.getLast?.getD []
  pieces.dropLast.map dropReturn ++ if last.isEmpty then [] else [last]

end LeadSheet.Text
