/-!
# Blanks

The characters that count as white space, and trimming. A zero-width space is not among them, and a
no-break space is.
-/

namespace LeadSheet.Text
set_option autoImplicit false

def isBlank (c : Char) : Bool :=
  let n := c.toNat
  9 ≤ n && n ≤ 13 || n == 32 || n == 0x85 || n == 0xa0 || n == 0x1680 ||
    0x2000 ≤ n && n ≤ 0x200a || n == 0x2028 || n == 0x2029 || n == 0x202f || n == 0x205f ||
    n == 0x3000

def trimStart (cs : List Char) : List Char := cs.dropWhile isBlank

def trimEnd (cs : List Char) : List Char := (cs.reverse.dropWhile isBlank).reverse

def trim (cs : List Char) : List Char := trimEnd (trimStart cs)

def trimmed (s : String) : String := String.ofList (trim s.toList)

/-- Each run of blanks written as one space. -/
def collapseBlanks : List Char → List Char
  | [] => []
  | [c] => [if isBlank c then ' ' else c]
  | c :: d :: cs =>
    if isBlank c then
      if isBlank d then collapseBlanks (d :: cs) else ' ' :: collapseBlanks (d :: cs)
    else c :: collapseBlanks (d :: cs)

end LeadSheet.Text
