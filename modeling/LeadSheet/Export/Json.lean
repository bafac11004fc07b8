import LeadSheet.Decimal.Layout

/-!
# JSON text

JSON values and their indented text: two spaces for each level, a space after a colon, characters as
they are except for quotes, backslashes and controls. A number that is not finite has no JSON form
and is written as null.
-/

namespace LeadSheet.Export
set_option autoImplicit false

inductive Json
  | null
  | whole (n : Int)
  | number (x : Float)
  | text (s : String)
  | list (items : List Json)
  | record (fields : List (String × Json))

namespace Json

/-- Numbers in JSON: a whole number shows its point, and the point may stand up to sixteen digits to
the right of the first digit or five to the left. -/
def layout : Decimal.Layout := ⟨.even, true, fun point => -5 < point && point ≤ 16⟩

def escapeChar (c : Char) : List Char :=
  match c with
  | '"' => ['\\', '"']
  | '\\' => ['\\', '\\']
  | '\n' => ['\\', 'n']
  | '\r' => ['\\', 'r']
  | '\t' => ['\\', 't']
  | '\x08' => ['\\', 'b']
  | '\x0c' => ['\\', 'f']
  | c =>
    if c.toNat < 32 then
      let digits := Nat.toDigits 16 c.toNat
      ['\\', 'u', '0', '0'] ++ List.replicate (2 - digits.length) '0' ++ digits
    else [c]

def quote (s : String) : List Char := '"' :: s.toList.flatMap escapeChar ++ ['"']

def newline (depth : Nat) : List Char := '\n' :: List.replicate (2 * depth) ' '

mutual

def write (depth : Nat) : Json → List Char
  | .null => "null".toList
  | .whole n => (toString n).toList
  | .number x => if x.isFinite then (layout.write x).toList else "null".toList
  | .text s => quote s
  | .list [] => ['[', ']']
  | .list (x :: xs) =>
    '[' :: newline (depth + 1) ++ write (depth + 1) x ++ writeItems (depth + 1) xs ++
      newline depth ++ [']']
  | .record [] => ['{', '}']
  | .record ((k, x) :: fields) =>
    '{' :: newline (depth + 1) ++ quote k ++ ':' :: ' ' :: write (depth + 1) x ++
      writeFields (depth + 1) fields ++ newline depth ++ ['}']

def writeItems (depth : Nat) : List Json → List Char
  | [] => []
  | x :: xs => ',' :: newline depth ++ write depth x ++ writeItems depth xs

def writeFields (depth : Nat) : List (String × Json) → List Char
  | [] => []
  | (k, x) :: fields =>
    ',' :: newline depth ++ quote k ++ ':' :: ' ' :: write depth x ++ writeFields depth fields

end

def pretty (x : Json) : String := String.ofList (write 0 x)

end Json

end LeadSheet.Export
