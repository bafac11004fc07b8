import LeadSheet.Decimal.Shortest

/-!
# Decimal layouts

How the shortest digits of a double are laid out as text. A `Layout` holds the choices of one
format; `Layout.write` is the same for all.
-/

namespace LeadSheet.Decimal
set_option autoImplicit false

structure Layout where
  tie : Tie
  /-- A whole number ends in `.0`. -/
  pointZero : Bool
  /-- Whether the point may stand in full when it follows this many digits. -/
  positional : Int → Bool

def zeros (n : Nat) : List Char := List.replicate n '0'

def positionalChars (d : Decimal) (pointZero : Bool) : List Char :=
  let digits := Nat.toDigits 10 d.coefficient
  let point := digits.length + d.exponent
  if 0 ≤ d.exponent then
    digits ++ zeros d.exponent.toNat ++ if pointZero then ['.', '0'] else []
  else if 0 < point then
    digits.take point.toNat ++ '.' :: digits.drop point.toNat
  else
    '0' :: '.' :: zeros (-point).toNat ++ digits

def scientificChars (d : Decimal) : List Char :=
  let digits := Nat.toDigits 10 d.coefficient
  let power := digits.length + d.exponent - 1
  let mantissa :=
    match digits with
    | first :: second :: more => first :: '.' :: second :: more
    | _ => digits
  mantissa ++ 'e' :: (toString power).toList

namespace Layout

def magnitudeChars (l : Layout) (d : Decimal) : List Char :=
  if l.positional ((Nat.toDigits 10 d.coefficient).length + d.exponent) then
    positionalChars d l.pointZero
  else scientificChars d

def write (l : Layout) (x : Float) : String :=
  let sign := if Binary64.isNegative x then "-" else ""
  if x.isNaN then "NaN"
  else if x.isInf then sign ++ "inf"
  else
    let magnitude := Binary64.ofFloat x
    let decimal := if magnitude.significand = 0 then ⟨0, 0⟩ else magnitude.shortest l.tie
    sign ++ String.ofList (l.magnitudeChars decimal)

/-- Numbers in prose and in columns: never an exponent, and no point in a whole number. -/
def plain : Layout := ⟨.up, false, fun _ => true⟩

end Layout

end LeadSheet.Decimal
