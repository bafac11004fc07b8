import LeadSheet.Scalar

/-!
# Time codes

Times as text, in whole milliseconds or hundredths. A time below zero is written as zero, and a
field grows when its number does.
-/

namespace LeadSheet.Export
set_option autoImplicit false

variable {α : Type} [Scalar α]

def padded (width n : Nat) : String :=
  let digits := Nat.toDigits 10 n
  String.ofList (List.replicate (width - digits.length) '0' ++ digits)

def partsOf (parts : α) (t : α) : Nat :=
  Scalar.toNat (Scalar.round (Scalar.larger t 0 * parts))

def timecode (t : α) : String :=
  let ms := partsOf 1000 t
  padded 2 (ms / 60000) ++ ":" ++ padded 2 (ms / 1000 % 60) ++ "." ++ padded 3 (ms % 1000)

def vttStamp (t : α) : String :=
  let ms := partsOf 1000 t
  padded 2 (ms / 3600000) ++ ":" ++ padded 2 (ms / 60000 % 60) ++ ":" ++
    padded 2 (ms / 1000 % 60) ++ "." ++ padded 3 (ms % 1000)

def lrcTag (t : α) : String :=
  let cs := partsOf 100 t
  "[" ++ padded 2 (cs / 6000) ++ ":" ++ padded 2 (cs / 100 % 60) ++ "." ++
    padded 2 (cs % 100) ++ "]"

end LeadSheet.Export
