/-!
# UTF-8

Bytes read as text. A lead byte says how many continuation bytes it is owed and the range of the
first of them, the others being 0x80 to 0xbf. Each longest run of bytes that starts a character
and does not finish it reads as U+FFFD; `decode?` refuses such a run instead.
-/

namespace LeadSheet.Text
set_option autoImplicit false

/-- A character being read: what its bytes so far make, and what may follow. -/
structure Partial where
  value : Nat
  owed : Nat
  low : Nat
  high : Nat

namespace Partial

/-- What the first byte of a character starts; a byte below 0x80 is no such byte. -/
def start? (b : Nat) : Option Partial :=
  if 0xc2 ≤ b ∧ b ≤ 0xdf then some ⟨b - 0xc0, 1, 0x80, 0xbf⟩
  else if b = 0xe0 then some ⟨0, 2, 0xa0, 0xbf⟩
  else if b = 0xed then some ⟨0xd, 2, 0x80, 0x9f⟩
  else if 0xe1 ≤ b ∧ b ≤ 0xef then some ⟨b - 0xe0, 2, 0x80, 0xbf⟩
  else if b = 0xf0 then some ⟨0, 3, 0x90, 0xbf⟩
  else if 0xf1 ≤ b ∧ b ≤ 0xf3 then some ⟨b - 0xf0, 3, 0x80, 0xbf⟩
  else if b = 0xf4 then some ⟨4, 3, 0x80, 0x8f⟩
  else none

def push? (p : Partial) (b : Nat) : Option Partial :=
  if p.low ≤ b ∧ b ≤ p.high then some ⟨p.value * 64 + (b - 0x80), p.owed - 1, 0x80, 0xbf⟩
  else none

end Partial

/-- What the bytes hold: characters, and runs that are no character. -/
def decodeUnits : Option Partial → List Nat → List (Option Char)
  | none, [] => []
  | some _, [] => [none]
  | none, b :: bs =>
    if b < 0x80 then some (Char.ofNat b) :: decodeUnits none bs
    else
      match Partial.start? b with
      | some p => decodeUnits (some p) bs
      | none => none :: decodeUnits none bs
  | some p, b :: bs =>
    match p.push? b with
    | some q =>
      if q.owed = 0 then some (Char.ofNat q.value) :: decodeUnits none bs
      else decodeUnits (some q) bs
    | none =>
      none ::
        if b < 0x80 then some (Char.ofNat b) :: decodeUnits none bs
        else
          match Partial.start? b with
          | some q => decodeUnits (some q) bs
          | none => none :: decodeUnits none bs

/-- The text with U+FFFD for what is no character. -/
def decodeLossy (bytes : List UInt8) : List Char :=
  (decodeUnits none (bytes.map UInt8.toNat)).map fun unit => unit.getD '\ufffd'

def decode? (bytes : List UInt8) : Option (List Char) :=
  (decodeUnits none (bytes.map UInt8.toNat)).mapM id

end LeadSheet.Text
