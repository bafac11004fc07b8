import LeadSheet.Scalar
import LeadSheet.Text.Digit

/-!
# Digits of time stamps

Time stamps are found by their decimal digits, of whatever script. Only ASCII digits have a value;
a field with any other reads as nought.
-/

namespace LeadSheet.Lyric
set_option autoImplicit false

variable {α : Type} [Scalar α]

/-- A run of `least` to `most` digits at the start of a text, and what follows the run. -/
def scanField? (least most : Nat) (cs : List Char) : Option (List Char × List Char) :=
  let digits := cs.takeWhile Text.isDigit
  if least ≤ digits.length ∧ digits.length ≤ most then
    some (digits, cs.dropWhile Text.isDigit)
  else none

theorem length_scanField?_le {least most : Nat} {cs digits rest : List Char}
    (h : scanField? least most cs = some (digits, rest)) : rest.length ≤ cs.length := by
  simp only [scanField?] at h
  split at h
  · obtain ⟨_, rfl⟩ := Prod.mk.injEq .. ▸ Option.some.inj h
    exact (List.dropWhile_sublist _).length_le
  · simp at h

/-- What follows a character that must come first. -/
def scanChar? (c : Char) : List Char → Option (List Char)
  | [] => none
  | d :: cs => if d = c then some cs else none

theorem length_scanChar?_lt {c : Char} {cs rest : List Char} (h : scanChar? c cs = some rest) :
    rest.length < cs.length := by
  cases cs with
  | nil => simp [scanChar?] at h
  | cons d ds =>
    simp only [scanChar?] at h
    split at h
    · simp_all
    · simp at h

def whole (digits : List Char) : α := Scalar.ofNat ((Text.natOfDigits? digits).getD 0)

def fraction (digits : List Char) : α :=
  match Text.natOfDigits? digits with
  | some n => OfScientific.ofScientific n true digits.length
  | none => 0

end LeadSheet.Lyric
