import Mathlib.Algebra.Order.Floor.Ring
import Mathlib.Data.List.TakeWhile
import Mathlib.Tactic.Linarith
import Mathlib.Tactic.NormNum
import LeadSheet.Export.Timecode
import LeadSheet.Lyric.Lrc
import LeadSheet.Lyric.Vtt
import LeadSheet.Proofs.Scalar.Exact
import LeadSheet.Proofs.Text.Digit

/-!
# Time stamps read back

A stamp splits a whole number of parts of a second into fields. Each field is found by its digits and
has its number for a value, so the stamp reads back as the time rounded to those parts, as long as
its first field is not wider than readers take.
-/

namespace LeadSheet
set_option autoImplicit false

/-- A time to the nearest of so many parts of a second, not before zero. -/
def Export.nearestPart (parts : Nat) (t : Rat) : Rat := (⌊max t 0 * parts + 1 / 2⌋₊ : Rat) / parts

theorem Export.partsOf_eq_floor (parts : Nat) (t : Rat) :
    partsOf (parts : Rat) t = ⌊max t 0 * parts + 1 / 2⌋₊ := by
  have hNonneg : 0 ≤ max t 0 * (parts : Rat) := mul_nonneg (le_max_right t 0) parts.cast_nonneg
  change Scalar.toNat (Scalar.round (Scalar.larger t 0 * (parts : Rat))) = _
  rw [Scalar.larger_eq_max, Scalar.round_eq_floor hNonneg, Scalar.toNat_eq_floor, Int.floor_intCast]
  rfl

theorem Export.nearestPart_eq (parts : Nat) (t : Rat) :
    nearestPart parts t = (partsOf (parts : Rat) t : Rat) / parts := by
  rw [nearestPart, partsOf_eq_floor]

namespace Lyric

open Export

def IsField (least most : Nat) (cs : List Char) : Prop :=
  (∀ c ∈ cs, Text.isDigit c = true) ∧ least ≤ cs.length ∧ cs.length ≤ most

theorem scanField?_eq_some_iff {least most : Nat} {cs digits rest : List Char} :
    scanField? least most cs = some (digits, rest) ↔
      IsField least most digits ∧ cs = digits ++ rest ∧
        ∀ c ∈ rest.head?, Text.isDigit c = false := by
  constructor
  · intro h
    simp only [scanField?] at h
    split at h
    · rename_i hLength
      cases h
      refine ⟨⟨fun c hc => List.mem_takeWhile_imp hc, hLength⟩,
        List.takeWhile_append_dropWhile.symm, ?_⟩
      intro c hc
      have hHead := List.head?_dropWhile_not Text.isDigit cs
      rw [hc] at hHead
      exact hHead
    · cases h
  · rintro ⟨⟨hDigits, hLength⟩, rfl, hRest⟩
    have hTake : rest.takeWhile Text.isDigit = [] := by
      cases rest with
      | nil => rfl
      | cons c rest => exact List.takeWhile_cons_of_neg (by simp [hRest c rfl])
    have hDrop : rest.dropWhile Text.isDigit = rest := by
      cases rest with
      | nil => rfl
      | cons c rest => exact List.dropWhile_cons_of_neg (by simp [hRest c rfl])
    rw [scanField?, List.takeWhile_append_of_pos hDigits, List.dropWhile_append_of_pos hDigits,
      hTake, hDrop, List.append_nil]
    exact if_pos hLength

theorem scanChar?_eq_some_iff {c : Char} {cs rest : List Char} :
    scanChar? c cs = some rest ↔ cs = c :: rest := by
  cases cs with
  | nil => simp [scanChar?]
  | cons d cs => simp [scanChar?, eq_comm]

theorem scanField?_padded {width n least most : Nat} {rest : List Char} (hMost : 0 < most)
    (hn : n < 10 ^ most) (hLeast : least ≤ width) (hWidth : width ≤ most)
    (hRest : ∀ c ∈ rest.head?, Text.isDigit c = false) :
    scanField? least most ((padded width n).toList ++ rest) =
      some ((padded width n).toList, rest) := by
  have hLength := (Nat.length_toDigits_le_iff (b := 10) (by decide) hMost).mpr hn
  have hPadded := length_padded width n
  rw [scanField?_eq_some_iff]
  refine ⟨⟨?_, by omega, by omega⟩, rfl, hRest⟩
  intro c hc
  exact Text.isDigit_of_isDigit (isDigit_of_mem_padded hc)

theorem head?_cons_not_digit {c : Char} (hc : Text.isDigit c = false) (cs : List Char) :
    ∀ d ∈ (c :: cs).head?, Text.isDigit d = false := by
  simp [hc]

theorem whole_padded (width n : Nat) : (whole (padded width n).toList : Rat) = n := by
  rw [whole, natOfDigits?_padded]
  rfl

theorem fraction_padded {width n : Nat} (hWidth : 0 < width) (hn : n < 10 ^ width) :
    (fraction (padded width n).toList : Rat) = n / 10 ^ width := by
  have hDecimal : (OfScientific.ofScientific n true width : Rat) = n / 10 ^ width := by
    change Rat.ofScientific n true width = _
    rw [Rat.ofScientific_true_def, Rat.mkRat_eq_div]
    push_cast
    rfl
  rw [fraction, natOfDigits?_padded, length_padded_of_lt hWidth hn]
  exact hDecimal

theorem scanPair?_padded {n : Nat} {rest : List Char} (hn : n < 100)
    (hRest : ∀ c ∈ rest.head?, Text.isDigit c = false) :
    scanPair? (':' :: ((padded 2 n).toList ++ rest)) = some ((padded 2 n).toList, rest) := by
  simp only [scanPair?, scanChar?, if_true, Option.bind_eq_bind, Option.bind_some]
  exact scanField?_padded (by decide) hn (le_refl 2) (le_refl 2) hRest

theorem scanMillis?_padded {n : Nat} (hn : n < 1000) (rest : List Char) :
    scanMillis? ('.' :: ((padded 3 n).toList ++ rest)) = some ((n : Rat) / 1000, rest) := by
  have hLength : (padded 3 n).toList.length = 3 := length_padded_of_lt (by decide) hn
  have hDigits : (padded 3 n).toList.all Text.isDigit = true := by
    rw [List.all_eq_true]
    intro c hc
    exact Text.isDigit_of_isDigit (isDigit_of_mem_padded hc)
  have hFraction : (fraction (padded 3 n).toList : Rat) = n / 1000 := by
    rw [fraction_padded (by decide) hn]
    norm_num
  simp only [scanMillis?]
  rw [List.take_left' hLength, List.drop_left' hLength, if_pos ⟨hLength, hDigits⟩, hFraction]

/-- Hours, minutes, seconds and milliseconds make up all the milliseconds. -/
theorem fields_of_millis (ms : Nat) :
    ((ms / 3600000 : Nat) : Rat) * 3600 + ((ms / 60000 % 60 : Nat) : Rat) * 60 +
      ((ms / 1000 % 60 : Nat) : Rat) + ((ms % 1000 : Nat) : Rat) / 1000 = (ms : Rat) / 1000 := by
  have hSplit : ms / 3600000 * 3600000 + ms / 60000 % 60 * 60000 + ms / 1000 % 60 * 1000 +
      ms % 1000 = ms := by omega
  have hCast : ((ms / 3600000 : Nat) : Rat) * 3600000 + ((ms / 60000 % 60 : Nat) : Rat) * 60000 +
      ((ms / 1000 % 60 : Nat) : Rat) * 1000 + ((ms % 1000 : Nat) : Rat) = ms := by
    exact_mod_cast hSplit
  linarith

theorem toList_vttStamp (t : Rat) :
    (vttStamp t).toList =
      (padded 2 (partsOf 1000 t / 3600000)).toList ++
        ':' :: ((padded 2 (partsOf 1000 t / 60000 % 60)).toList ++
          ':' :: ((padded 2 (partsOf 1000 t / 1000 % 60)).toList ++
            '.' :: (padded 3 (partsOf 1000 t % 1000)).toList)) := by
  simp [vttStamp, String.toList_append]

theorem scanStamp?_vttStamp {t : Rat} (h : nearestPart 1000 t < 360000) (rest : List Char) :
    scanStamp? ((vttStamp t).toList ++ rest) = some (nearestPart 1000 t, rest) := by
  rw [nearestPart_eq] at h ⊢
  push_cast at h ⊢
  have hMillis : partsOf (1000 : Rat) t < 360000000 := by
    rw [div_lt_iff₀ (by norm_num)] at h
    have hCast : (partsOf (1000 : Rat) t : Rat) < (360000000 : Nat) := by
      push_cast
      linarith
    exact_mod_cast hCast
  rw [toList_vttStamp, ← fields_of_millis]
  generalize partsOf (1000 : Rat) t = ms at hMillis
  have hHours : scanHours? ((padded 2 (ms / 3600000)).toList ++ ':' ::
      ((padded 2 (ms / 60000 % 60)).toList ++ ':' :: ((padded 2 (ms / 1000 % 60)).toList ++
        '.' :: ((padded 3 (ms % 1000)).toList ++ rest)))) =
      some (((ms / 3600000 : Nat) : Rat) * 3600 + ((ms / 60000 % 60 : Nat) : Rat) * 60 +
        ((ms / 1000 % 60 : Nat) : Rat) + ((ms % 1000 : Nat) : Rat) / 1000, rest) := by
    have hColon := head?_cons_not_digit (c := ':') rfl
    have hPoint := head?_cons_not_digit (c := '.') rfl
    rw [scanHours?, scanField?_padded (by decide) (by omega) (by decide) (by decide) (hColon _)]
    simp only [Option.bind_eq_bind, Option.bind_some]
    rw [scanPair?_padded (by omega) (hColon _)]
    simp only [Option.bind_some]
    rw [scanPair?_padded (by omega) (hPoint _)]
    simp only [Option.bind_some]
    rw [scanMillis?_padded (by omega)]
    simp only [Option.bind_some, whole_padded]
  simp only [List.append_assoc, List.cons_append]
  rw [scanStamp?, hHours]
  rfl

/-- Minutes, seconds and hundredths make up all the hundredths. -/
theorem fields_of_hundredths (n : Nat) :
    ((n / 6000 : Nat) : Rat) * 60 + ((n / 100 % 60 : Nat) : Rat) + ((n % 100 : Nat) : Rat) / 100 =
      (n : Rat) / 100 := by
  have hSplit : n / 6000 * 6000 + n / 100 % 60 * 100 + n % 100 = n := by omega
  have hCast : ((n / 6000 : Nat) : Rat) * 6000 + ((n / 100 % 60 : Nat) : Rat) * 100 +
      ((n % 100 : Nat) : Rat) = n := by
    exact_mod_cast hSplit
  linarith

theorem toList_lrcTag (t : Rat) :
    (lrcTag t).toList =
      '[' :: ((padded 2 (partsOf 100 t / 6000)).toList ++
        ':' :: ((padded 2 (partsOf 100 t / 100 % 60)).toList ++
          '.' :: ((padded 2 (partsOf 100 t % 100)).toList ++ [']']))) := by
  simp [lrcTag, String.toList_append]

theorem scanTagEnd?_padded {n : Nat} (hn : n < 100) (rest : List Char) :
    scanTagEnd? ('.' :: ((padded 2 n).toList ++ ']' :: rest)) = some ((n : Rat) / 100, rest) := by
  have hBracket := head?_cons_not_digit (c := ']') rfl rest
  have hFraction : (fraction (padded 2 n).toList : Rat) = n / 100 := by
    rw [fraction_padded (by decide) hn]
    norm_num
  simp only [scanTagEnd?]
  rw [scanField?_padded (by decide) (by omega) (by decide) (by decide) hBracket]
  simp only [Option.bind_eq_bind, Option.bind_some, scanChar?, if_true, hFraction]

theorem scanTag?_lrcTag {t : Rat} (h : nearestPart 100 t < 60000) (rest : List Char) :
    scanTag? ((lrcTag t).toList ++ rest) = some (nearestPart 100 t, rest) := by
  rw [nearestPart_eq] at h ⊢
  push_cast at h ⊢
  have hHundredths : partsOf (100 : Rat) t < 6000000 := by
    rw [div_lt_iff₀ (by norm_num)] at h
    have hCast : (partsOf (100 : Rat) t : Rat) < (6000000 : Nat) := by
      push_cast
      linarith
    exact_mod_cast hCast
  rw [toList_lrcTag, ← fields_of_hundredths]
  generalize partsOf (100 : Rat) t = n at hHundredths
  simp only [List.append_assoc, List.cons_append, List.nil_append]
  have hColon := head?_cons_not_digit (c := ':') rfl
  have hPoint := head?_cons_not_digit (c := '.') rfl
  simp only [scanTag?, scanChar?, if_true, Option.bind_eq_bind, Option.bind_some]
  rw [scanField?_padded (by decide) (by omega) (by decide) (by decide) (hColon _)]
  simp only [if_true, Option.bind_some]
  rw [scanField?_padded (by decide) (by omega) (by decide) (by decide) (hPoint _)]
  simp only [Option.bind_some]
  rw [scanTagEnd?_padded (by omega)]
  simp only [Option.bind_some, whole_padded]

end Lyric

end LeadSheet
