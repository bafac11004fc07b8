import Mathlib.Order.Bounds.Basic
import LeadSheet.Proofs.Form.Signature
import LeadSheet.Proofs.Order.Runs
import LeadSheet.Proofs.Scalar.Exact

/-!
# The bars that a row lasts into

A chord row sounds in its own bar and in every later one whose downbeat it lasts beyond. The
signatures have one entry for each bar up to the last that a row stands in or a sounding row lasts
into, and an entry lists the chords of the sounding rows that last into its bar.
-/

namespace LeadSheet.Form
set_option autoImplicit false

section Sounds

variable {α : Type}

def chordName (row : Row α) : String := Text.trimmed (row.chord.getD "")

/-- A chord row from bar 1 on that says a chord and not that there is none, in whatever case. -/
@[mk_iff]
structure Sounds (row : Row α) : Prop where
  kind : row.kind = .chord
  bar_pos : 1 ≤ row.bar
  named : chordName row ≠ ""
  heard : (chordName row).toList.map Char.toLower ≠ Chord.noChord.toList.map Char.toLower

instance : DecidablePred (Sounds (α := α)) := fun row => decidable_of_iff _ (sounds_iff row).symm

theorem soundingChord?_eq (row : Row α) :
    soundingChord? row = if Sounds row then some (chordName row) else none := by
  unfold soundingChord?
  cases hKind : row.kind with
  | chord =>
    cases hChord : row.chord with
    | none =>
      have hEmpty : chordName row = "" := by rw [chordName, hChord]; rfl
      rw [if_neg fun h => h.named hEmpty]
    | some label =>
      have hName : Text.trimmed label = chordName row := by rw [chordName, hChord]; rfl
      simp only [hName, sounds_iff, hKind]
      split_ifs <;> simp_all
      omega
  | _ => rw [if_neg fun h => by simp [h.kind] at hKind]

end Sounds

variable {beatsPerBar : Rat}

/-- The row's own bar, or a later one in which the row still lasts. -/
def LastsInto (beatsPerBar : Rat) (b : Int) (row : Row Rat) : Prop :=
  b = row.bar ∨ row.bar < b ∧ 0 < row.durBeats.getD 0 ∧
    (b - row.bar) * beatsPerBar ≤ row.beat - 1 + row.durBeats.getD 0 - 1 / 10 ^ 9

instance (b : Int) : DecidablePred (LastsInto beatsPerBar b) := fun row =>
  inferInstanceAs (Decidable (b = row.bar ∨ row.bar < b ∧ 0 < row.durBeats.getD 0 ∧
    (b - row.bar) * beatsPerBar ≤ row.beat - 1 + row.durBeats.getD 0 - 1 / 10 ^ 9))

theorem extraBars_eq (row : Row Rat) : extraBars beatsPerBar row =
    if 0 < row.durBeats.getD 0 then
      ⌊(row.beat - 1 + row.durBeats.getD 0 - 1 / 10 ^ 9) / beatsPerBar⌋.toNat
    else 0 := by
  have hSmall : (1e-9 : Rat) = 1 / 10 ^ 9 := by norm_num
  have hFloor (n : Int) : ⌊max (n : Rat) 0⌋.toNat = n.toNat := by
    rw [← Int.cast_zero, ← Int.cast_max, Int.floor_intCast]
    omega
  unfold extraBars
  simp only [Scalar.larger_eq_max, Scalar.toNat_eq_floor, Scalar.floor_eq_floor]
  rw [← hSmall]
  generalize row.durBeats.getD 0 = held
  change (if 0 < max held 0 then
    ⌊max (⌊(row.beat - 1 + max held 0 - 1e-9) / beatsPerBar⌋ : Rat) 0⌋.toNat else 0) = _
  rw [hFloor]
  by_cases hHeld : 0 < held
  · rw [max_eq_left hHeld.le]
  · rw [max_eq_right (not_lt.mp hHeld), if_neg (lt_irrefl 0), if_neg hHeld]

theorem reaches_iff_lastsInto (h : 0 < beatsPerBar) {row : Row Rat} (hBar : 1 ≤ row.bar)
    (b : Nat) : Reaches beatsPerBar b row ↔ LastsInto beatsPerBar b row := by
  obtain ⟨n, hn⟩ := Int.eq_ofNat_of_zero_le (a := row.bar) (by omega)
  rw [Reaches, LastsInto, extraBars_eq, hn, Int.toNat_natCast]
  generalize row.durBeats.getD 0 = held
  split_ifs with hHeld
  · have hReach (k : Int) : n ≤ b ∧ b ≤ n + k.toNat ↔
        (b : Int) = n ∨ (n : Int) < b ∧ (b - n : Int) ≤ k := by omega
    rw [hReach, Int.le_floor, le_div_iff₀ h, and_iff_right hHeld]
    push_cast
    rfl
  · have hOwn : n ≤ b ∧ b ≤ n + 0 ↔ (b : Int) = n := by omega
    simp only [hOwn, hHeld, false_and, and_false, or_false]

theorem chordIn?_eq (h : 0 < beatsPerBar) (b : Nat) (row : Row Rat) :
    chordIn? beatsPerBar b row =
      if Sounds row ∧ LastsInto beatsPerBar b row then some (chordName row) else none := by
  rw [chordIn?, soundingChord?_eq]
  by_cases hSounds : Sounds row
  · simp only [hSounds, reaches_iff_lastsInto h hSounds.bar_pos, if_true, true_and]
  · simp only [hSounds, if_false, false_and, ite_self]

theorem filterMap_chordIn? (h : 0 < beatsPerBar) (b : Nat) (rows : List (Row Rat)) :
    rows.filterMap (chordIn? beatsPerBar b) =
      (rows.filter fun row => Sounds row ∧ LastsInto beatsPerBar b row).map chordName := by
  induction rows with
  | nil => rfl
  | cons row rows ih =>
    rw [List.filterMap_cons, chordIn?_eq h, List.filter_cons, ih]
    by_cases hLasts : Sounds row ∧ LastsInto beatsPerBar b row
    · simp only [hLasts, and_self, if_true, decide_true, List.map_cons]
    · simp only [hLasts, if_false, decide_false, Bool.false_eq_true]

theorem isGreatest_length_barSignatures (h : 0 < beatsPerBar) (rows : List (Row Rat)) :
    IsGreatest
      ({0} ∪ {n : Int | ∃ row ∈ rows, n = row.bar ∨ Sounds row ∧ LastsInto beatsPerBar n row})
      (barSignatures rows beatsPerBar).length := by
  have hLength {n : Nat} : (barSignatures rows beatsPerBar).length ≤ n ↔ _ :=
    length_barSignatures_le_iff h
  simp only [soundingChord?_eq, apply_ite Option.isSome, Option.isSome_some, Option.isSome_none,
    Bool.if_false_right, Bool.and_true, decide_eq_true_eq] at hLength
  generalize (barSignatures rows beatsPerBar).length = n at *
  have hBound := hLength.mp le_rfl
  constructor
  · cases n with
    | zero => exact .inl rfl
    | succ m =>
      have hMore := mt hLength.mpr (Nat.not_succ_le_self m)
      push Not at hMore
      obtain ⟨row, hRow, hLast⟩ := hMore
      refine .inr ⟨row, hRow, ?_⟩
      obtain ⟨hOwn, hReach⟩ := hBound row hRow
      by_cases hBar : row.bar.toNat ≤ m
      · obtain ⟨hSounds, hMore⟩ := hLast hBar
        have hReach := hReach hSounds
        exact .inr ⟨hSounds, (reaches_iff_lastsInto h hSounds.bar_pos (m + 1)).mp
          ⟨by omega, by omega⟩⟩
      · exact .inl (by omega)
  · rintro k (rfl | ⟨row, hRow, rfl | ⟨hSounds, hLasts⟩⟩)
    · exact Int.natCast_nonneg n
    · have hOwn := (hBound row hRow).1
      omega
    · have hReach := (hBound row hRow).2 hSounds
      obtain hNeg | ⟨b, rfl⟩ : k < 0 ∨ ∃ b : Nat, k = b := by
        obtain hNeg | hPos := lt_or_ge k 0
        · exact .inl hNeg
        · exact .inr ⟨k.toNat, by omega⟩
      · omega
      · have hLe := ((reaches_iff_lastsInto h hSounds.bar_pos b).mpr hLasts).2
        omega

/-- The signatures have a bar for each row and for each bar that a sounding row lasts into, up to
the last of these, and a bar lists the chords of the sounding rows that last into it in the order of
the rows, equal neighbours once. -/
theorem barSignatures_lastsInto (h : 0 < beatsPerBar) (rows : List (Row Rat)) :
    IsGreatest
        ({0} ∪ {n : Int | ∃ row ∈ rows, n = row.bar ∨ Sounds row ∧ LastsInto beatsPerBar n row})
        (barSignatures rows beatsPerBar).length ∧
      ∀ (i : Nat) (hi : i < (barSignatures rows beatsPerBar).length),
        (barSignatures rows beatsPerBar)[i] = String.intercalate " "
          (((rows.filter fun row => Sounds row ∧ LastsInto beatsPerBar (i + 1) row).map
            chordName).destutter (· ≠ ·)) := by
  refine ⟨isGreatest_length_barSignatures h rows, fun i hi => ?_⟩
  rw [← List.getD_eq_getElem _ "" hi, getD_barSignatures rows h, Order.keepFirst_eq_destutter,
    filterMap_chordIn? h]
  rfl

/-- Rows out of order: one that lasts into the next bar and ends on the line after it, one that says
there is no chord, a repeated one and one that has no place on the grid. -/
theorem barSignatures_lastsInto_held :
    let rows : List (Row Rat) := [
      { Row.blank .chord 2 1 4 2 with chord := some "G", durBeats := some 4 },
      { Row.blank .chord 1 3 2 1 with chord := some " C ", durBeats := some 6 },
      { Row.blank .chord 1 1 0 0 with chord := some "n.c.", durBeats := some 16 },
      { Row.blank .chord 2 3 6 3 with chord := some "C" },
      { Row.blank .chord 0 1 0 0 with chord := some "F", durBeats := some 16 }]
    (0 : Rat) < 4 ∧
      IsGreatest ({0} ∪ {n : Int | ∃ row ∈ rows, n = row.bar ∨ Sounds row ∧ LastsInto 4 n row}) 2 ∧
      (barSignatures rows 4)[1]? = some "G C" := by
  intro rows
  have hBeats : (0 : Rat) < 4 := by norm_num
  obtain ⟨hLength, hEntries⟩ := barSignatures_lastsInto hBeats rows
  have hTwo : (barSignatures rows 4).length = 2 := by decide +kernel
  rw [hTwo] at hLength
  refine ⟨hBeats, hLength, ?_⟩
  have hIn : 1 < (barSignatures rows 4).length := by rw [hTwo]; exact Nat.one_lt_two
  rw [List.getElem?_eq_getElem hIn, hEntries 1 hIn]
  decide +kernel

end LeadSheet.Form
