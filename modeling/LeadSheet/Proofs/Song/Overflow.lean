import LeadSheet.Proofs.Scalar.Word
import LeadSheet.Song.Overflow

/-!
# Sheets in a build

A build has the sheet of a song or stops at an overflow, unless the song has no sheet at all. Where
words hold the bars of a sheet, every build keeps them as they are; elsewhere a checked build stops,
and an unchecked one keeps what is left of them.
-/

namespace LeadSheet
set_option autoImplicit false

variable {α : Type} [Scalar α]

theorem Row.keepBar_of_checked (h : Scalar.buildOf α = .checked) (row : Row α) :
    row.keepBar = row := by
  rw [keepBar, Scalar.bar_of_checked h]

theorem Row.keepBar_of_holds {row : Row α} (h : Word64.holds row.bar = true) :
    row.keepBar = row := by
  rw [keepBar, Scalar.bar_of_holds h]

theorem Row.keepBar_renumber_keepBar (offset : Int) (row : Row α) :
    (row.keepBar.renumber offset).keepBar = (row.renumber offset).keepBar := by
  have hBar : Scalar.bar α (Scalar.bar α row.bar + offset) = Scalar.bar α (row.bar + offset) :=
    Scalar.bar_bar_add row.bar offset
  rw [keepBar, keepBar, keepBar, renumber, renumber, hBar]

/-- A checked build stops at the first row for whose new bar there is no word. -/
theorem Row.mapM_shiftBar (offset : Int) (rows : List (Row α)) :
    rows.mapM (shiftBar offset) =
      if Scalar.buildOf α = .checked ∧
          (rows.all fun row => Word64.holds (row.bar + offset)) = false then .error .overflow
      else .ok (rows.map fun row => (row.renumber offset).keepBar) := by
  induction rows with
  | nil =>
    rw [List.all_nil, if_neg fun h => Bool.noConfusion h.2]
    rfl
  | cons row rows ih =>
    rw [List.mapM_cons, ih, shiftBar, List.all_cons]
    cases hRow : Word64.holds (row.bar + offset) with
    | true =>
      rw [if_neg fun h => Bool.noConfusion h.2, Bool.true_and]
      split <;> rfl
    | false =>
      cases hBuild : Scalar.buildOf α with
      | checked => rfl
      | unchecked =>
        have hGoes {p : Prop} : ¬(Build.unchecked = .checked ∧ p) := fun h => nomatch h.1
        simp only [if_neg hGoes]
        rfl

namespace Sheet

variable {isLive : Bool} {r : Recording α} {words : Option (List (Word α))} {s : Settings α}

theorem keepBars_of_checked (h : Scalar.buildOf α = .checked) (sheet : Sheet α) :
    sheet.keepBars = sheet := by
  have hRows : sheet.rows.map Row.keepBar = sheet.rows :=
    List.map_id'' (Row.keepBar_of_checked h) sheet.rows
  rw [keepBars, hRows]

theorem keepBars_of_holds {sheet : Sheet α}
    (h : (sheet.rows.all fun row => Word64.holds row.bar) = true) : sheet.keepBars = sheet := by
  have hRow : ∀ row ∈ sheet.rows, row.keepBar = row :=
    fun row hRow => Row.keepBar_of_holds (List.all_eq_true.mp h row hRow)
  rw [keepBars, List.map_congr_left hRow, List.map_id']

theorem run_of_error {fault : Error α} (h : ofSong isLive r words s = .error fault) :
    run isLive r words s = .error fault := by
  rw [run, h]
  rfl

theorem run_of_ok {sheet : Sheet α} (h : ofSong isLive r words s = .ok sheet) :
    run isLive r words s =
      if sheet.overflows isLive r words s then .error .overflow else .ok sheet.keepBars := by
  rw [run, h]
  rfl

theorem overflows_of_unchecked (h : Scalar.buildOf α = .unchecked) (sheet : Sheet α) :
    sheet.overflows isLive r words s = !(ChordTrack.ticks r s).all Word64.holdsNat := by
  rw [overflows, h]
  exact Bool.or_false _

theorem overflows_eq_false_iff {sheet : Sheet α} : sheet.overflows isLive r words s = false ↔
    (ChordTrack.ticks r s).all Word64.holdsNat = true ∧ (Scalar.buildOf α = .checked →
      (placedBars isLive r words s).all Word64.holds = true ∧
        (sheet.rows.all fun row => Word64.holds row.bar) = true) := by
  simp only [overflows, Bool.or_eq_false_iff, Bool.not_eq_false', Bool.and_eq_false_imp,
    decide_eq_true_eq, List.all_append, Bool.and_eq_true, List.all_map]
  rfl

end Sheet

end LeadSheet
