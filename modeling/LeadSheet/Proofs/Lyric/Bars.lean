import Mathlib.Data.List.Sort
import LeadSheet.Lyric.Bars
import LeadSheet.Proofs.Order.Runs
import LeadSheet.Proofs.Text.Blank

/-!
# Which bars have a row of words

Words are joined by bars, so no bar has two rows; and a bar has one when some word in it is not
blank, whatever stands between words.
-/

namespace LeadSheet
set_option autoImplicit false

variable {α : Type}

/-- The row's lyric has a character that is not blank. -/
def Row.HasText (row : Row α) : Prop :=
  ∃ text ∈ row.lyric, ∃ c ∈ text.toList, Text.isBlank c = false

instance (row : Row α) : Decidable row.HasText :=
  decidable_of_iff ((row.lyric.any fun text => text.toList.any (!Text.isBlank ·)) = true)
    (by cases hLyric : row.lyric <;> simp [Row.HasText, hLyric])

theorem Text.intercalate_eq_empty_iff {texts : List String} (h : ∀ text ∈ texts, text ≠ "")
    (joiner : String) : String.intercalate joiner texts = "" ↔ texts = [] := by
  cases texts with
  | nil => simp
  | cons text texts =>
    have hNe := h text List.mem_cons_self
    cases texts with
    | nil => simp [hNe]
    | cons next texts => simp [String.intercalate_cons_cons, hNe]

namespace Aligner

theorem isSome_shownLyric?_iff (row : Row α) : (shownLyric? row).isSome = true ↔ row.HasText := by
  rw [shownLyric?, Row.HasText]
  cases row.lyric with
  | none => simp
  | some text =>
    have hTrimmed := not_congr (Text.isEmpty_trimmed_iff text)
    push Not at hTrimmed
    simpa [Option.isSome_filter] using hTrimmed

theorem ne_empty_of_shownLyric? {row : Row α} {text : String} (h : shownLyric? row = some text) :
    text ≠ "" := by
  have hShown := (Option.filter_eq_some_iff.mp h).2
  rintro rfl
  cases hShown

variable [Scalar α]

theorem isSome_barRow?_iff (a : Aligner α) (joiner : String) (bar : Int) (words : List (Row α)) :
    (a.barRow? joiner bar words).isSome = true ↔ ∃ row ∈ words, row.HasText := by
  have hTexts : ∀ text ∈ words.filterMap shownLyric?, text ≠ "" := by
    intro text hText
    obtain ⟨row, _, hShown⟩ := List.mem_filterMap.mp hText
    exact ne_empty_of_shownLyric? hShown
  have hJoined := Text.intercalate_eq_empty_iff hTexts joiner
  rw [barRow?]
  simp only [← isSome_shownLyric?_iff]
  split
  · rename_i hEmpty
    have hNone := hJoined.mp (String.isEmpty_iff.mp hEmpty)
    rw [List.filterMap_eq_nil_iff] at hNone
    simp +contextual [hNone]
  · rename_i hText
    have hSome := mt hJoined.mpr (mt String.isEmpty_iff.mpr hText)
    rw [List.filterMap_eq_nil_iff] at hSome
    push Not at hSome
    obtain ⟨row, hRow, hShown⟩ := hSome
    exact ⟨fun _ => ⟨row, hRow, Option.isSome_iff_ne_none.mpr hShown⟩, fun _ => rfl⟩

theorem bar_kind_of_barRow? {a : Aligner α} {joiner : String} {bar : Int} {words : List (Row α)}
    {row : Row α} (h : a.barRow? joiner bar words = some row) :
    row.bar = bar ∧ row.kind = .lyricBar := by
  rw [barRow?] at h
  split at h
  · cases h
  · cases h
    exact ⟨rfl, rfl⟩

theorem bars_groupByBar (a : Aligner α) (joiner : String) (rows : List (Row α)) :
    (a.groupByBar joiner rows).map (·.bar) =
      (barsOf rows).filter fun bar => (a.barRow? joiner bar (wordsOf rows bar)).isSome := by
  rw [groupByBar, List.map_filterMap, ← List.filterMap_eq_filter]
  refine List.filterMap_congr fun bar _ => ?_
  cases hRow : a.barRow? joiner bar (wordsOf rows bar) with
  | none => simp [Option.guard_apply, hRow]
  | some row => simp [hRow, (bar_kind_of_barRow? hRow).1]

omit [Scalar α] in
theorem pairwise_barsOf (rows : List (Row α)) : (barsOf rows).Pairwise (· < ·) := by
  have hSorted := List.pairwise_mergeSort' (· ≤ ·) ((rows.filter (·.kind = .lyric)).map (·.bar))
  exact Order.pairwise_lt_keepLast (· == ·) (fun _ _ => beq_iff_eq) hSorted

omit [Scalar α] in
theorem mem_barsOf {rows : List (Row α)} {bar : Int} :
    bar ∈ barsOf rows ↔ ∃ row ∈ rows, row.kind = .lyric ∧ row.bar = bar := by
  rw [barsOf, Order.mem_keepLast fun _ _ => eq_of_beq, List.mem_mergeSort]
  simp [and_assoc]

theorem mem_wordsOf {rows : List (Row α)} {bar : Int} {row : Row α} :
    row ∈ wordsOf rows bar ↔ row ∈ rows ∧ row.kind = .lyric ∧ row.bar = bar := by
  rw [wordsOf, List.mem_mergeSort, List.mem_filter]
  simp

/-- A bar has a row of words when some word in it is not blank. -/
theorem mem_bars_groupByBar {a : Aligner α} {joiner : String} {rows : List (Row α)} {bar : Int} :
    bar ∈ (a.groupByBar joiner rows).map (·.bar) ↔
      ∃ row ∈ rows, row.kind = .lyric ∧ row.bar = bar ∧ row.HasText := by
  rw [bars_groupByBar, List.mem_filter, isSome_barRow?_iff, mem_barsOf]
  simp only [mem_wordsOf]
  constructor
  · rintro ⟨_, row, ⟨hRow, hKind, hBar⟩, hText⟩
    exact ⟨row, hRow, hKind, hBar, hText⟩
  · rintro ⟨row, hRow, hKind, hBar, hText⟩
    exact ⟨⟨row, hRow, hKind, hBar⟩, row, ⟨hRow, hKind, hBar⟩, hText⟩

theorem pairwise_bar_groupByBar (a : Aligner α) (joiner : String) (rows : List (Row α)) :
    (a.groupByBar joiner rows).Pairwise fun r s => r.bar < s.bar := by
  have hBars := (pairwise_barsOf rows).filter fun bar =>
    (a.barRow? joiner bar (wordsOf rows bar)).isSome
  rw [← bars_groupByBar] at hBars
  exact List.pairwise_map.mp hBars

/-- No bar has two rows of words. -/
theorem nodup_bars_groupByBar (a : Aligner α) (joiner : String) (rows : List (Row α)) :
    ((a.groupByBar joiner rows).map (·.bar)).Nodup :=
  List.pairwise_map.mpr ((pairwise_bar_groupByBar a joiner rows).imp fun hlt => hlt.ne)

theorem kind_of_mem_groupByBar {a : Aligner α} {joiner : String} {rows : List (Row α)} {row : Row α}
    (h : row ∈ a.groupByBar joiner rows) : row.kind = .lyricBar := by
  obtain ⟨bar, _, hRow⟩ := List.mem_filterMap.mp h
  exact (bar_kind_of_barRow? hRow).2

end Aligner

end LeadSheet
