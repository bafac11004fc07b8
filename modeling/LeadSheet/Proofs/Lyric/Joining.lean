import Mathlib.Data.List.Perm.Basic
import LeadSheet.Proofs.Lyric.Bars
import LeadSheet.Proofs.Order.Stable

/-!
# Words joined by bars

A bar's row joins the words of that bar and no others, in the order of their start. Every word that
is not blank stands in one row, as often as it is listed, whatever stands between the words and in
whatever order they are listed.
-/

namespace LeadSheet
set_option autoImplicit false

/-- Cutting a list up by a key gives all of it back. -/
theorem Order.perm_flatMap_filter {β κ : Type} [DecidableEq κ] (key : β → κ) {keys : List κ}
    (hNodup : keys.Nodup) {xs : List β} (hKeys : ∀ x ∈ xs, key x ∈ keys) :
    (keys.flatMap fun k => xs.filter (key · = k)).Perm xs := by
  induction keys generalizing xs with
  | nil =>
    have hNil := List.eq_nil_iff_forall_not_mem.mpr fun x hx => List.not_mem_nil (hKeys x hx)
    rw [hNil, List.flatMap_nil]
  | cons k keys ih =>
    obtain ⟨hFirst, hNodup⟩ := List.nodup_cons.mp hNodup
    have hRest : (keys.flatMap fun j => xs.filter (key · = j)) =
        keys.flatMap fun j => (xs.filter fun x => !decide (key x = k)).filter (key · = j) := by
      apply List.flatMap_congr
      intro j hj
      have hne : j ≠ k := fun h => hFirst (h ▸ hj)
      rw [List.filter_filter]
      apply List.filter_congr
      intro x _
      by_cases hx : key x = j <;> simp [hx, hne]
    rw [List.flatMap_cons, hRest]
    refine List.Perm.trans (List.Perm.append_left _ (ih hNodup ?_))
      (List.filter_append_perm (key · = k) xs)
    intro x hx
    obtain ⟨hx, hne⟩ := List.mem_filter.mp hx
    exact List.mem_of_ne_of_mem (by simpa using hne) (hKeys x hx)

namespace Aligner

variable {α : Type} [Scalar α]

def listedIn (rows : List (Row α)) (bar : Int) : List (Row α) :=
  rows.filter fun r => r.kind = .lyric && r.bar = bar

def sungBy (r s : Row α) : Bool := (Scalar.totalCmp r.start s.start).isLE

structure Joins (joiner : String) (words : List (Row α)) (line : Row α) : Prop where
  kind : line.kind = .lyricBar
  lyric : line.lyric = some (String.intercalate joiner
    (((words.filterMap (·.lyric)).map Text.trimmed).filter (!·.isEmpty)))
  chord : line.chord = ((words.filterMap (·.chord)).filter (!·.isEmpty)).head?

theorem joins_of_barRow? {a : Aligner α} {joiner : String} {bar : Int} {words : List (Row α)}
    {line : Row α} (h : a.barRow? joiner bar words = some line) : Joins joiner words line := by
  have hTexts : words.filterMap shownLyric? =
      ((words.filterMap (·.lyric)).map Text.trimmed).filter (!·.isEmpty) := by
    rw [List.map_filterMap, List.filter_filterMap]
    rfl
  rw [barRow?, hTexts] at h
  split at h
  · cases h
  · cases h
    exact ⟨rfl, rfl, List.head?_filter.symm⟩

theorem joins_of_mem_groupByBar {a : Aligner α} {joiner : String} {rows : List (Row α)}
    {line : Row α} (h : line ∈ a.groupByBar joiner rows) :
    Joins joiner (wordsOf rows line.bar) line := by
  obtain ⟨bar, _, hLine⟩ := List.mem_filterMap.mp h
  rw [(bar_kind_of_barRow? hLine).1]
  exact joins_of_barRow? hLine

theorem isStableSort_wordsOf_iff [Scalar.LawfulOrder α] {rows : List (Row α)} {bar : Int}
    {words : List (Row α)} :
    Order.IsStableSort sungBy (listedIn rows bar) words ↔ words = wordsOf rows bar := by
  apply Order.isStableSort_iff
  · exact fun _ _ => Scalar.atMost_total _ _
  · exact fun _ _ _ => Scalar.atMost_trans

/-- Rows of words have every word that is not blank, and none of them twice. -/
theorem perm_flatMap_groupByBar (a : Aligner α) (joiner : String) (rows : List (Row α)) :
    (((a.groupByBar joiner rows).flatMap fun line => wordsOf rows line.bar).filter
      fun r => r.HasText).Perm (rows.filter fun r => r.kind = .lyric && r.HasText) := by
  have hBars := nodup_bars_groupByBar a joiner rows
  have hWords : ∀ r ∈ rows.filter fun r => r.kind = .lyric && r.HasText,
      r.bar ∈ (a.groupByBar joiner rows).map (·.bar) := by
    intro r hr
    obtain ⟨hr, hWord⟩ := List.mem_filter.mp hr
    rw [Bool.and_eq_true, decide_eq_true_eq, decide_eq_true_eq] at hWord
    exact mem_bars_groupByBar.mpr ⟨r, hr, hWord.1, rfl, hWord.2⟩
  refine List.Perm.trans ?_ (Order.perm_flatMap_filter (·.bar) hBars hWords)
  rw [List.flatMap_map, List.filter_flatMap]
  apply List.Perm.flatMap_left
  intro line _
  refine ((List.mergeSort_perm _ _).filter _).trans (List.Perm.of_eq ?_)
  rw [List.filter_filter, List.filter_filter]
  apply List.filter_congr
  intro r _
  simp only [Bool.and_assoc, Bool.and_comm]

/-- Words are joined by bars. There is one row for each bar with a word that is not blank, in the
order of the bars. It joins the words of its bar in the order of their start, has the first chord
that one of them has, blank words too, and no word that is not blank is left out or taken twice. -/
theorem groupByBar_joins [Scalar.LawfulOrder α] (a : Aligner α) (joiner : String)
    (rows : List (Row α)) :
    ((a.groupByBar joiner rows).Pairwise fun r s => r.bar < s.bar) ∧
      (∀ bar, bar ∈ (a.groupByBar joiner rows).map (·.bar) ↔
        ∃ row ∈ rows, row.kind = .lyric ∧ row.bar = bar ∧ row.HasText) ∧
      ∃ words : Int → List (Row α),
        (∀ bar others, Order.IsStableSort sungBy (listedIn rows bar) others ↔
          others = words bar) ∧
        (∀ line ∈ a.groupByBar joiner rows, Joins joiner (words line.bar) line) ∧
        (((a.groupByBar joiner rows).flatMap fun line => words line.bar).filter
          fun r => r.HasText).Perm (rows.filter fun r => r.kind = .lyric && r.HasText) := by
  refine ⟨pairwise_bar_groupByBar a joiner rows, fun bar => mem_bars_groupByBar,
    wordsOf rows, fun bar others => isStableSort_wordsOf_iff, fun line => joins_of_mem_groupByBar,
    perm_flatMap_groupByBar a joiner rows⟩

/-- Words of two bars that are not in order, with a blank one and a chord row between them. -/
theorem groupByBar_joins_unordered :
    let a : Aligner Float := ⟨.constant 120, 4, 0, 4, 1.5, 0.95, by decide⟩
    let rows : List (Row Float) := [
      { Row.blank .lyric 2 1 4 2 with lyric := some "star" },
      { Row.blank .lyric 1 3 2 1 with lyric := some " little ", chord := some "G" },
      { Row.blank .chord 1 1 0 0 with chord := some "F" },
      { Row.blank .lyric 1 2 1 0.5 with lyric := some " ", chord := some "C" },
      { Row.blank .lyric 1 1 0 0 with lyric := some "twinkle" }]
    Scalar.LawfulOrder Float ∧ ∃ line ∈ a.groupByBar "-" rows, line.bar = 1 ∧
      line.lyric = some "twinkle-little" ∧ line.chord = some "C" := by
  intro a rows
  refine ⟨inferInstance, ?_⟩
  obtain ⟨-, hBars, words, hWords, hJoins, -⟩ := groupByBar_joins a "-" rows
  have hOne : ∃ row ∈ rows, row.kind = .lyric ∧ row.bar = 1 ∧ row.HasText :=
    ⟨_, List.mem_cons_of_mem _ List.mem_cons_self, rfl, rfl, by decide +kernel⟩
  obtain ⟨line, hLine, hBar⟩ := List.mem_map.mp ((hBars 1).mpr hOne)
  have hInTime : words 1 = [
      { Row.blank .lyric 1 1 0 0 with lyric := some "twinkle" },
      { Row.blank .lyric 1 2 1 0.5 with lyric := some " ", chord := some "C" },
      { Row.blank .lyric 1 3 2 1 with lyric := some " little ", chord := some "G" }] :=
    ((hWords 1 _).mp ⟨by decide +kernel, by decide +kernel, by decide +kernel⟩).symm
  obtain ⟨-, hLyric, hChord⟩ := hJoins line hLine
  rw [hBar, hInTime] at hLyric hChord
  refine ⟨line, hLine, hBar, ?_, ?_⟩
  · rw [hLyric]
    decide +kernel
  · rw [hChord]
    decide +kernel

end Aligner

end LeadSheet
