import LeadSheet.Lyric.Chords
import LeadSheet.Proofs.Order.Bisect
import LeadSheet.Proofs.Order.Latest
import LeadSheet.Proofs.Order.Runs
import LeadSheet.Proofs.Scalar.Number

/-!
# Chords by scanning

The chord over a word can be looked for without sorting. Of the chord rows that have started by the
word, the one that started last has the chord, of equal starts the one listed last; and only the row
that starts last of all can have run out.
-/

namespace LeadSheet.Lyric
set_option autoImplicit false

variable {α : Type} [Scalar α]

def startsBy (r s : Row α) : Bool := Scalar.atMost r.time s.time

def hasStarted (t : α) (row : Row α) : Bool := row.time ≤ t + 1e-9

/-- A row without a duration is never over. -/
def isOver (t : α) (row : Row α) : Bool := row.dur.any (row.time + · ≤ t)

def chordsOf (rows : List (Row α)) : List (Row α) := rows.filter (·.kind = .chord)

def scanChord [DecidableEq α] (rows : List (Row α)) (t : α) : String :=
  match Order.greatest? startsBy ((chordsOf rows).filter (hasStarted t)) with
  | none => Chord.noChord
  | some c =>
    if Order.greatest? startsBy (chordsOf rows) = some c ∧ isOver t c then Chord.noChord
    else c.chord.getD Chord.noChord

structure HasFiniteTimes (row : Row α) : Prop where
  time : Scalar.IsFinite row.time
  dur : ∀ dur ∈ row.dur, Scalar.IsFinite dur

instance (row : Row α) : Decidable (HasFiniteTimes row) :=
  decidable_of_iff (Scalar.IsFinite row.time ∧ ∀ dur ∈ row.dur, Scalar.IsFinite dur)
    ⟨fun h => ⟨h.1, h.2⟩, fun h => ⟨h.time, h.dur⟩⟩

theorem mem_chordsInTime {rows : List (Row α)} {c : Row α} :
    c ∈ chordsInTime rows ↔ c ∈ rows ∧ c.kind = .chord := by
  rw [chordsInTime, List.mem_mergeSort, List.mem_filter, decide_eq_true_eq]

theorem soundingAt?_of_bisect {chords : List (Row α)} {t : α} {n : Nat}
    (hStarted : Order.bisect (hasStarted t) chords = n + 1) :
    soundingAt? chords t =
      (chords[n]?).filter fun c => n + 1 < chords.length || lastsBeyond t c := by
  have hStarted : Order.bisect (fun c : Row α => c.time ≤ t + 1e-9) chords = n + 1 := hStarted
  unfold soundingAt?
  rw [hStarted]

theorem soundingAt?_of_split {front back : List (Row α)} {c : Row α} {t : α}
    (hFront : ∀ r ∈ front ++ [c], hasStarted t r = true)
    (hBack : ∀ r ∈ back, hasStarted t r = false) :
    soundingAt? (front ++ c :: back) t =
      if back = [] ∧ lastsBeyond t c = false then none else some c := by
  have hStarted : Order.bisect (hasStarted t) (front ++ c :: back) = front.length + 1 := by
    rw [List.append_cons, Order.bisect_append hFront hBack, List.length_append,
      List.length_singleton]
  rw [soundingAt?_of_bisect hStarted]
  cases back with
  | nil => cases hLasts : lastsBeyond t c <;> simp [hLasts]
  | cons r rest => simp

theorem soundingAt?_of_none {chords : List (Row α)} {t : α}
    (hNone : ∀ r ∈ chords, hasStarted t r = false) : soundingAt? chords t = none := by
  have hStarted : Order.bisect (hasStarted t) ([] ++ chords) = ([] : List (Row α)).length :=
    Order.bisect_append (List.forall_mem_nil _) hNone
  have hStarted : Order.bisect (fun c : Row α => c.time ≤ t + 1e-9) chords = 0 := hStarted
  unfold soundingAt?
  rw [hStarted]

section Order

variable [Scalar.LawfulOrder α]

theorem startsBy_trans (r s u : Row α) (hrs : startsBy r s = true) (hsu : startsBy s u = true) :
    startsBy r u = true :=
  Scalar.atMost_trans hrs hsu

theorem startsBy_total (r s : Row α) : (startsBy r s || startsBy s r) = true :=
  Scalar.atMost_total r.time s.time

theorem pairwise_chordsInTime (rows : List (Row α)) :
    (chordsInTime rows).Pairwise fun r s => startsBy r s = true :=
  List.pairwise_mergeSort startsBy_trans startsBy_total _

theorem greatest?_filter_chordsOf (p : Row α → Bool) (rows : List (Row α)) :
    Order.greatest? startsBy ((chordsOf rows).filter p) =
      ((chordsInTime rows).filter p).getLast? := by
  rw [Order.greatest?_eq_getLast? startsBy_trans startsBy_total,
    ← Order.filter_mergeSort startsBy_trans startsBy_total]
  rfl

theorem greatest?_chordsOf (rows : List (Row α)) :
    Order.greatest? startsBy (chordsOf rows) = (chordsInTime rows).getLast? :=
  Order.greatest?_eq_getLast? startsBy_trans startsBy_total _

end Order

section Numbers

variable [Scalar.LawfulNumbers α]

theorem HasFiniteTimes.isNumber_time {c : Row α} (hc : HasFiniteTimes c) :
    Scalar.isNumber c.time = true :=
  Scalar.LawfulNumbers.isNumber_of_isFinite hc.time

theorem pairwise_hasStarted {rows : List (Row α)} (t : α)
    (hRows : ∀ c ∈ rows, c.kind = .chord → HasFiniteTimes c) :
    (chordsInTime rows).Pairwise fun r s => hasStarted t s = true → hasStarted t r = true := by
  apply (pairwise_chordsInTime rows).imp_of_mem
  intro r s hr hs hrs hStarted
  obtain ⟨hr, hrKind⟩ := mem_chordsInTime.mp hr
  obtain ⟨hs, hsKind⟩ := mem_chordsInTime.mp hs
  have hTime := Scalar.LawfulNumbers.le_of_atMost (hRows r hr hrKind).isNumber_time
    (hRows s hs hsKind).isNumber_time hrs
  exact decide_eq_true (Scalar.LawfulNumbers.le_trans hTime (of_decide_eq_true hStarted))

theorem lastsBeyond_eq_not_isOver {c : Row α} {t : α} (hc : HasFiniteTimes c)
    (ht : Scalar.IsFinite t) : lastsBeyond t c = !isOver t c := by
  unfold lastsBeyond isOver
  cases hDur : c.dur with
  | none => rfl
  | some dur =>
    have hStop := Scalar.LawfulNumbers.isNumber_add hc.time (hc.dur dur hDur)
    have hStart := Scalar.LawfulNumbers.isNumber_of_isFinite ht
    simp [← Scalar.LawfulNumbers.not_lt hStart hStop]

/-- Bisection in the sorted rows stops where the scan does. -/
theorem soundingAt?_chordsInTime [DecidableEq α] {rows : List (Row α)} {t : α}
    (hRows : ∀ c ∈ rows, c.kind = .chord → HasFiniteTimes c) (ht : Scalar.IsFinite t) :
    ((soundingAt? (chordsInTime rows) t).bind (·.chord)).getD Chord.noChord =
      scanChord rows t := by
  unfold scanChord
  rw [greatest?_filter_chordsOf, greatest?_chordsOf]
  by_cases hSome : ∃ c ∈ chordsInTime rows, hasStarted t c = true
  · obtain ⟨front, c, back, hSplit, hFront, hc, hBack⟩ :=
      Order.exists_last_split (pairwise_hasStarted t hRows) hSome
    have hFinite : HasFiniteTimes c := by
      have hMem : c ∈ chordsInTime rows := by
        rw [hSplit]
        exact List.mem_append_right front List.mem_cons_self
      obtain ⟨hMem, hKind⟩ := mem_chordsInTime.mp hMem
      exact hRows c hMem hKind
    -- `c` comes last of all exactly when nothing is left that starts after the time
    have hLast : (front ++ c :: back).getLast? = some c ↔ back = [] := by
      cases hRest : back.getLast? with
      | none => simp [List.getLast?_eq_none_iff.mp hRest]
      | some r =>
        have hr := List.mem_of_getLast? hRest
        have hne : r ≠ c := fun h => hBack r hr (h ▸ hc)
        simp [List.getLast?_append, List.getLast?_cons, hRest, hne, List.ne_nil_of_mem hr]
    rw [hSplit, Order.getLast?_filter_append_cons hc hBack,
      soundingAt?_of_split (by simpa [or_imp, forall_and] using ⟨hFront, hc⟩)
        (by simpa using hBack), lastsBeyond_eq_not_isOver hFinite ht]
    simp only [hLast, Bool.not_eq_false']
    split <;> rfl
  · have hNone : ∀ c ∈ chordsInTime rows, hasStarted t c = false := by
      intro c hc
      exact Bool.eq_false_iff.mpr fun hStarted => hSome ⟨c, hc, hStarted⟩
    rw [soundingAt?_of_none hNone, List.filter_eq_nil_iff.mpr (by simpa using hNone)]
    rfl

theorem attachChords_eq_scan [DecidableEq α] {rows chordRows : List (Row α)}
    (hChords : ∀ c ∈ chordRows, c.kind = .chord → HasFiniteTimes c)
    (hRows : ∀ row ∈ rows, Scalar.IsFinite row.start) :
    attachChords rows chordRows = rows.map fun row =>
      if row.kind = .chord ∨ row.chord.isSome then row
      else { row with chord := some (scanChord chordRows row.start) } := by
  apply List.map_congr_left
  intro row hRow
  rw [attachChord, soundingAt?_chordsInTime hChords (hRows row hRow)]

/-- Chord rows that are not in order, and words over the first and where the last has run out. -/
theorem attachChords_eq_scan_unordered :
    let chordRows : List (Row Float) :=
      [{ Row.blank .chord 2 1 4 2 with chord := some "G", dur := some 2 },
        { Row.blank .chord 1 1 0 0 with chord := some "C", dur := some 2 }]
    let rows : List (Row Float) := [Row.blank .lyric 1 4 3 1.5, Row.blank .lyric 3 1 8 4]
    (∀ c ∈ chordRows, c.kind = .chord → HasFiniteTimes c) ∧
      (∀ row ∈ rows, Scalar.IsFinite row.start) ∧
      (attachChords rows chordRows).map (·.chord) = [some "C", some "N.C."] := by
  intro chordRows rows
  have hChords : ∀ c ∈ chordRows, c.kind = .chord → HasFiniteTimes c := by decide +kernel
  have hRows : ∀ row ∈ rows, Scalar.IsFinite row.start := by decide +kernel
  refine ⟨hChords, hRows, ?_⟩
  rw [attachChords_eq_scan hChords hRows]
  decide +kernel

end Numbers

end LeadSheet.Lyric
