import LeadSheet.Proofs.Order.Latest
import LeadSheet.Proofs.Order.Together
import LeadSheet.Proofs.Scalar.Number
import LeadSheet.Proofs.Tempo.Line

/-!
# The segments of a tempo map

A map keeps every segment without a tick and the latest segment of every tick. An earlier segment of
the same tick goes only when it is the neighbour of a later one, so it stays when a segment of
another tick starts in between; and the latest is the one listed last only if the list says so.
-/

namespace LeadSheet
set_option autoImplicit false

variable {α : Type} [Scalar α]

namespace TempoSegment

theorem atMost_of_startTick_eq {s u : TempoSegment α} (h : s.startTick = u.startTick) :
    s.atMost u = Scalar.atMost s.start u.start := by
  rw [atMost, h]
  cases hCmp : Scalar.totalCmp s.start u.start <;> simp [Scalar.atMost, hCmp]

theorem startTick_eq_of_ties [Scalar.LawfulOrder α] {s u : TempoSegment α}
    (h : Order.ties atMost s u = true) : s.startTick = u.startTick := by
  rw [Order.ties, Bool.and_eq_true, atMost_eq_true_iff, atMost_eq_true_iff] at h
  obtain ⟨⟨hsu, hRank⟩, hus, hRank'⟩ := h
  have hRank : s.tickRank = u.tickRank := Nat.le_antisymm (hRank hus) (hRank' hsu)
  unfold tickRank at hRank
  cases hs : s.startTick <;> cases hu : u.startTick <;> simp_all

omit [Scalar α] in
theorem sameTick_iff {s u : TempoSegment α} :
    s.sameTick u = true ↔ s.startTick.isSome ∧ s.startTick = u.startTick := by
  rw [sameTick, Bool.and_eq_true, beq_iff_eq]

end TempoSegment

namespace TempoMap

theorem map_segment_follow (s : Stretch α) (segments : List (TempoSegment α)) :
    (follow s segments).map (·.segment) = segments := by
  induction segments generalizing s with
  | nil => rfl
  | cons u segments ih =>
    rw [follow, List.map_cons, ih]

def kept (segments : List (TempoSegment α)) : List (TempoSegment α) :=
  Order.keepLast TempoSegment.sameTick (segments.mergeSort TempoSegment.atMost)

theorem exists_segments_ofSegments {segments : List (TempoSegment α)} (h : segments ≠ []) :
    ∃ m, ofSegments segments = .ok m ∧ m.segments = kept segments := by
  obtain ⟨s, rest, hKept⟩ :=
    Order.exists_cons_keepLast_mergeSort TempoSegment.sameTick TempoSegment.atMost h
  refine ⟨⟨⟨s, 0⟩, follow ⟨s, 0⟩ rest⟩, by rw [ofSegments, ofSegments?, hKept], ?_⟩
  rw [kept, hKept, TempoMap.segments, stretches, List.map_cons, map_segment_follow]

/-- In the order of the map, no segment stands between two of a tick but those of the tick. -/
def IsUnbroken (segments : List (TempoSegment α)) (tick : Nat) : Prop :=
  ∀ s ∈ segments, ∀ u ∈ segments, ∀ v ∈ segments, s.startTick = some tick →
    v.startTick = some tick → s.atMost u = true → u.atMost v = true → u.startTick = some tick

instance (segments : List (TempoSegment α)) (tick : Nat) : Decidable (IsUnbroken segments tick) :=
  inferInstanceAs (Decidable (∀ s ∈ segments, ∀ u ∈ segments, ∀ v ∈ segments,
    s.startTick = some tick → v.startTick = some tick → s.atMost u = true → u.atMost v = true →
      u.startTick = some tick))

section Kept

variable (segments : List (TempoSegment α))

theorem filter_none_kept :
    ((kept segments).filter (·.startTick = none)).Perm (segments.filter (·.startTick = none)) := by
  rw [kept, Order.filter_keepLast_of_forall]
  · exact (List.mergeSort_perm segments TempoSegment.atMost).filter _
  · intro s u hs
    simp_all [TempoSegment.sameTick]

variable [Scalar.LawfulOrder α]

theorem getLast?_filter_kept (tick : Nat) :
    ((kept segments).filter (·.startTick = some tick)).getLast? =
      Order.greatest? TempoSegment.atMost (segments.filter (·.startTick = some tick)) := by
  rw [kept, Order.getLast?_filter_keepLast,
    Order.filter_mergeSort TempoSegment.atMost_trans TempoSegment.atMost_total,
    Order.greatest?_eq_getLast? TempoSegment.atMost_trans TempoSegment.atMost_total]
  intro s u hSame
  rw [(TempoSegment.sameTick_iff.mp hSame).2]

theorem length_filter_kept_le_one_iff (tick : Nat) :
    ((kept segments).filter (·.startTick = some tick)).length ≤ 1 ↔ IsUnbroken segments tick := by
  rw [kept, Order.length_filter_keepLast_le_one_iff, Order.together_mergeSort_iff
    TempoSegment.atMost_trans TempoSegment.atMost_total]
  · simp only [decide_eq_true_eq]
    rfl
  · intro s u hTies
    rw [TempoSegment.startTick_eq_of_ties hTies]
  · intro s u hSame
    rw [(TempoSegment.sameTick_iff.mp hSame).2]
  · intro s u hs hu
    simp_all [TempoSegment.sameTick]

theorem filter_kept_eq_singleton_iff {tick : Nat} {last : TempoSegment α}
    (hLast : (segments.filter (·.startTick = some tick)).getLast? = some last) :
    (kept segments).filter (·.startTick = some tick) = [last] ↔
      IsUnbroken segments tick ∧
        ∀ s ∈ segments, s.startTick = some tick → Scalar.atMost s.start last.start = true := by
  have hTick : last.startTick = some tick := by
    simpa using (List.mem_filter.mp (List.mem_of_getLast? hLast)).2
  -- the one segment that stays is the latest, which is the one listed last if none is later
  have hLatest : ((kept segments).filter (·.startTick = some tick)).getLast? = some last ↔
      ∀ s ∈ segments, s.startTick = some tick → Scalar.atMost s.start last.start = true := by
    rw [getLast?_filter_kept, Order.greatest?_eq_some_iff_of_getLast? TempoSegment.atMost_trans
      TempoSegment.atMost_total hLast]
    simp only [List.mem_filter, decide_eq_true_eq, and_imp]
    refine forall₃_congr fun s _ hs => ?_
    rw [TempoSegment.atMost_of_startTick_eq (hs.trans hTick.symm)]
  rw [← length_filter_kept_le_one_iff, ← hLatest]
  exact Order.eq_singleton_iff

end Kept

/-- The segments of a map are in the order of time, and each is one that was listed. All without a
tick are there, and the latest of each tick. It is the only one of its tick, and the one listed
last, exactly when no segment of another tick stands between those of the tick and the one listed
last is not earlier than another. -/
theorem segments_ofSegments [Scalar.LawfulNumbers α] {segments : List (TempoSegment α)}
    (hNe : segments ≠ []) (hStarts : ∀ s ∈ segments, Scalar.isNumber s.start = true) :
    ∃ m, ofSegments segments = .ok m ∧
      m.segments.Pairwise (fun s u => s.start ≤ u.start) ∧
      m.segments.Subperm segments ∧
      (m.segments.filter (·.startTick = none)).Perm (segments.filter (·.startTick = none)) ∧
      ∀ tick last, (segments.filter (·.startTick = some tick)).getLast? = some last →
        (m.segments.filter (·.startTick = some tick)).getLast? =
          Order.greatest? TempoSegment.atMost (segments.filter (·.startTick = some tick)) ∧
        (m.segments.filter (·.startTick = some tick) = [last] ↔
          IsUnbroken segments tick ∧
            ∀ s ∈ segments, s.startTick = some tick →
              Scalar.atMost s.start last.start = true) := by
  obtain ⟨m, hMap, hSegments⟩ := exists_segments_ofSegments hNe
  have hPerm := List.mergeSort_perm segments TempoSegment.atMost
  have hKept : (kept segments).Sublist _ := Order.keepLast_sublist TempoSegment.sameTick _
  have hSorted := (List.pairwise_mergeSort TempoSegment.atMost_trans TempoSegment.atMost_total
    segments).sublist hKept
  rw [← hSegments] at hKept hSorted
  refine ⟨m, hMap, hSorted.imp_of_mem fun {s u} hs hu hsu => ?_,
    hKept.subperm.trans hPerm.subperm, hSegments ▸ filter_none_kept segments,
    fun tick last hLast => ⟨hSegments ▸ getLast?_filter_kept segments tick,
      hSegments ▸ filter_kept_eq_singleton_iff segments hLast⟩⟩
  have hNumber {v : TempoSegment α} (hv : v ∈ m.segments) : Scalar.isNumber v.start = true :=
    hStarts v (hPerm.mem_iff.mp (hKept.mem hv))
  exact Scalar.LawfulNumbers.le_of_atMost (hNumber hs) (hNumber hu)
    ((TempoSegment.atMost_eq_true_iff s u).mp hsu).1

/-- Two segments of tick 480 stay when one of tick 960 starts between them. -/
theorem segments_ofSegments_broken :
    let segments : List (TempoSegment Float) :=
      [⟨some 480, 0.5, 100⟩, ⟨some 960, 0.75, 110⟩, ⟨some 480, 1, 90⟩]
    segments ≠ [] ∧ (∀ s ∈ segments, Scalar.isNumber s.start = true) ∧
      ∃ m, ofSegments segments = .ok m ∧
        m.segments.filter (·.startTick = some 480) ≠ [⟨some 480, 1, 90⟩] ∧
        m.segments.filter (·.startTick = some 960) = [⟨some 960, 0.75, 110⟩] := by
  intro segments
  have hNe : segments ≠ [] := List.cons_ne_nil _ _
  have hStarts : ∀ s ∈ segments, Scalar.isNumber s.start = true := by decide +kernel
  obtain ⟨m, hMap, _, _, _, hTicks⟩ := segments_ofSegments hNe hStarts
  refine ⟨hNe, hStarts, m, hMap, fun hOne => ?_, ?_⟩
  · have hUnbroken := ((hTicks 480 ⟨some 480, 1, 90⟩ (by decide +kernel)).2.mp hOne).1
    exact absurd hUnbroken (by decide +kernel)
  · exact (hTicks 960 ⟨some 960, 0.75, 110⟩ (by decide +kernel)).2.mpr
      ⟨by decide +kernel, by decide +kernel⟩

end TempoMap

end LeadSheet
