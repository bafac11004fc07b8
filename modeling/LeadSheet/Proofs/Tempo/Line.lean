import Mathlib.Data.List.Chain
import Mathlib.Tactic.FieldSimp
import Mathlib.Tactic.Linarith
import LeadSheet.Proofs.Order.Bisect
import LeadSheet.Proofs.Order.Runs
import LeadSheet.Proofs.Order.Stable
import LeadSheet.Proofs.Scalar.Exact
import LeadSheet.Tempo.Map

/-!
# Times and beats on one line

Over exact scalars the stretches of a tempo map join into one rising line from beat 0 on. A time and
a beat meet when they are a point of it, and both searches find that point: one by the time, one by
the beat. So each undoes the other, and a later time has more beats.
-/

namespace LeadSheet
set_option autoImplicit false

theorem minBpm_pos : 0 < (minBpm : Rat) := by
  change (0 : Rat) < 1e-6
  norm_num

namespace TempoSegment

theorem beatsPerSecond_eq (s : TempoSegment Rat) : s.beatsPerSecond = max s.bpm minBpm / 60 := by
  rw [beatsPerSecond, Scalar.larger_eq_max]

theorem secondsPerBeat_eq (s : TempoSegment Rat) : s.secondsPerBeat = 60 / max s.bpm minBpm := by
  rw [secondsPerBeat, Scalar.larger_eq_max]

theorem beatsPerSecond_pos (s : TempoSegment Rat) : 0 < s.beatsPerSecond := by
  rw [beatsPerSecond_eq]
  exact div_pos (lt_max_of_lt_right minBpm_pos) (by norm_num)

theorem beatsPerSecond_mul_secondsPerBeat (s : TempoSegment Rat) :
    s.beatsPerSecond * s.secondsPerBeat = 1 := by
  have hBpm : max s.bpm minBpm ≠ 0 := (lt_max_of_lt_right minBpm_pos).ne'
  rw [beatsPerSecond_eq, secondsPerBeat_eq]
  field_simp

end TempoSegment

namespace Stretch

def beatsOn (s : Stretch Rat) (t : Rat) : Rat :=
  s.beats + (t - s.segment.start) * s.segment.beatsPerSecond

/-- The next stretch starts on the line of the one before it. -/
structure Joins (s u : Stretch Rat) : Prop where
  start_le : s.segment.start ≤ u.segment.start
  beats_eq : u.beats = s.beatsOn u.segment.start

theorem beatsOn_lt_beatsOn_iff (s : Stretch Rat) {t u : Rat} : s.beatsOn t < s.beatsOn u ↔ t < u := by
  have hPos := s.segment.beatsPerSecond_pos
  rw [beatsOn, beatsOn, add_lt_add_iff_left, mul_lt_mul_iff_left₀ hPos, sub_lt_sub_iff_right]

theorem beats_le_beatsOn {s : Stretch Rat} {t : Rat} (h : s.segment.start ≤ t) :
    s.beats ≤ s.beatsOn t :=
  le_add_of_nonneg_right (mul_nonneg (sub_nonneg.mpr h) s.segment.beatsPerSecond_pos.le)

theorem beatsOn_eq (s : Stretch Rat) (b : Rat) :
    s.beatsOn (s.segment.start + (b - s.beats) * s.segment.secondsPerBeat) = b := by
  have h := s.segment.beatsPerSecond_mul_secondsPerBeat
  rw [beatsOn, add_sub_cancel_left, mul_assoc, mul_comm s.segment.secondsPerBeat, h, mul_one]
  ring

theorem Joins.beats_le {s u : Stretch Rat} (h : Joins s u) : s.beats ≤ u.beats := by
  rw [h.beats_eq]
  exact beats_le_beatsOn h.start_le

end Stretch

namespace TempoMap

section Search

variable {α : Type} {m : TempoMap α} {holds : Stretch α → Bool}

theorem lastWhere_of_split {front back : List (Stretch α)} {s : Stretch α}
    (hSplit : m.stretches = front ++ s :: back) (hFront : ∀ u ∈ front, holds u = true)
    (hs : holds s = true) (hBack : ∀ u ∈ back, holds u = false) : m.lastWhere holds = s := by
  have hAll : m.stretches = (front ++ [s]) ++ back := by rw [hSplit, List.append_assoc]; rfl
  have hHolds : ∀ u ∈ front ++ [s], holds u = true := by
    intro u hu
    rcases List.mem_append.mp hu with hu | hu
    · exact hFront u hu
    · exact List.mem_singleton.mp hu ▸ hs
  have hCount : Order.bisect holds m.stretches = front.length + 1 := by
    rw [hAll, Order.bisect_append hHolds hBack, List.length_append]
    rfl
  rw [lastWhere, hCount, hSplit]
  simp

theorem lastWhere_of_forall_false (h : ∀ u ∈ m.stretches, holds u = false) :
    m.lastWhere holds = m.first := by
  have hCount : Order.bisect holds m.stretches = 0 :=
    Order.bisect_append (fun u (hu : u ∈ []) => (List.not_mem_nil hu).elim) h
  rw [lastWhere, hCount]
  rfl

end Search

/-- The stretches join, and no beat has passed where the first of them starts. -/
structure IsLine (m : TempoMap Rat) : Prop where
  first_beats : m.first.beats = 0
  joined : m.stretches.IsChain Stretch.Joins

/-- A time and a beat are a point of the stretch that is the last to start by that time. -/
def Meets (m : TempoMap Rat) (t b : Rat) : Prop :=
  ∃ front s back, m.stretches = front ++ s :: back ∧ s.segment.start ≤ t ∧ b = s.beatsOn t ∧
    ∀ u ∈ back, t < u.segment.start

namespace IsLine

variable {m : TempoMap Rat}

theorem pairwise_start (h : m.IsLine) :
    m.stretches.Pairwise fun s u => s.segment.start ≤ u.segment.start := by
  have hChain : (m.stretches.map (·.segment.start)).IsChain (· ≤ ·) :=
    (List.isChain_map _).mpr (h.joined.imp fun s u hsu => hsu.start_le)
  exact List.pairwise_map.mp hChain.pairwise

theorem pairwise_beats (h : m.IsLine) : m.stretches.Pairwise fun s u => s.beats ≤ u.beats := by
  have hChain : (m.stretches.map (·.beats)).IsChain (· ≤ ·) :=
    (List.isChain_map _).mpr (h.joined.imp fun s u hsu => hsu.beats_le)
  exact List.pairwise_map.mp hChain.pairwise

/-- What is still to come at a time is the same as what is still to come at its beat. -/
theorem lt_start_iff_lt_beats (h : m.IsLine) {front back : List (Stretch Rat)} {s : Stretch Rat}
    (hSplit : m.stretches = front ++ s :: back) (t : Rat) :
    (∀ u ∈ back, t < u.segment.start) ↔ ∀ u ∈ back, s.beatsOn t < u.beats := by
  have hStart := h.pairwise_start
  have hBeats := h.pairwise_beats
  have hJoined := h.joined
  rw [hSplit] at hStart hBeats hJoined
  cases back with
  | nil => simp
  | cons v back =>
    have hJoins : s.Joins v := List.rel_of_isChain_cons_cons hJoined.right_of_append
    have hNext : t < v.segment.start ↔ s.beatsOn t < v.beats := by
      rw [hJoins.beats_eq, s.beatsOn_lt_beatsOn_iff]
    have hStart := (List.pairwise_cons.mp (List.pairwise_append.mp hStart).2.1.tail).1
    have hBeats := (List.pairwise_cons.mp (List.pairwise_append.mp hBeats).2.1.tail).1
    rw [List.forall_mem_cons, List.forall_mem_cons, hNext]
    constructor
    · exact fun ⟨hv, _⟩ => ⟨hv, fun u hu => hv.trans_le (hBeats u hu)⟩
    · exact fun ⟨hv, _⟩ => ⟨hv, fun u hu => (hNext.mpr hv).trans_le (hStart u hu)⟩

theorem exists_meets_of_start_le (h : m.IsLine) {t : Rat} (ht : m.first.segment.start ≤ t) :
    ∃ b, m.Meets t b := by
  obtain ⟨front, s, back, hSplit, _, hs, hBack⟩ :=
    Order.exists_last_split (p := fun u : Stretch Rat => u.segment.start ≤ t)
      (h.pairwise_start.imp fun hsu hu => hsu.trans hu) ⟨m.first, List.mem_cons_self, ht⟩
  exact ⟨s.beatsOn t, front, s, back, hSplit, hs, rfl, fun u hu => not_le.mp (hBack u hu)⟩

theorem exists_meets_of_nonneg (h : m.IsLine) {b : Rat} (hb : 0 ≤ b) : ∃ t, m.Meets t b := by
  have hFirst : m.first.beats ≤ b := h.first_beats.le.trans hb
  obtain ⟨front, s, back, hSplit, _, hs, hBack⟩ :=
    Order.exists_last_split (p := fun u : Stretch Rat => u.beats ≤ b)
      (h.pairwise_beats.imp fun hsu hu => hsu.trans hu) ⟨m.first, List.mem_cons_self, hFirst⟩
  have hOn := s.beatsOn_eq b
  refine ⟨s.segment.start + (b - s.beats) * s.segment.secondsPerBeat, front, s, back, hSplit, ?_,
    hOn.symm, (h.lt_start_iff_lt_beats hSplit _).mpr ?_⟩
  · rw [← not_lt, ← s.beatsOn_lt_beatsOn_iff, hOn, Stretch.beatsOn, sub_self, zero_mul, add_zero]
    exact not_lt.mpr hs
  · rw [hOn]
    exact fun u hu => not_le.mp (hBack u hu)

end IsLine

theorem IsLine.stretchAt_of_split {m : TempoMap Rat} (hm : m.IsLine) {t : Rat}
    {front back : List (Stretch Rat)} {s : Stretch Rat} (hSplit : m.stretches = front ++ s :: back)
    (hs : s.segment.start ≤ t) (hBack : ∀ u ∈ back, t < u.segment.start) : m.stretchAt t = s := by
  have hStart := hm.pairwise_start
  rw [hSplit] at hStart
  refine lastWhere_of_split hSplit (fun u hu => ?_) (decide_eq_true hs) fun u hu => ?_
  · have hle := (List.pairwise_append.mp hStart).2.2 u hu s List.mem_cons_self
    exact decide_eq_true (hle.trans hs)
  · exact decide_eq_false (not_le.mpr (hBack u hu))

theorem Meets.beatsAt_eq {m : TempoMap Rat} {t b : Rat} (hm : m.IsLine) (h : m.Meets t b) :
    m.beatsAt t = b := by
  obtain ⟨front, s, back, hSplit, hs, rfl, hBack⟩ := h
  have hFound := hm.stretchAt_of_split hSplit hs hBack
  have hElapsed : Scalar.larger (t - s.segment.start) 0 = t - s.segment.start := by
    rw [Scalar.larger_eq_max]
    exact max_eq_left (sub_nonneg.mpr hs)
  rw [beatsAt, hFound, hElapsed, Stretch.beatsOn]

theorem Meets.secondsAt_eq {m : TempoMap Rat} {t b : Rat} (hm : m.IsLine) (h : m.Meets t b) :
    m.secondsAt b = t := by
  obtain ⟨front, s, back, hSplit, hs, rfl, hBack⟩ := h
  have hBeats := hm.pairwise_beats
  rw [hSplit] at hBeats
  have hOn : s.beats ≤ s.beatsOn t := Stretch.beats_le_beatsOn hs
  have hFound : m.lastWhere (fun u => u.beats ≤ s.beatsOn t) = s := by
    refine lastWhere_of_split hSplit (fun u hu => ?_) (decide_eq_true hOn) fun u hu => ?_
    · have hle := (List.pairwise_append.mp hBeats).2.2 u hu s List.mem_cons_self
      exact decide_eq_true (hle.trans hOn)
    · exact decide_eq_false (not_le.mpr ((hm.lt_start_iff_lt_beats hSplit t).mp hBack u hu))
  have hRemaining : Scalar.larger (s.beatsOn t - s.beats) 0 = s.beatsOn t - s.beats := by
    rw [Scalar.larger_eq_max]
    exact max_eq_left (sub_nonneg.mpr hOn)
  have hUnit := s.segment.beatsPerSecond_mul_secondsPerBeat
  rw [secondsAt, hFound, hRemaining, Stretch.beatsOn, add_sub_cancel_left, mul_assoc, hUnit, mul_one]
  ring

theorem IsLine.meets_secondsAt {m : TempoMap Rat} (hm : m.IsLine) {b : Rat} (hb : 0 ≤ b) :
    m.Meets (m.secondsAt b) b := by
  obtain ⟨t, hMeets⟩ := hm.exists_meets_of_nonneg hb
  rwa [hMeets.secondsAt_eq hm]

theorem Meets.lt {m : TempoMap Rat} {t b t' b' : Rat} (hm : m.IsLine) (h : m.Meets t b)
    (h' : m.Meets t' b') (hLt : t < t') : b < b' := by
  obtain ⟨front, s, back, hSplit, hs, rfl, hBack⟩ := h
  obtain ⟨front', s', back', hSplit', hs', rfl, hBack'⟩ := h'
  have hAhead := (hm.lt_start_iff_lt_beats hSplit t).mp hBack
  -- the second stretch is the first one, comes after it, or comes before it
  rcases List.append_eq_append_iff.mp (hSplit.symm.trans hSplit') with
    ⟨between, _, hRest⟩ | ⟨between, _, hRest⟩
  · cases between with
    | nil =>
      cases hRest
      exact s.beatsOn_lt_beatsOn_iff.mpr hLt
    | cons u between =>
      cases hRest
      have hMem : s' ∈ between ++ s' :: back' :=
        List.mem_append_right between List.mem_cons_self
      exact (hAhead s' hMem).trans_le (Stretch.beats_le_beatsOn hs')
  · cases between with
    | nil =>
      cases hRest
      exact s.beatsOn_lt_beatsOn_iff.mpr hLt
    | cons u between =>
      cases hRest
      have hMem : s ∈ between ++ s :: back := List.mem_append_right between List.mem_cons_self
      exact absurd ((hBack' s hMem).trans_le hs) (not_lt.mpr hLt.le)

theorem Meets.lt_iff {m : TempoMap Rat} {t b t' b' : Rat} (hm : m.IsLine) (h : m.Meets t b)
    (h' : m.Meets t' b') : t < t' ↔ b < b' := by
  refine ⟨h.lt hm h', fun hLt => ?_⟩
  rcases lt_trichotomy t t' with hTime | rfl | hTime
  · exact hTime
  · exact absurd ((h.beatsAt_eq hm).symm.trans (h'.beatsAt_eq hm)) hLt.ne
  · exact absurd (h'.lt hm h hTime) hLt.asymm

theorem IsLine.beatsAt_eq_zero {m : TempoMap Rat} (hm : m.IsLine) {t : Rat}
    (ht : t < m.first.segment.start) : m.beatsAt t = 0 := by
  have hFound : m.stretchAt t = m.first := by
    refine lastWhere_of_forall_false fun u hu => decide_eq_false (not_le.mpr ?_)
    rcases List.mem_cons.mp hu with rfl | hu
    · exact ht
    · exact ht.trans_le ((List.pairwise_cons.mp hm.pairwise_start).1 u hu)
  have hElapsed : Scalar.larger (t - m.first.segment.start) 0 = 0 := by
    rw [Scalar.larger_eq_max]
    exact max_eq_right (sub_nonpos.mpr ht.le)
  rw [beatsAt, hFound, hElapsed, hm.first_beats, zero_add, zero_mul]

theorem IsLine.beatsAt_nonneg {m : TempoMap Rat} (hm : m.IsLine) (t : Rat) : 0 ≤ m.beatsAt t := by
  rcases lt_or_ge t m.first.segment.start with hBefore | hStarted
  · rw [hm.beatsAt_eq_zero hBefore]
  · obtain ⟨b, hMeets⟩ := hm.exists_meets_of_start_le hStarted
    rw [hMeets.beatsAt_eq hm]
    obtain ⟨front, s, back, hSplit, hs, rfl, -⟩ := hMeets
    have hMem : s ∈ m.stretches := by
      rw [hSplit]
      exact List.mem_append_right front List.mem_cons_self
    have hFirst : m.first.beats ≤ s.beats := by
      rcases List.mem_cons.mp hMem with rfl | hLater
      · exact le_rfl
      · exact (List.pairwise_cons.mp hm.pairwise_beats).1 s hLater
    exact hm.first_beats.ge.trans (hFirst.trans (Stretch.beats_le_beatsOn hs))

theorem IsLine.beatsAt_mono {m : TempoMap Rat} (hm : m.IsLine) {t u : Rat} (h : t ≤ u) :
    m.beatsAt t ≤ m.beatsAt u := by
  rcases lt_or_ge t m.first.segment.start with hBefore | hStarted
  · rw [hm.beatsAt_eq_zero hBefore]
    exact hm.beatsAt_nonneg u
  · rcases h.eq_or_lt with rfl | hlt
    · exact le_rfl
    · obtain ⟨b, hMeets⟩ := hm.exists_meets_of_start_le hStarted
      obtain ⟨c, hMeets'⟩ := hm.exists_meets_of_start_le (hStarted.trans h)
      rw [hMeets.beatsAt_eq hm, hMeets'.beatsAt_eq hm]
      exact (hMeets.lt hm hMeets' hlt).le

theorem isChain_follow (s : Stretch Rat) (segments : List (TempoSegment Rat))
    (h : (s.segment :: segments).Pairwise fun a b => a.start ≤ b.start) :
    (s :: follow s segments).IsChain Stretch.Joins := by
  induction segments generalizing s with
  | nil => exact .singleton s
  | cons a segments ih =>
    rw [follow]
    refine .cons_cons ?_ (ih _ h.tail)
    have hle : s.segment.start ≤ a.start := (List.pairwise_cons.mp h).1 a List.mem_cons_self
    refine ⟨hle, ?_⟩
    rw [Scalar.larger_eq_max, Stretch.beatsOn]
    exact congrArg (s.beats + · * _) (max_eq_left (sub_nonneg.mpr hle))

end TempoMap

namespace TempoSegment

section Order

variable {α : Type} [Scalar α]

/-- The place of a segment among those that start at one time. -/
def tickRank (s : TempoSegment α) : Nat := (s.startTick.map (· + 1)).getD 0

variable [Scalar.LawfulOrder α]

theorem atMost_eq_true_iff (s u : TempoSegment α) :
    s.atMost u = true ↔ Scalar.atMost s.start u.start = true ∧
      (Scalar.atMost u.start s.start = true → s.tickRank ≤ u.tickRank) := by
  have hSwap : Scalar.totalCmp u.start s.start = (Scalar.totalCmp s.start u.start).swap :=
    Std.OrientedCmp.eq_swap
  change ((Scalar.totalCmp s.start u.start).then (compare s.tickRank u.tickRank)).isLE = true ↔ _
  rw [Scalar.atMost, Scalar.atMost, hSwap]
  cases Scalar.totalCmp s.start u.start <;> simp [Nat.isLE_compare]

theorem atMost_trans (s u v : TempoSegment α) (hsu : s.atMost u = true) (huv : u.atMost v = true) :
    s.atMost v = true := by
  rw [atMost_eq_true_iff] at hsu huv ⊢
  refine ⟨Scalar.atMost_trans hsu.1 huv.1, fun hvs => ?_⟩
  exact (hsu.2 (Scalar.atMost_trans huv.1 hvs)).trans (huv.2 (Scalar.atMost_trans hvs hsu.1))

theorem atMost_total (s u : TempoSegment α) : (s.atMost u || u.atMost s) = true := by
  have hStart := Scalar.atMost_total s.start u.start
  rw [Bool.or_eq_true] at hStart ⊢
  rw [atMost_eq_true_iff, atMost_eq_true_iff]
  rcases Nat.le_total s.tickRank u.tickRank with hRank | hRank
  · by_cases hsu : Scalar.atMost s.start u.start = true
    · exact .inl ⟨hsu, fun _ => hRank⟩
    · exact .inr ⟨hStart.resolve_left hsu, fun h => (hsu h).elim⟩
  · by_cases hus : Scalar.atMost u.start s.start = true
    · exact .inr ⟨hus, fun _ => hRank⟩
    · exact .inl ⟨hStart.resolve_right hus, fun h => (hus h).elim⟩

end Order

theorem atMost_iff (s u : TempoSegment Rat) :
    s.atMost u = true ↔ s.start < u.start ∨ s.start = u.start ∧ s.tickRank ≤ u.tickRank := by
  change ((Scalar.cmpRat s.start u.start).then (compare s.tickRank u.tickRank)).isLE = true ↔ _
  unfold Scalar.cmpRat
  split
  · rename_i h
    exact ⟨fun _ => .inl h, fun _ => rfl⟩
  · rename_i hNot
    split
    · rename_i hEq
      rw [Ordering.eq_then, Nat.isLE_compare]
      exact ⟨fun h => .inr ⟨hEq, h⟩, fun h => (h.resolve_left hNot).2⟩
    · rename_i hNe
      refine ⟨fun h => (nomatch h), fun h => ?_⟩
      exact absurd (h.resolve_left hNot).1 hNe

theorem start_le_of_atMost {s u : TempoSegment Rat} (h : s.atMost u = true) : s.start ≤ u.start := by
  rcases (atMost_iff s u).mp h with h | ⟨h, _⟩
  · exact h.le
  · exact h.le

end TempoSegment

namespace TempoMap

theorem exists_ofSegments {segments : List (TempoSegment Rat)} (h : segments ≠ []) :
    ∃ m, ofSegments segments = .ok m ∧ m.IsLine := by
  have hSorted := List.pairwise_mergeSort TempoSegment.atMost_trans TempoSegment.atMost_total segments
  have hKept := hSorted.sublist (Order.keepLast_sublist TempoSegment.sameTick _)
  have hNe : segments.mergeSort TempoSegment.atMost ≠ [] := by
    intro hNil
    exact h (List.mergeSort_perm segments TempoSegment.atMost |>.symm.trans (.of_eq hNil)).eq_nil
  have hNe := Order.keepLast_ne_nil TempoSegment.sameTick hNe
  rw [ofSegments, ofSegments?]
  cases hList : Order.keepLast TempoSegment.sameTick (segments.mergeSort TempoSegment.atMost) with
  | nil => exact absurd hList hNe
  | cons s rest =>
    rw [hList] at hKept
    exact ⟨_, rfl, rfl, isChain_follow ⟨s, 0⟩ rest
      (hKept.imp fun hsu => TempoSegment.start_le_of_atMost hsu)⟩

theorem isLine_ofSegments {segments : List (TempoSegment Rat)} {m : TempoMap Rat}
    (h : ofSegments segments = .ok m) : m.IsLine := by
  have hNe : segments ≠ [] := by
    rintro rfl
    rw [ofSegments, ofSegments?, List.mergeSort_nil] at h
    cases h
  obtain ⟨line, hMap, hLine⟩ := exists_ofSegments hNe
  rw [hMap] at h
  cases h
  exact hLine

/-- Each of the two questions undoes the other, and both answers rise. -/
theorem beatsAt_secondsAt_ofSegments {segments : List (TempoSegment Rat)} (h : segments ≠ []) :
    ∃ m, ofSegments segments = .ok m ∧
      (∀ b, 0 ≤ b → m.beatsAt (m.secondsAt b) = b) ∧
      (∀ t, m.first.segment.start ≤ t → m.secondsAt (m.beatsAt t) = t) ∧
      StrictMonoOn m.secondsAt (Set.Ici 0) ∧
      StrictMonoOn m.beatsAt (Set.Ici m.first.segment.start) ∧
      ∀ t, t < m.first.segment.start → m.beatsAt t = 0 := by
  obtain ⟨m, hMap, hLine⟩ := exists_ofSegments h
  have hBeat : ∀ b, 0 ≤ b → m.Meets (m.secondsAt b) b := fun b hb => hLine.meets_secondsAt hb
  have hTime : ∀ t, m.first.segment.start ≤ t → m.Meets t (m.beatsAt t) := by
    intro t ht
    obtain ⟨b, hMeets⟩ := hLine.exists_meets_of_start_le ht
    rwa [hMeets.beatsAt_eq hLine]
  refine ⟨m, hMap, fun b hb => (hBeat b hb).beatsAt_eq hLine,
    fun t ht => (hTime t ht).secondsAt_eq hLine, ?_, ?_, fun t ht => hLine.beatsAt_eq_zero ht⟩
  · intro b hb c hc hLt
    exact ((hBeat b hb).lt_iff hLine (hBeat c hc)).mpr hLt
  · intro t ht u hu hLt
    exact ((hTime t ht).lt_iff hLine (hTime u hu)).mp hLt

/-- Segments out of order, two of them at one time and one with a tempo below zero. -/
theorem beatsAt_secondsAt_unordered :
    ([⟨none, 2, 90⟩, ⟨some 7, -1, 0⟩, ⟨some 9, 2, -30⟩, ⟨none, 1 / 2, 120⟩] :
      List (TempoSegment Rat)) ≠ [] ∧
    ∃ m, ofSegments
        ([⟨none, 2, 90⟩, ⟨some 7, -1, 0⟩, ⟨some 9, 2, -30⟩, ⟨none, 1 / 2, 120⟩] :
          List (TempoSegment Rat)) = .ok m ∧
      m.beatsAt (m.secondsAt 3) = 3 ∧ m.secondsAt 1 < m.secondsAt 3 := by
  have hNe : ([⟨none, 2, 90⟩, ⟨some 7, -1, 0⟩, ⟨some 9, 2, -30⟩, ⟨none, 1 / 2, 120⟩] :
      List (TempoSegment Rat)) ≠ [] := List.cons_ne_nil _ _
  obtain ⟨m, hMap, hBeats, _, hSeconds, _⟩ := beatsAt_secondsAt_ofSegments hNe
  exact ⟨hNe, m, hMap, hBeats 3 (by norm_num),
    hSeconds (Set.mem_Ici.mpr (by norm_num)) (Set.mem_Ici.mpr (by norm_num)) (by norm_num)⟩

end TempoMap

end LeadSheet
