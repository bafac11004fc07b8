import Mathlib.Algebra.BigOperators.Intervals
import LeadSheet.Proofs.Order.Latest
import LeadSheet.Proofs.Tempo.Line

/-!
# Ticks on the line of times and beats

A map made from tempo changes at ticks has one stretch for each change that counts, and the stretch
of a change starts at the seconds that the ticks before it take. So a tick is a point of the line:
its time is the sum of the lengths of the ticks before it, and its beat is its share of a beat.
-/

namespace LeadSheet.TempoMap
set_option autoImplicit false

/-- The tempo at a tick: that of the change listed last among those at the greatest tick by then.
The earliest tempo holds before its change, and 120 without any. -/
def tempoAtTick (events : List (Nat × Rat)) (tick : Nat) : Rat :=
  let earliest := (events.map (·.1)).min?.getD 0
  match Order.latest? (·.1) (events.filter (·.1 ≤ max tick earliest)) with
  | some (_, bpm) => bpm
  | none => 120

/-- The seconds that the ticks before a tick take at their tempos, `perBeat` ticks to a beat. -/
def secondsBefore (perBeat : Rat) (tempo : Nat → Rat) (tick : Nat) : Rat :=
  ∑ j ∈ Finset.range tick, 60 / (perBeat * max (tempo j) minBpm)

/-- A tempo that is `bpm` from a tick on until the first of some changes, and then theirs. -/
def Obeys (tempo : Nat → Rat) (tick : Nat) (bpm : Rat) : List (Nat × Rat) → Prop
  | [] => ∀ j, tick ≤ j → tempo j = bpm
  | (next, nextBpm) :: changes =>
    tick < next ∧ (∀ j, tick ≤ j → j < next → tempo j = bpm) ∧ Obeys tempo next nextBpm changes

def stretchOf (perBeat : Rat) (tempo : Nat → Rat) (change : Nat × Rat) : Stretch Rat :=
  ⟨⟨some change.1, secondsBefore perBeat tempo change.1, change.2⟩, change.1 / perBeat⟩

def lineOf (perBeat : Rat) (tempo : Nat → Rat) (bpm : Rat) (changes : List (Nat × Rat)) :
    TempoMap Rat :=
  ⟨stretchOf perBeat tempo (0, bpm), changes.map (stretchOf perBeat tempo)⟩

section Changes

variable {perBeat : Rat} {tempo : Nat → Rat}

theorem stretches_lineOf (bpm : Rat) (changes : List (Nat × Rat)) :
    (lineOf perBeat tempo bpm changes).stretches =
      ((0, bpm) :: changes).map (stretchOf perBeat tempo) := rfl

theorem secondsBefore_strictMono (hPerBeat : 0 < perBeat) (tempo : Nat → Rat) :
    StrictMono (secondsBefore perBeat tempo) := by
  refine strictMono_nat_of_lt_succ fun tick => ?_
  rw [secondsBefore, secondsBefore, Finset.sum_range_succ]
  have hBpm : 0 < max (tempo tick) minBpm := lt_max_of_lt_right minBpm_pos
  exact lt_add_of_pos_right _ (div_pos (by norm_num) (mul_pos hPerBeat hBpm))

theorem secondsBefore_of_constant {bpm : Rat} {tick next : Nat} (hle : tick ≤ next)
    (hConst : ∀ j, tick ≤ j → j < next → tempo j = bpm) :
    secondsBefore perBeat tempo next =
      secondsBefore perBeat tempo tick + (next - tick : Nat) / perBeat * (60 / max bpm minBpm) := by
  induction next, hle using Nat.le_induction with
  | base => simp
  | succ next hle ih =>
    have hStep := ih fun j hj hlt => hConst j hj (Nat.lt_succ_of_lt hlt)
    have hTempo := hConst next hle (Nat.lt_succ_self next)
    rw [secondsBefore, Finset.sum_range_succ, ← secondsBefore, hStep, hTempo,
      Nat.succ_sub hle, Nat.cast_succ, add_assoc, add_right_inj]
    ring

theorem segmentsAfter_eq {tick : Nat} {bpm : Rat} {changes : List (Nat × Rat)}
    (h : Obeys tempo tick bpm changes) :
    segmentsAfter perBeat tick (secondsBefore perBeat tempo tick) bpm changes =
      changes.map fun c => (stretchOf perBeat tempo c).segment := by
  induction changes generalizing tick bpm with
  | nil => rfl
  | cons change changes ih =>
    obtain ⟨next, nextBpm⟩ := change
    obtain ⟨hlt, hConst, hRest⟩ := h
    have hNext : secondsBefore perBeat tempo tick +
        Scalar.ofNat (next - tick) / perBeat * (60 / Scalar.larger bpm minBpm) =
        secondsBefore perBeat tempo next := by
      rw [secondsBefore_of_constant hlt.le hConst, Scalar.larger_eq_max]
      rfl
    rw [segmentsAfter, hNext, ih hRest]
    rfl

theorem beatsOn_stretchOf (hPerBeat : 0 < perBeat) (change : Nat × Rat) {tick : Nat}
    (hle : change.1 ≤ tick) (hConst : ∀ j, change.1 ≤ j → j < tick → tempo j = change.2) :
    (stretchOf perBeat tempo change).beatsOn (secondsBefore perBeat tempo tick) =
      tick / perBeat := by
  have hBpm : max change.2 minBpm ≠ 0 := (lt_max_of_lt_right minBpm_pos).ne'
  rw [Stretch.beatsOn, stretchOf, secondsBefore_of_constant hle hConst, add_sub_cancel_left,
    TempoSegment.beatsPerSecond_eq, Nat.cast_sub hle]
  field_simp
  ring

theorem follow_stretchOf (hPerBeat : 0 < perBeat) {tick : Nat} {bpm : Rat}
    {changes : List (Nat × Rat)} (h : Obeys tempo tick bpm changes) :
    follow (stretchOf perBeat tempo (tick, bpm))
        (changes.map fun c => (stretchOf perBeat tempo c).segment) =
      changes.map (stretchOf perBeat tempo) := by
  induction changes generalizing tick bpm with
  | nil => rfl
  | cons change changes ih =>
    obtain ⟨next, nextBpm⟩ := change
    obtain ⟨hlt, hConst, hRest⟩ := h
    have hPos : 0 ≤ secondsBefore perBeat tempo next -
        (stretchOf perBeat tempo (tick, bpm)).segment.start :=
      sub_nonneg.mpr (secondsBefore_strictMono hPerBeat tempo hlt).le
    have hBeats := beatsOn_stretchOf hPerBeat (tick, bpm) hlt.le hConst
    rw [Stretch.beatsOn, ← max_eq_left hPos, ← Scalar.larger_eq_max] at hBeats
    rw [List.map_cons, List.map_cons, ← ih hRest, follow]
    exact congrArg₂ List.cons (congrArg _ hBeats) (congrArg (follow · _) (congrArg _ hBeats))

theorem Obeys.pairwise_tick {tick : Nat} {bpm : Rat} {changes : List (Nat × Rat)}
    (h : Obeys tempo tick bpm changes) :
    ((tick, bpm) :: changes).Pairwise fun c d => c.1 < d.1 := by
  induction changes generalizing tick bpm with
  | nil => exact List.pairwise_singleton _ _
  | cons change changes ih =>
    obtain ⟨next, nextBpm⟩ := change
    obtain ⟨hlt, _, hRest⟩ := h
    have ih := ih hRest
    refine List.pairwise_cons.mpr ⟨fun c hc => ?_, ih⟩
    rcases List.mem_cons.mp hc with rfl | hc
    · exact hlt
    · exact hlt.trans ((List.pairwise_cons.mp ih).1 c hc)

theorem Obeys.pairwise_start (hPerBeat : 0 < perBeat) {tick : Nat} {bpm : Rat}
    {changes : List (Nat × Rat)} (h : Obeys tempo tick bpm changes) :
    (((tick, bpm) :: changes).map fun c => (stretchOf perBeat tempo c).segment).Pairwise
      fun s u => s.start < u.start :=
  List.pairwise_map.mpr
    (h.pairwise_tick.imp fun hlt => secondsBefore_strictMono hPerBeat tempo hlt)

theorem stretchOf_zero (perBeat : Rat) (tempo : Nat → Rat) (bpm : Rat) :
    stretchOf perBeat tempo (0, bpm) = ⟨⟨some 0, 0, bpm⟩, 0⟩ := by
  rw [stretchOf, secondsBefore, Finset.range_zero, Finset.sum_empty, Nat.cast_zero, zero_div]

theorem isLine_lineOf (hPerBeat : 0 < perBeat) {bpm : Rat} {changes : List (Nat × Rat)}
    (h : Obeys tempo 0 bpm changes) : (lineOf perBeat tempo bpm changes).IsLine where
  first_beats := by rw [lineOf, stretchOf_zero]
  joined := by
    rw [stretches, lineOf, ← follow_stretchOf hPerBeat h]
    exact isChain_follow _ _ ((h.pairwise_start hPerBeat).imp fun hlt => hlt.le)

theorem ofSegments?_of_obeys (hPerBeat : 0 < perBeat) {bpm : Rat} {changes : List (Nat × Rat)}
    (h : Obeys tempo 0 bpm changes) :
    ofSegments? (⟨some 0, 0, bpm⟩ :: segmentsAfter perBeat 0 0 bpm changes) =
      some (lineOf perBeat tempo bpm changes) := by
  have hFirst := stretchOf_zero perBeat tempo bpm
  have hZero : secondsBefore perBeat tempo 0 = 0 := Finset.sum_range_zero _
  have hSegments : (⟨some 0, 0, bpm⟩ :: segmentsAfter perBeat 0 0 bpm changes) =
      ((0, bpm) :: changes).map fun c => (stretchOf perBeat tempo c).segment := by
    rw [List.map_cons, hFirst, ← segmentsAfter_eq h, hZero]
  have hOrder := (h.pairwise_start hPerBeat).imp (S := fun s u => s.atMost u = true)
    fun {s u} hlt => (s.atMost_iff u).mpr (.inl hlt)
  have hSort := List.mergeSort_of_pairwise hOrder
  have hTicks : (((0, bpm) :: changes).map fun c => (stretchOf perBeat tempo c).segment).IsChain
      fun s u => s.sameTick u = false := by
    refine (List.pairwise_map.mpr (h.pairwise_tick.imp fun {c d} hlt => ?_)).isChain
    simpa [TempoSegment.sameTick, stretchOf] using hlt.ne
  rw [ofSegments?, hSegments, hSort, Order.keepLast_of_isChain hTicks, lineOf,
    ← follow_stretchOf hPerBeat h, hFirst]
  simp only [List.map_cons, hFirst]

/-- The change in force at a tick, with the changes before and after it. -/
theorem Obeys.exists_split {tick : Nat} {bpm : Rat} {changes : List (Nat × Rat)}
    (h : Obeys tempo tick bpm changes) {now : Nat} (hle : tick ≤ now) :
    ∃ front c back, (tick, bpm) :: changes = front ++ c :: back ∧ (∀ d ∈ front, d.1 ≤ now) ∧
      c.1 ≤ now ∧ (∀ d ∈ back, now < d.1) ∧ ∀ j, c.1 ≤ j → j < now → tempo j = c.2 := by
  induction changes generalizing tick bpm with
  | nil =>
    exact ⟨[], (tick, bpm), [], rfl, fun d hd => (List.not_mem_nil hd).elim, hle,
      fun d hd => (List.not_mem_nil hd).elim, fun j hj _ => h j hj⟩
  | cons change changes ih =>
    have hSorted := h.pairwise_tick
    obtain ⟨next, nextBpm⟩ := change
    obtain ⟨_, hConst, hRest⟩ := h
    by_cases hNext : next ≤ now
    · obtain ⟨front, c, back, hSplit, hFront, hc, hBack, hTempo⟩ := ih hRest hNext
      refine ⟨(tick, bpm) :: front, c, back, by rw [hSplit, List.cons_append], ?_, hc, hBack, hTempo⟩
      exact List.forall_mem_cons.mpr ⟨hle, hFront⟩
    · have hAfter := List.pairwise_cons.mp hSorted.tail
      refine ⟨[], (tick, bpm), _, rfl, fun d hd => (List.not_mem_nil hd).elim, hle, ?_, ?_⟩
      · exact List.forall_mem_cons.mpr ⟨not_le.mp hNext, fun d hd =>
          (not_le.mp hNext).trans (hAfter.1 d hd)⟩
      · exact fun j hj hlt => hConst j hj (hlt.trans (not_le.mp hNext))

theorem meets_lineOf (hPerBeat : 0 < perBeat) {bpm : Rat} {changes : List (Nat × Rat)}
    (h : Obeys tempo 0 bpm changes) (tick : Nat) :
    (lineOf perBeat tempo bpm changes).Meets (secondsBefore perBeat tempo tick)
      (tick / perBeat) := by
  have hMono := secondsBefore_strictMono hPerBeat tempo
  obtain ⟨front, c, back, hSplit, _, hc, hBack, hTempo⟩ := h.exists_split (Nat.zero_le tick)
  refine ⟨front.map (stretchOf perBeat tempo), stretchOf perBeat tempo c,
    back.map (stretchOf perBeat tempo), ?_, hMono.monotone hc,
    (beatsOn_stretchOf hPerBeat c hc hTempo).symm, ?_⟩
  · rw [stretches_lineOf, hSplit, List.map_append, List.map_cons]
  · intro u hu
    obtain ⟨d, hd, rfl⟩ := List.mem_map.mp hu
    exact hMono (hBack d hd)

theorem secondsAtTick_lineOf (ppqn : Nat) {bpm : Rat} {changes : List (Nat × Rat)}
    (h : Obeys tempo 0 bpm changes) (tick : Nat) :
    (lineOf (max ppqn 1 : Nat) tempo bpm changes).secondsAtTick tick ppqn =
      secondsBefore (max ppqn 1 : Nat) tempo tick := by
  obtain ⟨front, c, back, hSplit, hFront, hc, hBack, hTempo⟩ := h.exists_split (Nat.zero_le tick)
  have hStretches : (lineOf (max ppqn 1 : Nat) tempo bpm changes).stretches =
      front.map (stretchOf (max ppqn 1 : Nat) tempo) ++
        stretchOf (max ppqn 1 : Nat) tempo c :: back.map (stretchOf (max ppqn 1 : Nat) tempo) := by
    rw [stretches_lineOf, hSplit, List.map_append, List.map_cons]
  have hTicks : (lineOf (max ppqn 1 : Nat) tempo bpm changes).segments.any
      (·.startTick.isNone) = false := by
    rw [segments, hStretches, List.any_eq_false]
    intro s hs
    rw [← List.map_cons, ← List.map_append, List.map_map] at hs
    obtain ⟨d, _, rfl⟩ := List.mem_map.mp hs
    exact Bool.false_ne_true
  have hFound : (lineOf (max ppqn 1 : Nat) tempo bpm changes).lastWhere
      (·.segment.startTick.getD 0 ≤ tick) = stretchOf (max ppqn 1 : Nat) tempo c := by
    refine lastWhere_of_split hStretches (fun u hu => ?_) (decide_eq_true hc) fun u hu => ?_
    · obtain ⟨d, hd, rfl⟩ := List.mem_map.mp hu
      exact decide_eq_true (hFront d hd)
    · obtain ⟨d, hd, rfl⟩ := List.mem_map.mp hu
      exact decide_eq_false (not_le.mpr (hBack d hd))
  have hPerBeat := (stretchOf (max ppqn 1 : Nat) tempo c).segment.secondsPerBeat_eq
  rw [secondsAtTick, hTicks, if_neg Bool.false_ne_true, hFound,
    secondsBefore_of_constant hc hTempo]
  exact congrArg (_ + _ / _ * ·) hPerBeat

end Changes

theorem obeys_of_split {tempo : Nat → Rat} {all : List (Nat × Rat)}
    (hSorted : all.Pairwise fun c d => c.1 < d.1)
    (hTempo : ∀ front c back j, all = front ++ c :: back → (front = [] ∨ c.1 ≤ j) →
      (∀ d ∈ back, j < d.1) → tempo j = c.2)
    {front : List (Nat × Rat)} {c : Nat × Rat} {changes : List (Nat × Rat)} {tick : Nat}
    (hAll : all = front ++ c :: changes) (hle : tick ≤ c.1) (hStart : front = [] ∨ c.1 ≤ tick) :
    Obeys tempo tick c.2 changes := by
  induction changes generalizing front c tick with
  | nil =>
    intro j hj
    exact hTempo front c [] j hAll (hStart.imp_right (·.trans hj)) fun d hd =>
      (List.not_mem_nil hd).elim
  | cons d changes ih =>
    rw [hAll] at hSorted
    have hAfter := List.pairwise_cons.mp (List.pairwise_append.mp hSorted).2.1
    have hNext := List.pairwise_cons.mp hAfter.2
    refine ⟨hle.trans_lt (hAfter.1 d List.mem_cons_self), fun j hj hlt => ?_, ?_⟩
    · refine hTempo front c (d :: changes) j hAll (hStart.imp_right (·.trans hj)) ?_
      exact List.forall_mem_cons.mpr ⟨hlt, fun e he => hlt.trans (hNext.1 e he)⟩
    · have hMore : all = (front ++ [c]) ++ d :: changes := by
        rw [hAll, List.append_assoc]
        rfl
      exact ih hMore le_rfl (.inr le_rfl)

/-- The tempo changes that count: in the order of ticks, the last one of each tick. -/
def changesOf (events : List (Nat × Rat)) : List (Nat × Rat) :=
  Order.keepLast (fun e f => e.1 == f.1) (events.mergeSort fun e f => e.1 ≤ f.1)

theorem pairwise_changesOf (events : List (Nat × Rat)) :
    (changesOf events).Pairwise fun c d => c.1 < d.1 :=
  Order.pairwise_lt_keepLast _ (fun _ _ => beq_iff_eq) (Order.pairwise_mergeSort_key (·.1) events)

theorem latest?_filter_events (events : List (Nat × Rat)) (bound : Nat) :
    Order.latest? (·.1) (events.filter (·.1 ≤ bound)) =
      ((changesOf events).filter (·.1 ≤ bound)).getLast? := by
  rw [Order.latest?_filter_eq, changesOf]
  refine (Order.getLast?_filter_keepLast (fun e f h => ?_) _).symm
  rw [beq_iff_eq.mp h]

theorem min?_ticks_eq {events : List (Nat × Rat)} {c : Nat × Rat} {changes : List (Nat × Rat)}
    (h : changesOf events = c :: changes) : (events.map (·.1)).min? = some c.1 := by
  have hSub := Order.keepLast_sublist (fun e f : Nat × Rat => e.1 == f.1)
    (events.mergeSort fun e f => e.1 ≤ f.1)
  have hMem : c ∈ changesOf events := h ▸ List.mem_cons_self
  have hSorted := pairwise_changesOf events
  refine List.min?_eq_some_iff.mpr ⟨?_, fun tick hTick => ?_⟩
  · exact List.mem_map_of_mem (List.mem_mergeSort.mp (hSub.mem hMem))
  · obtain ⟨e, he, rfl⟩ := List.mem_map.mp hTick
    by_contra hlt
    have hNone : (changesOf events).filter (·.1 ≤ e.1) = [] := by
      rw [h] at hSorted ⊢
      rw [List.filter_eq_nil_iff]
      intro d hd
      rw [decide_eq_true_eq, not_le]
      rcases List.mem_cons.mp hd with hd | hd
      · exact hd ▸ not_le.mp hlt
      · exact (not_le.mp hlt).trans ((List.pairwise_cons.mp hSorted).1 d hd)
    have hLatest := latest?_filter_events events e.1
    rw [Order.latest?_filter_eq, hNone, List.getLast?_nil, List.getLast?_eq_none_iff,
      List.filter_eq_nil_iff] at hLatest
    exact hLatest e (List.mem_mergeSort.mpr he) (decide_eq_true le_rfl)

theorem tempoAtTick_of_split {events front back : List (Nat × Rat)} {c : Nat × Rat} {tick : Nat}
    (hSplit : changesOf events = front ++ c :: back) (hStart : front = [] ∨ c.1 ≤ tick)
    (hBack : ∀ d ∈ back, tick < d.1) : tempoAtTick events tick = c.2 := by
  have hSorted := pairwise_changesOf events
  rw [hSplit] at hSorted
  have hAfter := (List.pairwise_cons.mp (List.pairwise_append.mp hSorted).2.1).1
  have hBefore : ∀ d ∈ front, d.1 < c.1 := fun d hd =>
    (List.pairwise_append.mp hSorted).2.2 d hd c List.mem_cons_self
  obtain ⟨first, changes, hList, hle⟩ : ∃ first changes, changesOf events = first :: changes ∧
      first.1 ≤ c.1 ∧ c.1 ≤ max tick first.1 := by
    cases front with
    | nil => exact ⟨c, back, hSplit, le_rfl, le_max_right _ _⟩
    | cons d front =>
      have hc : c.1 ≤ tick := hStart.resolve_left (List.cons_ne_nil d front)
      exact ⟨d, _, hSplit, (hBefore d List.mem_cons_self).le, le_max_of_le_left hc⟩
  have hLast : ((changesOf events).filter (·.1 ≤ max tick first.1)).getLast? = some c := by
    rw [hSplit]
    refine Order.getLast?_filter_append_cons (decide_eq_true hle.2) fun d hd => ?_
    rw [decide_eq_true_eq, not_le]
    exact max_lt (hBack d hd) (hle.1.trans_lt (hAfter d hd))
  rw [tempoAtTick, min?_ticks_eq hList, Option.getD_some, latest?_filter_events, hLast]

theorem obeys_tempoAtTick {events changes : List (Nat × Rat)} {c : Nat × Rat}
    (h : changesOf events = c :: changes) : Obeys (tempoAtTick events) 0 c.2 changes :=
  obeys_of_split (pairwise_changesOf events)
    (fun _ _ _ _ hSplit hStart hBack => tempoAtTick_of_split hSplit hStart hBack)
    (h.trans (List.nil_append _).symm) (Nat.zero_le _) (.inl rfl)

theorem tempoAtTick_of_nil {events : List (Nat × Rat)} (h : changesOf events = []) (tick : Nat) :
    tempoAtTick events tick = 120 := by
  rw [tempoAtTick, latest?_filter_events, h]
  rfl

theorem exists_ofTickTempos_eq (ppqn : Nat) (events : List (Nat × Rat)) :
    ∃ bpm changes, Obeys (tempoAtTick events) 0 bpm changes ∧
      ofTickTempos ppqn events = lineOf (max ppqn 1 : Nat) (tempoAtTick events) bpm changes := by
  have hPerBeat : (0 : Rat) < (max ppqn 1 : Nat) := Nat.cast_pos.mpr (by omega)
  cases hChanges : changesOf events with
  | nil =>
    refine ⟨120, [], fun tick _ => tempoAtTick_of_nil hChanges tick, ?_⟩
    rw [ofTickTempos, ← changesOf, hChanges, lineOf, stretchOf_zero]
    rfl
  | cons first changes =>
    have hObeys := obeys_tempoAtTick hChanges
    refine ⟨first.2, changes, hObeys, ?_⟩
    have hMap := ofSegments?_of_obeys hPerBeat hObeys
    rw [ofTickTempos, ← changesOf, hChanges]
    exact (congrArg (Option.getD · _) hMap).trans rfl

inductive Built : TempoMap Rat → Prop
  | ofSegments {segments : List (TempoSegment Rat)} {m : TempoMap Rat} :
      ofSegments segments = .ok m → Built m
  | constant (bpm : Rat) : Built (constant bpm)
  | ofTickTempos (ppqn : Nat) (events : List (Nat × Rat)) : Built (ofTickTempos ppqn events)

theorem Built.isLine {m : TempoMap Rat} (h : Built m) : m.IsLine := by
  cases h with
  | ofSegments hMap => exact isLine_ofSegments hMap
  | constant bpm => exact ⟨rfl, .singleton _⟩
  | ofTickTempos ppqn events =>
    have hPerBeat : (0 : Rat) < (max ppqn 1 : Nat) := Nat.cast_pos.mpr (by omega)
    obtain ⟨bpm, changes, hObeys, hMap⟩ := exists_ofTickTempos_eq ppqn events
    rw [hMap]
    exact isLine_lineOf hPerBeat hObeys

theorem secondsAtTick_strictMono (ppqn : Nat) (events : List (Nat × Rat)) :
    StrictMono fun tick => (ofTickTempos ppqn events).secondsAtTick tick ppqn := by
  have hPerBeat : (0 : Rat) < (max ppqn 1 : Nat) := Nat.cast_pos.mpr (by omega)
  obtain ⟨bpm, changes, hObeys, hMap⟩ := exists_ofTickTempos_eq ppqn events
  intro s t hlt
  simp only [hMap, secondsAtTick_lineOf ppqn hObeys]
  exact secondsBefore_strictMono hPerBeat _ hlt

/-- Seconds and beats of a tick, and the two ways between them, all agree. -/
theorem secondsAtTick_ofTickTempos (ppqn : Nat) (events : List (Nat × Rat)) (tick : Nat) :
    (ofTickTempos ppqn events).secondsAtTick tick ppqn = ∑ j ∈ Finset.range tick,
        60 / ((max ppqn 1 : Nat) * max (tempoAtTick events j) minBpm) ∧
      (ofTickTempos ppqn events).beatsAt ((ofTickTempos ppqn events).secondsAtTick tick ppqn) =
        (tick / (max ppqn 1 : Nat) : Rat) ∧
      (ofTickTempos ppqn events).secondsAt (tick / (max ppqn 1 : Nat) : Rat) =
        (ofTickTempos ppqn events).secondsAtTick tick ppqn := by
  have hPerBeat : (0 : Rat) < (max ppqn 1 : Nat) := Nat.cast_pos.mpr (by omega)
  obtain ⟨bpm, changes, hObeys, hMap⟩ := exists_ofTickTempos_eq ppqn events
  have hLine := isLine_lineOf hPerBeat hObeys
  have hMeets := meets_lineOf hPerBeat hObeys tick
  rw [hMap, secondsAtTick_lineOf ppqn hObeys]
  exact ⟨rfl, hMeets.beatsAt_eq hLine, hMeets.secondsAt_eq hLine⟩

end LeadSheet.TempoMap
