import LeadSheet.Proofs.Tempo.Ticks

/-!
# How fast beats pass

Between two times no more beats pass than the fastest tempo in between allows. So while the tempo
does not rise, a number of beats takes at least as long as it would at the tempo it starts with.
-/

namespace LeadSheet.TempoMap
set_option autoImplicit false

variable {m : TempoMap Rat}

theorem IsLine.bpmAt_of_split (hm : m.IsLine) {t : Rat} {front back : List (Stretch Rat)}
    {s : Stretch Rat} (hSplit : m.stretches = front ++ s :: back) (hs : s.segment.start ≤ t)
    (hBack : ∀ u ∈ back, t < u.segment.start) : m.bpmAt t = max s.segment.bpm minBpm := by
  rw [bpmAt, hm.stretchAt_of_split hSplit hs hBack, Scalar.larger_eq_max]

theorem bpmAt_pos (m : TempoMap Rat) (t : Rat) : 0 < m.bpmAt t := by
  rw [bpmAt, Scalar.larger_eq_max]
  exact lt_max_of_lt_right minBpm_pos

theorem bpmAt_constant (bpm t : Rat) : (constant bpm).bpmAt t = max bpm minBpm := by
  have hFound : (constant bpm).stretchAt t = (constant bpm).first := by
    rcases le_or_gt 0 t with hStarted | hBefore
    · have hSplit : (constant bpm).stretches = [] ++ (constant bpm).first :: [] := rfl
      exact lastWhere_of_split hSplit (fun u hu => (List.not_mem_nil hu).elim)
        (decide_eq_true hStarted) fun u hu => (List.not_mem_nil hu).elim
    · refine lastWhere_of_forall_false fun u hu => ?_
      cases List.mem_singleton.mp hu
      exact decide_eq_false (not_le.mpr hBefore)
  rw [bpmAt, hFound, Scalar.larger_eq_max]
  rfl

section Bound

variable {front back : List (Stretch Rat)} {s : Stretch Rat} {t u bpm : Rat}

/-- As long as a stretch is in force, its own tempo is one of those that the bound holds for. -/
theorem IsLine.beatsOn_sub_le (hm : m.IsLine) (hSplit : m.stretches = front ++ s :: back)
    (hs : s.segment.start ≤ t) (hle : t ≤ u) (hBack : ∀ x ∈ back, u ≤ x.segment.start)
    (hBpm : ∀ v, t ≤ v → v < u → m.bpmAt v ≤ bpm) :
    s.beatsOn u - s.beatsOn t ≤ (u - t) * (bpm / 60) := by
  rw [Stretch.beatsOn, Stretch.beatsOn, TempoSegment.beatsPerSecond_eq]
  rcases hle.eq_or_lt with rfl | hlt
  · linarith
  · have hTempo := hBpm t le_rfl hlt
    rw [hm.bpmAt_of_split hSplit hs fun x hx => hlt.trans_le (hBack x hx)] at hTempo
    have hMul := mul_le_mul_of_nonneg_left hTempo (sub_nonneg.mpr hle)
    linarith

theorem IsLine.beatsAt_sub_le (hm : m.IsLine) (hSplit : m.stretches = front ++ s :: back)
    (hs : s.segment.start ≤ t) (hle : t ≤ u) (hBack : ∀ x ∈ back, t ≤ x.segment.start)
    (hBpm : ∀ v, t ≤ v → v < u → m.bpmAt v ≤ bpm) :
    m.beatsAt u - s.beatsOn t ≤ (u - t) * (bpm / 60) := by
  -- over the stretches behind `t`, the beats so far being those on the stretch in force at `t`
  induction back generalizing front s t with
  | nil =>
    have hMeets : m.Meets u (s.beatsOn u) :=
      ⟨front, s, [], hSplit, hs.trans hle, rfl, fun x hx => (List.not_mem_nil hx).elim⟩
    rw [hMeets.beatsAt_eq hm]
    exact hm.beatsOn_sub_le hSplit hs hle (fun x hx => (List.not_mem_nil hx).elim) hBpm
  | cons next rest ih =>
    have hStart := hm.pairwise_start
    have hJoined := hm.joined
    rw [hSplit] at hStart hJoined
    have hRest := (List.pairwise_cons.mp (List.pairwise_append.mp hStart).2.1.tail).1
    have hJoins : s.Joins next := List.rel_of_isChain_cons_cons hJoined.right_of_append
    have hNext := hBack next List.mem_cons_self
    rcases lt_or_ge u next.segment.start with hBefore | hReached
    · have hAhead : ∀ x ∈ next :: rest, u < x.segment.start :=
        List.forall_mem_cons.mpr ⟨hBefore, fun x hx => hBefore.trans_le (hRest x hx)⟩
      have hMeets : m.Meets u (s.beatsOn u) := ⟨front, s, _, hSplit, hs.trans hle, rfl, hAhead⟩
      rw [hMeets.beatsAt_eq hm]
      exact hm.beatsOn_sub_le hSplit hs hle (fun x hx => (hAhead x hx).le) hBpm
    · -- the beats up to where the next stretch starts, and those from there on
      have hUntil := hm.beatsOn_sub_le hSplit hs hNext
        (List.forall_mem_cons.mpr ⟨le_rfl, hRest⟩) fun v hv hlt => hBpm v hv (hlt.trans_le hReached)
      have hMore : m.stretches = (front ++ [s]) ++ next :: rest := by
        rw [hSplit, List.append_assoc]
        rfl
      have hFrom := ih hMore le_rfl hReached hRest fun v hv hlt => hBpm v (hNext.trans hv) hlt
      rw [← hJoins.beats_eq] at hUntil
      rw [Stretch.beatsOn, sub_self, zero_mul, add_zero] at hFrom
      linarith

end Bound

theorem IsLine.secondsAt_le_secondsAt (hm : m.IsLine) {b c : Rat} (hb : 0 ≤ b) (hle : b ≤ c) :
    m.secondsAt b ≤ m.secondsAt c := by
  have hMeets := hm.meets_secondsAt hb
  have hMeets' := hm.meets_secondsAt (hb.trans hle)
  rw [← not_lt, hMeets'.lt_iff hm hMeets]
  exact not_lt.mpr hle

/-- While the tempo is never above the one at a beat, the beats from there take no less than they
would at that tempo. -/
theorem IsLine.add_mul_le_secondsAt (hm : m.IsLine) {b c : Rat} (hb : 0 ≤ b) (hle : b ≤ c)
    (hBpm : ∀ t, m.secondsAt b ≤ t → t < m.secondsAt c → m.bpmAt t ≤ m.bpmAt (m.secondsAt b)) :
    m.secondsAt b + (c - b) * m.secondsPerBeatAt (m.secondsAt b) ≤ m.secondsAt c := by
  have hMeets := hm.meets_secondsAt hb
  have hTimes := hm.secondsAt_le_secondsAt hb hle
  have hTempo := m.bpmAt_pos (m.secondsAt b)
  have hEnd := (hm.meets_secondsAt (hb.trans hle)).beatsAt_eq hm
  obtain ⟨front, s, back, hSplit, hs, hBeat, hBack⟩ := hMeets
  have hBeats := hm.beatsAt_sub_le hSplit hs hTimes (fun x hx => (hBack x hx).le) hBpm
  rw [hEnd, ← hBeat] at hBeats
  have hSpan : (c - b) * m.secondsPerBeatAt (m.secondsAt b) ≤ m.secondsAt c - m.secondsAt b := by
    change (c - b) * (60 / m.bpmAt (m.secondsAt b)) ≤ _
    rw [← mul_div_assoc, div_le_iff₀ hTempo]
    linarith
  linarith

end LeadSheet.TempoMap
