import LeadSheet.Proofs.Midi.Sources

/-!
# Chord changes on the grid

At each point of the grid the notes that sound form a chord or none. An event stands at each point
where a chord is heard that was not heard at the point before, so a silence between two equal chords
counts and the name of a chord that goes on does not.
-/

namespace LeadSheet.Recording
set_option autoImplicit false

variable {α : Type}

def counts (settings : MidiSettings α) (n : Midi.Note) : Bool :=
  !(settings.ignoreDrums && n.channel == drumChannel)

/-- The tick up to which a note sounds, for `beat` ticks in a beat. -/
def soundsUntil (beat : Nat) (n : Midi.Note) : Nat :=
  let off := n.tickOff.getD (n.tickOn + beat)
  if n.tickOn < off then off else n.tickOn + max (beat / 2) 1

def isSounding (beat tick : Nat) (n : Midi.Note) : Bool :=
  n.tickOn ≤ tick && tick < soundsUntil beat n

def heardAt? (r : Recording α) (settings : MidiSettings α) (tick : Nat) : Option String :=
  Chord.nameOf? (((r.notes.filter (counts settings)).filter
    (isSounding (max r.ppqn 1) tick)).map (·.pitch))

def gridEnd (r : Recording α) (settings : MidiSettings α) : Nat :=
  if 0 < r.maxTick then r.maxTick
  else (((r.notes.filter (counts settings)).map (soundsUntil (max r.ppqn 1))).max?).getD 0

section Sounding

theorem tickOff_span (beat : Nat) (n : Midi.Note) : (span beat n).tickOff = soundsUntil beat n := by
  unfold span soundsUntil
  simp only [← not_lt, ite_not]

theorem soundsAt_span (beat tick : Nat) (n : Midi.Note) :
    soundsAt tick (span beat n) = isSounding beat tick n := by
  rw [soundsAt, tickOff_span]
  rfl

theorem ofPitch_mod (pitch : Nat) :
    PitchClass.ofPitch (pitch % 12) = PitchClass.ofPitch pitch :=
  Fin.ext (Nat.mod_mod pitch 12)

theorem nameOf?_map_mod (pitches : List Nat) :
    Chord.nameOf? (pitches.map (· % 12)) = Chord.nameOf? pitches := by
  have hClasses : (pitches.map (· % 12)).map PitchClass.ofPitch =
      pitches.map PitchClass.ofPitch := by
    rw [List.map_map]
    exact List.map_congr_left fun pitch _ => ofPitch_mod pitch
  rw [Chord.nameOf?, Chord.recognise, hClasses, Chord.nameOf?, Chord.recognise]

variable (r : Recording α) (settings : MidiSettings α)

theorem chordAt?_spans (tick : Nat) :
    chordAt? ((r.harmonicNotes settings).map (span (max r.ppqn 1))) tick =
      r.heardAt? settings tick := by
  have hSounding : soundsAt tick ∘ span (max r.ppqn 1) = isSounding (max r.ppqn 1) tick :=
    funext fun n => soundsAt_span _ tick n
  have hClasses (notes : List Midi.Note) :
      notes.map ((·.pitchClass) ∘ span (max r.ppqn 1)) = (notes.map (·.pitch)).map (· % 12) := by
    rw [List.map_map]
    rfl
  rw [chordAt?, List.filter_map, hSounding, List.map_map, hClasses, nameOf?_map_mod]
  rfl

theorem heardAt?_of_none (hNone : r.notes.filter (counts settings) = []) (tick : Nat) :
    r.heardAt? settings tick = none := by
  have hNotes : r.harmonicNotes settings = [] := hNone
  rw [← chordAt?_spans, hNotes, List.map_nil, chordAt?_nil]

theorem foldl_tickOff_spans :
    ((r.harmonicNotes settings).map (span (max r.ppqn 1))).foldl (fun n s => max n s.tickOff) 0 =
      (((r.notes.filter (counts settings)).map (soundsUntil (max r.ppqn 1))).max?).getD 0 := by
  have hMax (ends : List Nat) : ends.foldl max 0 = ends.max?.getD 0 := by
    cases ends with
    | nil => rfl
    | cons tick ends => simp [List.max?]
  rw [← hMax, ← List.foldl_map, List.map_map]
  exact congrArg (List.foldl max 0) (List.map_congr_left fun n _ => tickOff_span _ n)

end Sounding

section Sweep

/-- What is heard at the point of the grid before the one with a number; before the first, nothing. -/
def heardBefore (heard : Nat → Option String) (point : Nat) : Option String :=
  if point = 0 then none else heard (point - 1)

theorem heardBefore_ne_some_iff {heard : Nat → Option String} {step point : Nat} {chord : String}
    (hStep : 0 < step) : heardBefore (fun k => heard (k * step)) point ≠ some chord ↔
      point * step = 0 ∨ heard (point * step - step) ≠ some chord := by
  cases point with
  | zero => simp [heardBefore]
  | succ point => simp [heardBefore, Nat.succ_mul, hStep.ne']

def changeAt? (heard : Nat → Option String) (step point : Nat) : Option (Nat × String) :=
  if heardBefore heard point = heard point then none else (heard point).map (point * step, ·)

theorem changeAt?_eq_some_iff {heard : Nat → Option String} {step point : Nat}
    {x : Nat × String} : changeAt? heard step point = some x ↔
      point * step = x.1 ∧ heard point = some x.2 ∧ heardBefore heard point ≠ some x.2 := by
  rw [changeAt?, Option.ite_none_left_eq_some, Option.map_eq_some_iff]
  constructor
  · rintro ⟨hNew, chord, hHeard, rfl⟩
    exact ⟨rfl, hHeard, hHeard ▸ hNew⟩
  · rintro ⟨hTick, hHeard, hNew⟩
    exact ⟨hHeard ▸ hNew, x.2, hHeard, Prod.ext hTick rfl⟩

/-- One step of the recursion for each point, from any point on. -/
theorem changes_range' (heard : Nat → Option String) (step start size : Nat) :
    changes (heardBefore heard start)
        ((List.range' start size).map fun k => (k * step, heard k)) =
      (List.range' start size).filterMap (changeAt? heard step) := by
  induction size generalizing start with
  | zero => rfl
  | succ size ih =>
    have ih := ih (start + 1)
    have hBefore : heardBefore heard (start + 1) = heard start := rfl
    rw [hBefore] at ih
    rw [List.range'_succ, List.map_cons, List.filterMap_cons, changeAt?]
    unfold changes
    cases hHeard : heard start with
    | none =>
      rw [hHeard] at ih
      simpa using ih
    | some chord =>
      rw [hHeard] at ih
      by_cases hSame : heardBefore heard start = some chord
      · simpa [hSame] using ih
      · simpa [hSame] using ih

theorem changes_range (heard : Nat → Option String) (step size : Nat) :
    changes none ((List.range size).map fun k => (k * step, heard k)) =
      (List.range size).filterMap (changeAt? heard step) := by
  rw [List.range_eq_range']
  exact changes_range' heard step 0 size

theorem pairwise_changeAt? (heard : Nat → Option String) {step : Nat} (hStep : 0 < step)
    (size : Nat) :
    ((List.range size).filterMap (changeAt? heard step)).Pairwise fun x y => x.1 < y.1 := by
  rw [List.pairwise_filterMap]
  refine List.pairwise_lt_range.imp fun hlt x hx y hy => ?_
  rw [← (changeAt?_eq_some_iff.mp hx).1, ← (changeAt?_eq_some_iff.mp hy).1]
  exact Nat.mul_lt_mul_of_pos_right hlt hStep

end Sweep

section Grid

variable [Scalar α] (r : Recording α) (settings : MidiSettings α)

def heardOnGrid (point : Nat) : Option String :=
  r.heardAt? settings (point * gridStep α r.ppqn settings.chordGridDivision)

theorem gridChords_eq :
    r.gridChords settings =
      ((List.range (r.gridEnd settings / gridStep α r.ppqn settings.chordGridDivision + 1)).filterMap
        (changeAt? (r.heardOnGrid settings) (gridStep α r.ppqn settings.chordGridDivision))).map
          fun x => ⟨x.1, x.2, .inferred⟩ := by
  have hEnd : r.lastTick ((r.harmonicNotes settings).map (span (max r.ppqn 1))) =
      r.gridEnd settings := by
    rw [lastTick, foldl_tickOff_spans]
    rfl
  rw [gridChords, ← changes_range]
  simp only [hEnd, chordAt?_spans]
  split
  · rename_i hNone
    have hNone : r.notes.filter (counts settings) = [] :=
      List.map_eq_nil_iff.mp (List.isEmpty_iff.mp hNone)
    have hSilent := heardAt?_of_none r settings hNone
    have hRight : changes none ((List.range (r.gridEnd settings /
        gridStep α r.ppqn settings.chordGridDivision + 1)).map fun k =>
          (k * gridStep α r.ppqn settings.chordGridDivision, r.heardOnGrid settings k)) = [] :=
      changes_none_eq_nil_iff.mpr (by simp [heardOnGrid, hSilent])
    rw [hRight]
    rfl
  · rw [List.map_map]
    rfl

theorem mem_gridChords {e : ChordEvent} :
    e ∈ r.gridChords settings ↔ e.source = .inferred ∧
      gridStep α r.ppqn settings.chordGridDivision ∣ e.tick ∧ e.tick ≤ r.gridEnd settings ∧
      r.heardAt? settings e.tick = some e.label ∧ (e.tick = 0 ∨
        r.heardAt? settings (e.tick - gridStep α r.ppqn settings.chordGridDivision) ≠
          some e.label) := by
  have hStep : 0 < gridStep α r.ppqn settings.chordGridDivision := gridStep_pos _ _
  have hBefore (k : Nat) (chord : String) :
      heardBefore (r.heardOnGrid settings) k ≠ some chord ↔ _ := heardBefore_ne_some_iff hStep
  rw [gridChords_eq]
  simp only [List.mem_map, List.mem_filterMap, List.mem_range, Nat.lt_add_one_iff,
    Nat.le_div_iff_mul_le hStep, changeAt?_eq_some_iff, hBefore, heardOnGrid]
  constructor
  · rintro ⟨x, ⟨k, hEnd, hTick, hHeard, hNew⟩, rfl⟩
    rw [← hTick]
    exact ⟨rfl, Nat.dvd_mul_left _ k, hEnd, hHeard, hNew⟩
  · rintro ⟨hSource, ⟨k, hTick⟩, hEnd, hHeard, hNew⟩
    rw [Nat.mul_comm] at hTick
    rw [hTick] at hEnd hHeard hNew
    refine ⟨(e.tick, e.label), ⟨k, hEnd, hTick.symm, hHeard, hNew⟩, ?_⟩
    rw [← hSource]

end Grid

/-- The chords recognised from the notes, before they are snapped, are the changes of what is heard
on the grid, each once and in the order of ticks. -/
theorem inferredChords_changes [Scalar α] (r : Recording α) (settings : MidiSettings α) :
    let step := max (Scalar.toNat (Scalar.round (Scalar.ofNat (max r.ppqn 1) /
      Scalar.ofNat (max settings.chordGridDivision 1) : α))) 1
    ∃ events : List ChordEvent,
      r.inferredChords settings =
        ChordEvent.snapToDownbeats events r.ppqn r.meter (0.9 : α) ∧
      events.Pairwise (fun e f => e.tick < f.tick) ∧
      (∀ e, e ∈ events ↔ e.source = .inferred ∧ step ∣ e.tick ∧ e.tick ≤ r.gridEnd settings ∧
        r.heardAt? settings e.tick = some e.label ∧
        (e.tick = 0 ∨ r.heardAt? settings (e.tick - step) ≠ some e.label)) ∧
      ((∀ n ∈ r.notes, counts settings n = false) → r.inferredChords settings = []) := by
  intro step
  have hStep : 0 < step := gridStep_pos r.ppqn settings.chordGridDivision
  refine ⟨r.gridChords settings, rfl, ?_, fun e => mem_gridChords r settings, ?_⟩
  · rw [gridChords_eq, List.pairwise_map]
    exact pairwise_changeAt? _ hStep _
  · intro hNone
    have hNone : r.notes.filter (counts settings) = [] :=
      List.filter_eq_nil_iff.mpr fun n hn => Bool.eq_false_iff.mp (hNone n hn)
    rw [inferredChords, ChordEvent.snapToDownbeats_eq_nil_iff, List.eq_nil_iff_forall_not_mem]
    intro e he
    have hHeard := ((mem_gridChords r settings).mp he).2.2.2.1
    rw [heardAt?_of_none r settings hNone] at hHeard
    cases hHeard

end LeadSheet.Recording
