import LeadSheet.Midi.Harmony
import LeadSheet.Proofs.Grid.Downbeats

/-!
# Where the chords of a song come from

A song has chord events from its labels, from its notes, or from its bar lines. Snapping drops no
last event, so notes give none only when no chord is recognised at any point of the grid, and a song
that is not empty is without chord events in one case: it has no label, and no least number of
labels is asked for, so that neither the notes nor the bar lines are looked at.
-/

namespace LeadSheet
set_option autoImplicit false

theorem Order.keepFirst_eq_nil_iff {β : Type} (same : β → β → Bool) {xs : List β} :
    keepFirst same xs = [] ↔ xs = [] := by
  cases xs with
  | nil => rw [keepFirst]
  | cons x xs =>
    have hHead : (keepFirst same (x :: xs)).head? = some x := head?_keepFirst x xs
    constructor
    · intro hNil
      rw [hNil] at hHead
      cases hHead
    · intro hNil
      cases hNil

theorem Order.keepLast_eq_nil_iff {β : Type} (same : β → β → Bool) {xs : List β} :
    keepLast same xs = [] ↔ xs = [] := by
  constructor
  · intro hNil
    by_contra hSome
    exact keepLast_ne_nil same hSome hNil
  · rintro rfl
    rfl

variable {α : Type} [Scalar α]

namespace ChordEvent

theorem sorted_eq_nil_iff {events : List ChordEvent} : sorted events = [] ↔ events = [] := by
  rw [List.eq_nil_iff_forall_not_mem, List.eq_nil_iff_forall_not_mem]
  exact forall_congr' fun e => not_congr mem_sorted

theorem snapToDownbeats_eq_nil_iff {events : List ChordEvent} {ppqn : Nat} {meter : Meter}
    {snapBeats : α} : snapToDownbeats events ppqn meter snapBeats = [] ↔ events = [] := by
  rw [snapToDownbeats, Order.keepFirst_eq_nil_iff, Order.keepLast_eq_nil_iff, List.map_eq_nil_iff,
    sorted_eq_nil_iff]

end ChordEvent

namespace Recording

def HasLabel (r : Recording α) : Prop :=
  ∃ e ∈ r.texts, e.kind ≠ .lyric ∧ ChordSymbol.isLabel (Text.trimmed e.text) = true

/-- At some point of the chord grid the notes form a chord. -/
def HasHarmony (r : Recording α) (settings : MidiSettings α) : Prop :=
  ∃ k, k * gridStep α r.ppqn settings.chordGridDivision ≤ r.maxTick ∧
    (chordAt? ((r.harmonicNotes settings).map (span (max r.ppqn 1)))
      (k * gridStep α r.ppqn settings.chordGridDivision)).isSome

variable {r : Recording α} {settings : MidiSettings α}

omit [Scalar α] in
theorem textChords_eq_nil_iff : r.textChords = [] ↔ ¬ r.HasLabel := by
  rw [textChords, List.map_eq_nil_iff, List.filter_eq_nil_iff, HasLabel]
  simp only [Bool.and_eq_true, decide_eq_true_eq, not_exists, not_and]

theorem changes_none_eq_nil_iff {names : List (Nat × Option String)} :
    changes none names = [] ↔ ∀ x ∈ names, x.2 = none := by
  induction names with
  | nil => simp [changes]
  | cons x names ih =>
    obtain ⟨tick, name⟩ := x
    rw [List.forall_mem_cons, ← ih]
    cases name with
    | none => simp [changes]
    | some chord => simp [changes]

theorem chordAt?_nil (tick : Nat) : chordAt? [] tick = none := by
  rw [chordAt?, List.filter_nil, List.map_nil]
  decide

theorem gridStep_pos (ppqn division : Nat) : 0 < gridStep α ppqn division :=
  Nat.lt_of_lt_of_le Nat.zero_lt_one (Nat.le_max_right _ _)

theorem gridChords_eq_nil_iff (hLength : 0 < r.maxTick) :
    r.gridChords settings = [] ↔ ¬ r.HasHarmony settings := by
  have hStep : 0 < gridStep α r.ppqn settings.chordGridDivision := gridStep_pos _ _
  simp only [gridChords, lastTick, HasHarmony, List.map_eq_nil_iff, changes_none_eq_nil_iff, if_pos hLength]
  generalize (r.harmonicNotes settings).map (span (max r.ppqn 1)) = spans
  generalize gridStep α r.ppqn settings.chordGridDivision = step at hStep
  cases spans with
  | nil => simp [chordAt?_nil]
  | cons s spans =>
    simp only [List.isEmpty_cons, Bool.false_eq_true, if_false, List.mem_map, List.mem_range,
      Nat.lt_add_one_iff, Nat.le_div_iff_mul_le hStep]
    constructor
    · rintro hNone ⟨k, hk, hChord⟩
      have hAt : chordAt? (s :: spans) (k * step) = none := hNone _ ⟨_, ⟨k, hk, rfl⟩, rfl⟩
      rw [hAt] at hChord
      cases hChord
    · rintro hNone _ ⟨_, ⟨k, hk, rfl⟩, rfl⟩
      by_contra hChord
      exact hNone ⟨k, hk, Option.isSome_iff_ne_none.mpr hChord⟩

theorem inferredChords_eq_nil_iff (hLength : 0 < r.maxTick) :
    r.inferredChords settings = [] ↔ ¬ r.HasHarmony settings := by
  rw [inferredChords, ChordEvent.snapToDownbeats_eq_nil_iff, gridChords_eq_nil_iff hLength]

theorem barLines_ne_nil (r : Recording α) : r.barLines ≠ [] := by
  rw [barLines]
  simp

/-- The bar lines of a recording are those up to its end. -/
theorem mem_barLines {e : ChordEvent} :
    e ∈ r.barLines ↔
      ∃ i, i * r.meter.ticksPerBar α r.ppqn ≤ r.maxTick ∧
        e = .barLine (i * r.meter.ticksPerBar α r.ppqn) := by
  have hBar : 0 < r.meter.ticksPerBar α r.ppqn := r.meter.ticksPerBar_pos r.ppqn
  simp only [barLines, List.mem_map, List.mem_range, Nat.lt_add_one_iff,
    Nat.le_div_iff_mul_le hBar, eq_comm (a := e)]

theorem pairwise_barLines (r : Recording α) : r.barLines.Pairwise fun e f => e.tick < f.tick := by
  have hBar : 0 < r.meter.ticksPerBar α r.ppqn := r.meter.ticksPerBar_pos r.ppqn
  rw [barLines, List.pairwise_map]
  exact List.pairwise_lt_range.imp fun hlt => Nat.mul_lt_mul_of_pos_right hlt hBar

/-- Without labels and chords from notes the events are the bar lines, if labels are asked for. -/
theorem chordEvents_eq_barLines (hTexts : r.textChords = []) (hNotes : r.inferredChords settings = [])
    (hLength : 0 < r.maxTick) (hMin : 0 < settings.minTextChords) :
    r.chordEvents settings = r.barLines := by
  have hNone : labelsOrNotes [] [] = [] := rfl
  rw [chordEvents, hTexts, hNotes, hNone]
  simp only [List.length_nil, List.isEmpty_nil, Bool.true_and, decide_eq_true_eq]
  rw [if_pos hMin, if_pos hLength]
  exact ChordEvent.sorted_of_pairwise r.pairwise_barLines

theorem chordEvents_eq_nil_iff (hLength : 0 < r.maxTick) :
    r.chordEvents settings = [] ↔ ¬ r.HasLabel ∧ settings.minTextChords = 0 := by
  rw [chordEvents, ChordEvent.sorted_eq_nil_iff, ← textChords_eq_nil_iff]
  simp only
  split
  · rename_i hFew
    -- a label too few means that one is asked for, and the bar lines are there when all else fails
    have hMin : settings.minTextChords ≠ 0 := Nat.ne_zero_of_lt hFew
    split
    · exact ⟨fun hNil => (r.barLines_ne_nil hNil).elim, fun hNone => (hMin hNone.2).elim⟩
    · rename_i hSome
      have hSome : labelsOrNotes r.textChords (r.inferredChords settings) ≠ [] := by
        simpa [hLength] using hSome
      exact ⟨fun hNil => (hSome hNil).elim, fun hNone => (hMin hNone.2).elim⟩
  · rename_i hEnough
    refine ⟨fun hNil => ⟨hNil, ?_⟩, fun hNone => hNone.1⟩
    rw [hNil] at hEnough
    exact Nat.eq_zero_of_not_pos hEnough

/-- The chord events of a song that is not empty are in the order of ticks. There are none only when
there is no label and no least number of labels. When there is one, a song without labels and
recognised chords has its bar lines, each once, from tick 0 up to its end. -/
theorem chordEvents_of_maxTick_pos (hLength : 0 < r.maxTick) (settings : MidiSettings α) :
    (r.chordEvents settings).Pairwise (fun e f => e.tick ≤ f.tick) ∧
      (r.chordEvents settings = [] ↔ ¬ r.HasLabel ∧ settings.minTextChords = 0) ∧
      (¬ r.HasLabel → ¬ r.HasHarmony settings → 0 < settings.minTextChords →
        (r.chordEvents settings).Pairwise (fun e f => e.tick < f.tick) ∧
          ∀ e, e ∈ r.chordEvents settings ↔
            ∃ i, i * r.meter.ticksPerBar α r.ppqn ≤ r.maxTick ∧
              e = ⟨i * r.meter.ticksPerBar α r.ppqn, "N.C.", .grid⟩) := by
  refine ⟨ChordEvent.pairwise_sorted _, chordEvents_eq_nil_iff hLength, ?_⟩
  intro hLabels hNotes hMin
  rw [chordEvents_eq_barLines (textChords_eq_nil_iff.mpr hLabels)
    ((inferredChords_eq_nil_iff hLength).mpr hNotes) hLength hMin]
  exact ⟨r.pairwise_barLines, fun e => mem_barLines⟩

/-- Settings that ask for no label are accepted, and leave two bars without any chord event. -/
theorem chordEvents_of_maxTick_pos_no_minimum :
    let r : Recording Rat := ⟨480, ⟨4, 4⟩, [], [⟨0, "Verse", .marker⟩], [], 3840, none⟩
    let settings (n : Nat) : Settings Rat :=
      { Settings.default with midi := { MidiSettings.default with minTextChords := n } }
    0 < r.maxTick ∧ (settings 0).check = .ok () ∧ r.chordEvents (settings 0).midi = [] ∧
      r.chordEvents (settings 1).midi ≠ [] := by
  intro r settings
  have hLength : 0 < r.maxTick := by decide
  have hLabels : ¬ r.HasLabel := by
    rw [← textChords_eq_nil_iff]
    decide +kernel
  have hNone := (chordEvents_of_maxTick_pos hLength (settings 0).midi).2.1
  have hSome := (chordEvents_of_maxTick_pos hLength (settings 1).midi).2.1
  refine ⟨hLength, by decide +kernel, hNone.mpr ⟨hLabels, rfl⟩, fun hNil => ?_⟩
  cases (hSome.mp hNil).2

end Recording

end LeadSheet
