import Mathlib.Data.List.Permutation
import LeadSheet.Midi.Recording
import LeadSheet.Scalar.Rational

/-!
# Where the spans of notes come from

Ticks start again in every track, but a note that a track leaves open waits for a release in the
tracks behind it. What a track does to one note is therefore one of three things: nothing, starting
it, or closing it. A note that one track starts and closes never ends before it starts; only one
that was left open can.
-/

namespace LeadSheet
set_option autoImplicit false

namespace Midi

/-- An event that closes a note of a channel and key. -/
def EventBody.Releases (channel key : Nat) : EventBody → Prop
  | .noteOff c k => c = channel ∧ k = key
  | .noteOn c k velocity => c = channel ∧ k = key ∧ velocity = 0
  | _ => False

/-- The events of a track that goes on from a tick, each with its own tick. -/
def timed (tick : Nat) : List TrackEvent → List (Nat × EventBody)
  | [] => []
  | e :: events => (tick + e.delta, e.body) :: timed (tick + e.delta) events

def ReleasedIn (events : List (Nat × EventBody)) (channel key tick : Nat) : Prop :=
  ∃ body, (tick, body) ∈ events ∧ body.Releases channel key

theorem le_of_mem_timed {tick : Nat} {events : List TrackEvent} {x : Nat × EventBody}
    (h : x ∈ timed tick events) : tick ≤ x.1 := by
  induction events generalizing tick with
  | nil => cases h
  | cons e events ih =>
    rcases List.mem_cons.mp h with rfl | h
    · exact Nat.le_add_right _ _
    · exact Nat.le_trans (Nat.le_add_right _ _) (ih h)

theorem mem_release {channel key tick : Nat} {notes : List Note} {n : Note}
    (h : n ∈ release channel key tick notes) :
    n ∈ notes ∨ ∃ m ∈ notes, m.tickOff = none ∧ m.channel = channel ∧ m.pitch = key ∧
      n = { m with tickOff := some tick } := by
  induction notes with
  | nil => cases h
  | cons m notes ih =>
    rw [release] at h
    split at h
    · rename_i hOpen
      obtain ⟨hChannel, hKey, hOff⟩ := hOpen
      rcases List.mem_cons.mp h with rfl | h
      · exact .inr ⟨m, List.mem_cons_self, hOff, hChannel, hKey, rfl⟩
      · exact .inl (List.mem_cons_of_mem m h)
    · rcases List.mem_cons.mp h with rfl | h
      · exact .inl List.mem_cons_self
      · rcases ih h with h | ⟨o, ho, hOpen⟩
        · exact .inl (List.mem_cons_of_mem m h)
        · exact .inr ⟨o, List.mem_cons_of_mem m ho, hOpen⟩

variable {α : Type} [Scalar α]

namespace Gathering

theorem tick_hear (g : Gathering α) (body : EventBody) : (g.hear body).tick = g.tick := by
  cases body <;> simp only [hear]
  split <;> rfl

theorem tick_step (g : Gathering α) (e : TrackEvent) : (g.step e).tick = g.tick + e.delta :=
  tick_hear _ _

/-- A note after an event was there before, starts with the event, or is closed by it. -/
theorem mem_notes_step {g : Gathering α} {e : TrackEvent} {n : Note} (h : n ∈ (g.step e).notes) :
    n ∈ g.notes ∨ n.tickOn = g.tick + e.delta ∧ n.tickOff = none ∨
      ∃ m ∈ g.notes, m.tickOff = none ∧ e.body.Releases m.channel m.pitch ∧
        n = { m with tickOff := some (g.tick + e.delta) } := by
  obtain ⟨delta, body⟩ := e
  cases body with
  | noteOn channel key velocity =>
    simp only [step, hear] at h
    split at h
    · rcases List.mem_cons.mp h with rfl | h
      · exact .inr (.inl ⟨rfl, rfl⟩)
      · exact .inl h
    · rename_i hVelocity
      rcases mem_release h with h | ⟨m, hm, hOpen, hChannel, hKey, rfl⟩
      · exact .inl h
      · have hSilent := Nat.eq_zero_of_not_pos hVelocity
        exact .inr (.inr ⟨m, hm, hOpen, ⟨hChannel.symm, hKey.symm, hSilent⟩, rfl⟩)
  | noteOff channel key =>
    rcases mem_release h with h | ⟨m, hm, hOpen, hChannel, hKey, rfl⟩
    · exact .inl h
    · exact .inr (.inr ⟨m, hm, hOpen, ⟨hChannel.symm, hKey.symm⟩, rfl⟩)
  | program channel program => exact .inl h
  | tempo microseconds => exact .inl h
  | meter numerator power => exact .inl h
  | text kind bytes => exact .inl h
  | other => exact .inl h

end Gathering

/-- What events after the notes `earlier` may have made of a note. -/
inductive Outlives (earlier : List Note) (events : List (Nat × EventBody)) (n : Note) : Prop
  | kept : n ∈ earlier → Outlives earlier events n
  | started : (∀ off, n.tickOff = some off → n.tickOn ≤ off) → Outlives earlier events n
  | closed (m : Note) (off : Nat) : m ∈ earlier → m.tickOff = none →
      ReleasedIn events m.channel m.pitch off → n = { m with tickOff := some off } →
      Outlives earlier events n

theorem outlives_foldl (g : Gathering α) (events : List TrackEvent) {n : Note}
    (h : n ∈ (events.foldl Gathering.step g).notes) :
    Outlives g.notes (timed g.tick events) n := by
  induction events generalizing g with
  | nil => exact .kept h
  | cons e events ih =>
    have hTick := g.tick_step e
    -- the events behind `e` go on from the notes after `e`, so a note may be changed twice
    have hAfter := ih (g.step e) h
    rw [hTick] at hAfter
    rw [timed]
    cases hAfter with
    | kept hMem =>
      rcases Gathering.mem_notes_step hMem with hMem | ⟨_, hOff⟩ | ⟨m, hm, hOpen, hBody, rfl⟩
      · exact .kept hMem
      · exact .started fun off h => by rw [hOff] at h; cases h
      · exact .closed m _ hm hOpen ⟨e.body, List.mem_cons_self, hBody⟩ rfl
    | started hForward => exact .started hForward
    | closed m off hMem hOpen hReleased hEq =>
      obtain ⟨body, hBody, hReleases⟩ := hReleased
      rcases Gathering.mem_notes_step hMem with hMem | ⟨hOn, _⟩ | ⟨o, _, _, _, rfl⟩
      · exact .closed m off hMem hOpen ⟨body, List.mem_cons_of_mem _ hBody, hReleases⟩ hEq
      · refine .started fun off' hOff => ?_
        have hLater : g.tick + e.delta ≤ off := le_of_mem_timed hBody
        cases hEq
        cases hOff
        exact hOn ▸ hLater
      · cases hOpen

end Midi

namespace Recording

variable {α : Type} [Scalar α]

theorem mem_notes_ofTracks {ppqn : Nat} {tracks : List (List Midi.TrackEvent)} {n : Midi.Note} :
    n ∈ (ofTracks ppqn tracks : Recording α).notes ↔
      n ∈ (tracks.foldl Midi.Gathering.track (Midi.Gathering.start : Midi.Gathering α)).notes :=
  List.mem_reverse

/-- A span that runs backwards was open when some tracks had ended, and a track behind them
released it. -/
theorem span_forward_or_left_open (ppqn : Nat) (tracks : List (List Midi.TrackEvent))
    {n : Midi.Note} (h : n ∈ (ofTracks ppqn tracks : Recording α).notes) {off : Nat}
    (hOff : n.tickOff = some off) :
    n.tickOn ≤ off ∨ ∃ before after, tracks = before ++ after ∧
      { n with tickOff := none } ∈ (ofTracks ppqn before : Recording α).notes ∧
      ∃ track ∈ after, Midi.ReleasedIn (Midi.timed 0 track) n.channel n.pitch off := by
  -- the last track finds the notes that the tracks before it have left
  induction tracks using List.reverseRecOn with
  | nil => cases h
  | append_singleton tracks track ih =>
    rw [mem_notes_ofTracks, List.foldl_append] at h
    cases Midi.outlives_foldl _ _ h with
    | kept hMem =>
      rcases ih (mem_notes_ofTracks.mpr hMem) with hForward | hBackward
      · exact .inl hForward
      · obtain ⟨before, after, rfl, hOpen, t, ht, hIn⟩ := hBackward
        exact .inr ⟨before, after ++ [track], List.append_assoc .., hOpen, t,
          List.mem_append_left _ ht, hIn⟩
    | started hForward => exact .inl (hForward off hOff)
    | closed m off' hMem hOpen hReleased hEq =>
      cases hEq
      cases hOff
      refine .inr ⟨tracks, [track], rfl, mem_notes_ofTracks.mpr ?_, track, List.mem_singleton_self _,
        hReleased⟩
      rw [← hOpen]
      exact hMem

theorem ofBytes_eq_ok_iff {bytes : List UInt8} {r : Recording α} :
    ofBytes bytes = .ok r ↔ ∃ ppqn tracks,
      Midi.File.ofBytes bytes = .ok ⟨.perBeat ppqn, tracks⟩ ∧ r = ofTracks ppqn tracks := by
  constructor
  · intro h
    rw [ofBytes] at h
    split at h
    · cases h
    · cases h
    · rename_i ppqn tracks hFile
      cases h
      exact ⟨ppqn, tracks, hFile, rfl⟩
  · rintro ⟨ppqn, tracks, hFile, rfl⟩
    rw [ofBytes, hFile]

/-- In the recording of a file a span ends no earlier than it starts, unless its note was still open
when some tracks had ended and a track behind them released it. So no span runs backwards when every
note is closed by the end of its track. -/
theorem spans_ofBytes {bytes : List UInt8} {r : Recording α} (h : ofBytes bytes = .ok r) :
    ∃ ppqn tracks, Midi.File.ofBytes bytes = .ok ⟨.perBeat ppqn, tracks⟩ ∧
      (∀ n ∈ r.notes, ∀ off, n.tickOff = some off → n.tickOn ≤ off ∨
        ∃ before after, tracks = before ++ after ∧
          { n with tickOff := none } ∈ (ofTracks ppqn before : Recording α).notes ∧
          ∃ track ∈ after, Midi.ReleasedIn (Midi.timed 0 track) n.channel n.pitch off) ∧
      ((∀ before after, tracks = before ++ after → after ≠ [] →
          ∀ n ∈ (ofTracks ppqn before : Recording α).notes, n.tickOff ≠ none) →
        ∀ n ∈ r.notes, ∀ off, n.tickOff = some off → n.tickOn ≤ off) := by
  obtain ⟨ppqn, tracks, hFile, rfl⟩ := ofBytes_eq_ok_iff.mp h
  refine ⟨ppqn, tracks, hFile, ?_, ?_⟩
  · intro n hn off hOff
    exact span_forward_or_left_open ppqn tracks hn hOff
  · intro hClosed n hn off hOff
    rcases span_forward_or_left_open ppqn tracks hn hOff with hForward | hBackward
    · exact hForward
    · obtain ⟨before, after, hEq, hOpen, track, hTrack, _⟩ := hBackward
      exact absurd rfl (hClosed before after hEq (List.ne_nil_of_mem hTrack) _ hOpen)

/-- A note of tick 100 that the first track leaves open ends at tick 0, where the second track has a
release of its key. -/
theorem spans_ofBytes_released_in_next_track :
    ∃ r : Recording Rat,
      ofBytes ([0x4d, 0x54, 0x68, 0x64, 0, 0, 0, 6, 0, 1, 0, 2, 1, 0xe0] ++
        [0x4d, 0x54, 0x72, 0x6b, 0, 0, 0, 4, 100, 0x90, 60, 90] ++
        [0x4d, 0x54, 0x72, 0x6b, 0, 0, 0, 4, 0, 0x80, 60, 0]) = .ok r ∧
      r.notes = [⟨100, some 0, 60, 90, 0, 0⟩] ∧
      ∃ before after, [[⟨100, .noteOn 0 60 90⟩], [⟨0, .noteOff 0 60⟩]] = before ++ after ∧
        ⟨100, none, 60, 90, 0, 0⟩ ∈ (ofTracks 480 before : Recording Rat).notes := by
  have hFile : Midi.File.ofBytes ([0x4d, 0x54, 0x68, 0x64, 0, 0, 0, 6, 0, 1, 0, 2, 1, 0xe0] ++
      [0x4d, 0x54, 0x72, 0x6b, 0, 0, 0, 4, 100, 0x90, 60, 90] ++
      [0x4d, 0x54, 0x72, 0x6b, 0, 0, 0, 4, 0, 0x80, 60, 0]) =
        .ok ⟨.perBeat 480, [[⟨100, .noteOn 0 60 90⟩], [⟨0, .noteOff 0 60⟩]]⟩ := by cbv
  have hBytes := (ofBytes_eq_ok_iff (α := Rat)).mpr ⟨480, _, hFile, rfl⟩
  have hNotes : (ofTracks 480 [[⟨100, .noteOn 0 60 90⟩], [⟨0, .noteOff 0 60⟩]] :
      Recording Rat).notes = [⟨100, some 0, 60, 90, 0, 0⟩] := by decide +kernel
  refine ⟨_, hBytes, hNotes, ?_⟩
  obtain ⟨ppqn, tracks, hTracks, hSpans, -⟩ := spans_ofBytes hBytes
  rw [hFile] at hTracks
  cases hTracks
  rcases hSpans _ (hNotes ▸ List.mem_singleton_self _) 0 rfl with hForward | hBackward
  · exact absurd hForward (by decide)
  · obtain ⟨before, after, hEq, hOpen, _⟩ := hBackward
    exact ⟨before, after, hEq, hOpen⟩

end Recording

end LeadSheet
