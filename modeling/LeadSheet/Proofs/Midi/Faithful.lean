import Mathlib.Algebra.GroupWithZero.Nat
import LeadSheet.Proofs.Midi.Pairing
import LeadSheet.Proofs.Order.Latest

/-!
# What a recording tells of its file

Reading a file loses nothing and adds nothing. The events of all tracks, track after track, are one
list: tempos and texts are picked from it, its notes are closed by its releases, and no tick lies
behind the end of the longest track.
-/

namespace LeadSheet
set_option autoImplicit false

namespace Midi

def eventsOf (tracks : List (List TrackEvent)) : List (Nat × EventBody) :=
  tracks.flatMap (timed 0)

def ticksOf (track : List TrackEvent) : Nat := (track.map (·.delta)).sum

section Gathering

variable {α : Type} [Scalar α]

def tempoOf? : Nat × EventBody → Option (Nat × α)
  | (tick, .tempo microseconds) => some (tick, 60000000 / Scalar.ofNat (max microseconds 1))
  | _ => none

def textOf? : Nat × EventBody → Option TextEvent
  | (tick, .text kind bytes) =>
    some ⟨tick, String.ofList (Text.trim (Text.decodeLossy bytes)), kind⟩
  | _ => none

structure Gathered (events : List (Nat × EventBody)) (g : Gathering α) : Prop where
  notes : ∃ closer, IsPairing events closer ∧ g.notes = (notesOf events closer).reverse
  programs : ∀ channel, (g.programs.lookup channel).getD 0 = lastProgram events channel
  tempos : g.tempos = (events.filterMap tempoOf?).reverse
  texts : g.texts = (events.filterMap textOf?).reverse

theorem reverse_filterMap_concat {β γ : Type} (f : β → Option γ) (xs : List β) (x : β) :
    ((xs ++ [x]).filterMap f).reverse = (f x).toList ++ (xs.filterMap f).reverse := by
  rw [List.filterMap_append, List.reverse_append]
  cases h : f x <;> simp [h]

/-- What an event at its tick adds, notes apart. -/
structure Adds (x : Nat × EventBody) (g g' : Gathering α) : Prop where
  maxTick : g'.maxTick = max g.maxTick x.1
  programs : ∀ channel, (g'.programs.lookup channel).getD 0 =
    (programOf? channel x).getD ((g.programs.lookup channel).getD 0)
  tempos : g'.tempos = (tempoOf? x).toList ++ g.tempos
  texts : g'.texts = (textOf? x).toList ++ g.texts

theorem Gathering.adds_step (g : Gathering α) (e : TrackEvent) :
    Adds (g.tick + e.delta, e.body) g (g.step e) := by
  obtain ⟨delta, body⟩ := e
  cases body with
  | noteOn channel key velocity =>
    simp only [step, hear]
    split <;> exact ⟨rfl, fun _ => rfl, rfl, rfl⟩
  | program channel program =>
    refine ⟨rfl, fun c => ?_, rfl, rfl⟩
    by_cases hChannel : channel = c
    · simp [step, hear, programOf?, hChannel]
    · simp [step, hear, programOf?, hChannel, List.lookup_cons, beq_false_of_ne (Ne.symm hChannel)]
  | _ => exact ⟨rfl, fun _ => rfl, rfl, rfl⟩

variable {events : List (Nat × EventBody)} {g : Gathering α}

theorem Gathered.notes_of_start (h : Gathered events g) {e : Nat × EventBody}
    (hNone : ∀ c k, ¬e.2.Releases c k) :
    ∃ closer, IsPairing (events ++ [e]) closer ∧
      (start? events e).toList ++ g.notes = (notesOf (events ++ [e]) closer).reverse := by
  obtain ⟨closer, hPairing, hNotes⟩ := h.notes
  refine ⟨closer, hPairing.concat_of_not_open fun c k i hReleases => ?_, ?_⟩
  · exact absurd hReleases (hNone c k)
  · rw [notesOf_concat_start hPairing, List.reverse_append, hNotes]
    cases start? events e <;> rfl

theorem Gathered.notes_of_release (h : Gathered events g) {e : Nat × EventBody} {c k : Nat}
    (hReleases : e.2.Releases c k) :
    ∃ closer, IsPairing (events ++ [e]) closer ∧
      release c k e.1 g.notes = (notesOf (events ++ [e]) closer).reverse := by
  obtain ⟨closer, hPairing, hNotes⟩ := h.notes
  rw [hNotes]
  exact exists_release_eq hPairing hReleases

theorem Gathered.notes_step (h : Gathered events g) (e : TrackEvent) :
    ∃ closer, IsPairing (events ++ [(g.tick + e.delta, e.body)]) closer ∧
      (g.step e).notes =
        (notesOf (events ++ [(g.tick + e.delta, e.body)]) closer).reverse := by
  obtain ⟨delta, body⟩ := e
  cases body with
  | noteOn channel key velocity =>
    -- a note without velocity is a release
    by_cases hVelocity : 0 < velocity
    · have hStart := h.notes_of_start (e := (g.tick + delta, .noteOn channel key velocity))
        fun c k hReleases => hVelocity.ne' hReleases.2.2
      simpa [Gathering.step, Gathering.hear, start?, hVelocity, h.programs] using hStart
    · have hRelease := h.notes_of_release (e := (g.tick + delta, .noteOn channel key velocity))
        ⟨rfl, rfl, Nat.eq_zero_of_not_pos hVelocity⟩
      simpa [Gathering.step, Gathering.hear, hVelocity] using hRelease
  | noteOff channel key =>
    exact h.notes_of_release (e := (g.tick + delta, .noteOff channel key)) ⟨rfl, rfl⟩
  | _ => exact h.notes_of_start fun _ _ => id

theorem Gathered.step (h : Gathered events g) (e : TrackEvent) :
    Gathered (events ++ [(g.tick + e.delta, e.body)]) (g.step e) where
  notes := h.notes_step e
  programs channel := by rw [(g.adds_step e).programs, h.programs, lastProgram_concat]
  tempos := by rw [(g.adds_step e).tempos, h.tempos, reverse_filterMap_concat]
  texts := by rw [(g.adds_step e).texts, h.texts, reverse_filterMap_concat]

theorem Gathered.foldl_step (h : Gathered events g) (track : List TrackEvent) :
    Gathered (events ++ timed g.tick track) (track.foldl Gathering.step g) := by
  induction track generalizing events g with
  | nil => rwa [timed, List.append_nil]
  | cons e track ih =>
    have hRest := ih (h.step e)
    rwa [g.tick_step, List.append_assoc, List.singleton_append] at hRest

/-- A track starts at tick 0, whatever has been gathered before. -/
theorem Gathered.track (h : Gathered events g) (track : List TrackEvent) :
    Gathered (events ++ timed 0 track) (g.track track) :=
  have hStart : Gathered events { g with tick := 0 } := ⟨h.notes, h.programs, h.tempos, h.texts⟩
  hStart.foldl_step track

theorem isPairing_nil : IsPairing [] fun _ => none := by
  intro i j
  constructor
  · intro hSome
    cases hSome
  · rintro ⟨⟨_, _, c, k, hStarts, _⟩, _⟩
    exact absurd hStarts.lt_length (Nat.not_lt_zero i)

theorem gathered_tracks (tracks : List (List TrackEvent)) :
    Gathered (eventsOf tracks) (tracks.foldl Gathering.track (Gathering.start : Gathering α)) := by
  induction tracks using List.reverseRecOn with
  | nil => exact ⟨⟨_, isPairing_nil, rfl⟩, fun _ => rfl, rfl, rfl⟩
  | append_singleton tracks track ih =>
    rw [List.foldl_append, eventsOf, List.flatMap_append, List.flatMap_singleton]
    exact ih.track track

end Gathering

section MaxTick

theorem le_ticksOf_of_mem_timed {tick : Nat} {track : List TrackEvent} {x : Nat × EventBody}
    (h : x ∈ timed tick track) : x.1 ≤ tick + ticksOf track := by
  induction track generalizing tick with
  | nil => cases h
  | cons e track ih =>
    rw [ticksOf, List.map_cons, List.sum_cons, ← ticksOf]
    rcases List.mem_cons.mp h with rfl | h
    · exact Nat.add_le_add_left (Nat.le_add_right _ _) _
    · have hRest := ih h
      omega

variable {α : Type} [Scalar α]

theorem Gathering.maxTick_foldl_step (g : Gathering α) (track : List TrackEvent)
    (h : g.tick ≤ g.maxTick) :
    (track.foldl step g).maxTick = max g.maxTick (g.tick + ticksOf track) := by
  induction track generalizing g with
  | nil => exact (max_eq_left h).symm
  | cons e track ih =>
    have hTick := g.tick_step e
    have hMax : (g.step e).maxTick = max g.maxTick (g.tick + e.delta) := (g.adds_step e).maxTick
    rw [List.foldl_cons, ih (g.step e) (by rw [hTick, hMax]; exact le_max_right _ _), hTick, hMax,
      ticksOf, ticksOf, List.map_cons, List.sum_cons]
    omega

theorem maxTick_tracks (tracks : List (List TrackEvent)) :
    (tracks.foldl Gathering.track (Gathering.start : Gathering α)).maxTick =
      (tracks.map ticksOf).max?.getD 0 := by
  have hFold : (tracks.foldl Gathering.track (Gathering.start : Gathering α)).maxTick =
      (tracks.map ticksOf).foldl max 0 := by
    induction tracks using List.reverseRecOn with
    | nil => rfl
    | append_singleton tracks track ih =>
      rw [List.foldl_append, List.map_append, List.foldl_append, ← ih]
      have hTrack := Gathering.maxTick_foldl_step
        { tracks.foldl Gathering.track (Gathering.start : Gathering α) with tick := 0 } track
        (Nat.zero_le _)
      rwa [Nat.zero_add] at hTrack
  rw [hFold, List.foldl_max, Nat.zero_max]

theorem le_maxTick_of_mem {tracks : List (List TrackEvent)} {x : Nat × EventBody}
    (h : x ∈ eventsOf tracks) : x.1 ≤ (tracks.map ticksOf).max?.getD 0 := by
  obtain ⟨track, hTrack, hx⟩ := List.mem_flatMap.mp h
  have hTicks := le_ticksOf_of_mem_timed hx
  have hMem : ticksOf track ∈ tracks.map ticksOf := List.mem_map_of_mem hTrack
  rw [Nat.zero_add] at hTicks
  cases hMax : (tracks.map ticksOf).max? with
  | none =>
    rw [List.max?_eq_none_iff.mp hMax] at hMem
    cases hMem
  | some m => exact hTicks.trans ((List.max?_eq_some_iff.mp hMax).2 _ hMem)

/-- The ticks of a note are those of two events. -/
theorem exists_events_of_mem_notesOf {events : List (Nat × EventBody)}
    {closer : Nat → Option Nat} {n : Note} (h : n ∈ notesOf events closer) :
    (∃ e ∈ events, n.tickOn = e.1) ∧ ∀ off, n.tickOff = some off → ∃ e ∈ events, off = e.1 := by
  obtain ⟨i, _, hNote⟩ := List.mem_filterMap.mp h
  obtain ⟨m, hStarted, rfl⟩ := Option.map_eq_some_iff.mp hNote
  obtain ⟨e, he, hStart⟩ := Option.bind_eq_some_iff.mp hStarted
  constructor
  · obtain ⟨_, _, _, _, _, rfl, rfl⟩ := start?_eq_some_iff.mp hStart
    exact ⟨_, List.mem_of_getElem? he, rfl⟩
  · intro off hOff
    obtain ⟨j, _, hj⟩ := Option.bind_eq_some_iff.mp hOff
    obtain ⟨f, hf, rfl⟩ := Option.map_eq_some_iff.mp hj
    exact ⟨f, List.mem_of_getElem? hf, rfl⟩

theorem exists_event_of_mem_tempos {events : List (Nat × EventBody)} {x : Nat × α}
    (h : x ∈ events.filterMap tempoOf?) : ∃ e ∈ events, x.1 = e.1 := by
  obtain ⟨⟨tick, body⟩, he, hTempo⟩ := List.mem_filterMap.mp h
  refine ⟨_, he, ?_⟩
  cases body with
  | tempo microseconds =>
    cases hTempo
    rfl
  | _ => cases hTempo

theorem exists_event_of_mem_texts {events : List (Nat × EventBody)} {t : TextEvent}
    (h : t ∈ events.filterMap textOf?) : ∃ e ∈ events, t.tick = e.1 := by
  obtain ⟨⟨tick, body⟩, he, hText⟩ := List.mem_filterMap.mp h
  refine ⟨_, he, ?_⟩
  cases body with
  | text kind bytes =>
    cases hText
    rfl
  | _ => cases hText

end MaxTick

end Midi

namespace Recording

open Midi

variable {α : Type} [Scalar α]

/-- The recording has what the tracks have, and nothing else. -/
structure Faithful (tracks : List (List TrackEvent)) (r : Recording α) : Prop where
  pairing : ∃ closer, IsPairing (eventsOf tracks) closer
  notes : ∀ closer, IsPairing (eventsOf tracks) closer →
    r.notes = notesOf (eventsOf tracks) closer
  tempos : r.tempos = (eventsOf tracks).filterMap tempoOf?
  texts_sorted : r.texts.Pairwise fun t u => t.tick ≤ u.tick
  texts_stable : ∀ tick, r.texts.filter (·.tick = tick) =
    ((eventsOf tracks).filterMap textOf?).filter (·.tick = tick)
  maxTick : r.maxTick = (tracks.map ticksOf).max?.getD 0
  noteTicks_le : ∀ n ∈ r.notes, n.tickOn ≤ r.maxTick ∧
    ∀ off, n.tickOff = some off → off ≤ r.maxTick
  tempoTicks_le : ∀ x ∈ r.tempos, x.1 ≤ r.maxTick
  textTicks_le : ∀ t ∈ r.texts, t.tick ≤ r.maxTick

theorem faithful_ofTracks (ppqn : Nat) (tracks : List (List TrackEvent)) :
    (ofTracks ppqn tracks : Recording α).Faithful tracks := by
  have hGathered := gathered_tracks (α := α) tracks
  obtain ⟨closer, hPairing, hNotes⟩ := hGathered.notes
  have hNotes : (ofTracks ppqn tracks : Recording α).notes = notesOf (eventsOf tracks) closer := by
    rw [ofTracks, hNotes, List.reverse_reverse]
  have hTempos : (ofTracks ppqn tracks : Recording α).tempos =
      (eventsOf tracks).filterMap tempoOf? := by
    rw [ofTracks, hGathered.tempos, List.reverse_reverse]
  have hTexts : (ofTracks ppqn tracks : Recording α).texts =
      ((eventsOf tracks).filterMap textOf?).mergeSort fun t u => t.tick ≤ u.tick := by
    rw [ofTracks, hGathered.texts, List.reverse_reverse]
  have hMax : (ofTracks ppqn tracks : Recording α).maxTick =
      (tracks.map ticksOf).max?.getD 0 := maxTick_tracks tracks
  refine ⟨⟨closer, hPairing⟩, fun closer' hPairing' => ?_, hTempos, ?_, ?_, hMax, ?_, ?_, ?_⟩
  · rw [hPairing'.unique hPairing, hNotes]
  · rw [hTexts]
    exact Order.pairwise_mergeSort_key TextEvent.tick _
  · intro tick
    rw [hTexts, Order.filter_mergeSort (Order.keyLe_trans TextEvent.tick)
      (Order.keyLe_total TextEvent.tick)]
    -- texts of one tick are in order whichever way round they stand
    apply List.mergeSort_of_pairwise
    apply List.pairwise_of_forall_mem_list
    intro t ht u hu
    have htTick := of_decide_eq_true (List.mem_filter.mp ht).2
    have huTick := of_decide_eq_true (List.mem_filter.mp hu).2
    exact decide_eq_true (htTick.trans huTick.symm).le
  · intro n hn
    rw [hNotes] at hn
    rw [hMax]
    obtain ⟨⟨e, he, hOn⟩, hOff⟩ := exists_events_of_mem_notesOf hn
    refine ⟨hOn ▸ le_maxTick_of_mem he, fun off hSome => ?_⟩
    obtain ⟨e, he, rfl⟩ := hOff off hSome
    exact le_maxTick_of_mem he
  · intro x hx
    rw [hTempos] at hx
    rw [hMax]
    obtain ⟨e, he, hTick⟩ := exists_event_of_mem_tempos hx
    exact hTick ▸ le_maxTick_of_mem he
  · intro t ht
    rw [hTexts, List.mem_mergeSort] at ht
    rw [hMax]
    obtain ⟨e, he, hTick⟩ := exists_event_of_mem_texts ht
    exact hTick ▸ le_maxTick_of_mem he

theorem exists_faithful_ofBytes {bytes : List UInt8} {ppqn : Nat}
    {tracks : List (List TrackEvent)}
    (hFile : File.ofBytes bytes = .ok ⟨.perBeat ppqn, tracks⟩) :
    ∃ r : Recording α, ofBytes bytes = .ok r ∧ r.Faithful tracks :=
  ⟨_, ofBytes_eq_ok_iff.mpr ⟨ppqn, tracks, hFile, rfl⟩, faithful_ofTracks ppqn tracks⟩

/-- A key struck twice before it is released, a release of it too many, and a note that is never
released. -/
theorem exists_faithful_ofBytes_repeated_key :
    ∃ r : Recording Rat,
      ofBytes ([0x4d, 0x54, 0x68, 0x64, 0, 0, 0, 6, 0, 1, 0, 2, 1, 0xe0] ++
        [0x4d, 0x54, 0x72, 0x6b, 0, 0, 0, 13] ++
        [0, 0xc0, 5, 0, 0x90, 60, 90, 10, 60, 80, 10, 60, 0] ++
        [0x4d, 0x54, 0x72, 0x6b, 0, 0, 0, 12] ++
        [7, 0x80, 60, 0, 5, 0x80, 60, 0, 0, 0x90, 62, 70]) = .ok r ∧
      r.Faithful [[⟨0, .program 0 5⟩, ⟨0, .noteOn 0 60 90⟩, ⟨10, .noteOn 0 60 80⟩,
        ⟨10, .noteOn 0 60 0⟩], [⟨7, .noteOff 0 60⟩, ⟨5, .noteOff 0 60⟩, ⟨0, .noteOn 0 62 70⟩]] ∧
      r.notes = [⟨0, some 7, 60, 90, 0, 5⟩, ⟨10, some 20, 60, 80, 0, 5⟩,
        ⟨12, none, 62, 70, 0, 5⟩] := by
  have hFile : File.ofBytes ([0x4d, 0x54, 0x68, 0x64, 0, 0, 0, 6, 0, 1, 0, 2, 1, 0xe0] ++
      [0x4d, 0x54, 0x72, 0x6b, 0, 0, 0, 13] ++
      [0, 0xc0, 5, 0, 0x90, 60, 90, 10, 60, 80, 10, 60, 0] ++
      [0x4d, 0x54, 0x72, 0x6b, 0, 0, 0, 12] ++
      [7, 0x80, 60, 0, 5, 0x80, 60, 0, 0, 0x90, 62, 70]) =
        .ok ⟨.perBeat 480, [[⟨0, .program 0 5⟩, ⟨0, .noteOn 0 60 90⟩, ⟨10, .noteOn 0 60 80⟩,
          ⟨10, .noteOn 0 60 0⟩],
          [⟨7, .noteOff 0 60⟩, ⟨5, .noteOff 0 60⟩, ⟨0, .noteOn 0 62 70⟩]]⟩ := by cbv
  obtain ⟨r, hBytes, hFaithful⟩ := exists_faithful_ofBytes (α := Rat) hFile
  refine ⟨r, hBytes, hFaithful, ?_⟩
  obtain ⟨ppqn, tracks, hTracks, rfl⟩ := ofBytes_eq_ok_iff.mp hBytes
  rw [hFile] at hTracks
  cases hTracks
  decide +kernel

end Recording

end LeadSheet
