import Mathlib.Data.List.Permutation
import Mathlib.Logic.Function.Basic
import LeadSheet.Proofs.Midi.Spans
import LeadSheet.Proofs.Order.Bisect

/-!
# Which release closes which note

Every note in a list of events starts a span, and a release closes the latest span of its channel
and key that is still open. Which release that is depends only on the events, not on how the open
notes are kept: a list of notes, the latest first, in which a release closes the first that it can.
-/

namespace LeadSheet
set_option autoImplicit false

namespace Midi

section Pairing

def EventBody.Starts (channel key : Nat) : EventBody → Prop
  | .noteOn c k velocity => c = channel ∧ k = key ∧ 0 < velocity
  | _ => False

def StartsAt (events : List (Nat × EventBody)) (i channel key : Nat) : Prop :=
  ∃ e, events[i]? = some e ∧ e.2.Starts channel key

def ReleasesAt (events : List (Nat × EventBody)) (j channel key : Nat) : Prop :=
  ∃ e, events[j]? = some e ∧ e.2.Releases channel key

/-- The event at `j` finds the note of the event at `i` still open. -/
structure CanClose (events : List (Nat × EventBody)) (closer : Nat → Option Nat) (i j : Nat) :
    Prop where
  before : i < j
  isOpen : ∀ j' < j, closer i ≠ some j'
  sameKey : ∃ channel key, StartsAt events i channel key ∧ ReleasesAt events j channel key

/-- Every release closes the latest note that it can. -/
def IsPairing (events : List (Nat × EventBody)) (closer : Nat → Option Nat) : Prop :=
  ∀ i j, closer i = some j ↔
    CanClose events closer i j ∧ ∀ i', CanClose events closer i' j → i' ≤ i

def IsOpen (events : List (Nat × EventBody)) (closer : Nat → Option Nat)
    (channel key i : Nat) : Prop :=
  StartsAt events i channel key ∧ closer i = none

variable {events : List (Nat × EventBody)} {closer closer' : Nat → Option Nat}
  {e : Nat × EventBody}

theorem EventBody.Releases.unique {body : EventBody} {c k c' k' : Nat} (h : body.Releases c k)
    (h' : body.Releases c' k') : c = c' ∧ k = k' := by
  cases body with
  | noteOn channel key velocity => exact ⟨h.1.symm.trans h'.1, h.2.1.symm.trans h'.2.1⟩
  | noteOff channel key => exact ⟨h.1.symm.trans h'.1, h.2.symm.trans h'.2⟩
  | _ => exact h.elim

theorem StartsAt.lt_length {i c k : Nat} (h : StartsAt events i c k) : i < events.length := by
  obtain ⟨e, he, _⟩ := h
  exact (List.getElem?_eq_some_iff.mp he).1

theorem ReleasesAt.lt_length {j c k : Nat} (h : ReleasesAt events j c k) : j < events.length := by
  obtain ⟨e, he, _⟩ := h
  exact (List.getElem?_eq_some_iff.mp he).1

theorem startsAt_concat {i c k : Nat} (hi : i < events.length) :
    StartsAt (events ++ [e]) i c k ↔ StartsAt events i c k := by
  unfold StartsAt
  rw [List.getElem?_append_left hi]

theorem releasesAt_concat {j c k : Nat} (hj : j < events.length) :
    ReleasesAt (events ++ [e]) j c k ↔ ReleasesAt events j c k := by
  unfold ReleasesAt
  rw [List.getElem?_append_left hj]

theorem releasesAt_concat_length {c k : Nat} :
    ReleasesAt (events ++ [e]) events.length c k ↔ e.2.Releases c k := by
  simp [ReleasesAt]

theorem IsPairing.lt_length (h : IsPairing events closer) {i j : Nat} (hi : closer i = some j) :
    i < events.length ∧ j < events.length := by
  obtain ⟨⟨_, _, c, k, hStarts, hReleases⟩, _⟩ := (h i j).mp hi
  exact ⟨hStarts.lt_length, hReleases.lt_length⟩

theorem canClose_concat {i j : Nat} (hj : j < events.length)
    (hBefore : ∀ i, ∀ j < events.length, closer' i = some j ↔ closer i = some j) :
    CanClose (events ++ [e]) closer' i j ↔ CanClose events closer i j := by
  constructor
  · rintro ⟨hij, hOpen, c, k, hStarts, hReleases⟩
    refine ⟨hij, fun j' hj' => ?_, c, k, (startsAt_concat (hij.trans hj)).mp hStarts,
      (releasesAt_concat hj).mp hReleases⟩
    exact (not_congr (hBefore i j' (hj'.trans hj))).mp (hOpen j' hj')
  · rintro ⟨hij, hOpen, c, k, hStarts, hReleases⟩
    refine ⟨hij, fun j' hj' => ?_, c, k, (startsAt_concat (hij.trans hj)).mpr hStarts,
      (releasesAt_concat hj).mpr hReleases⟩
    exact (not_congr (hBefore i j' (hj'.trans hj))).mpr (hOpen j' hj')

theorem canClose_concat_length {i : Nat} (h : IsPairing events closer)
    (hBefore : ∀ i, ∀ j < events.length, closer' i = some j ↔ closer i = some j) :
    CanClose (events ++ [e]) closer' i events.length ↔
      ∃ c k, IsOpen events closer c k i ∧ e.2.Releases c k := by
  constructor
  · rintro ⟨hi, hOpen, c, k, hStarts, hReleases⟩
    refine ⟨c, k, ⟨(startsAt_concat hi).mp hStarts, ?_⟩, releasesAt_concat_length.mp hReleases⟩
    rw [Option.eq_none_iff_forall_ne_some]
    intro j hj
    have hLt := (h.lt_length hj).2
    exact hOpen j hLt ((hBefore i j hLt).mpr hj)
  · rintro ⟨c, k, ⟨hStarts, hNone⟩, hReleases⟩
    have hi := hStarts.lt_length
    refine ⟨hi, fun j hj hSome => ?_, c, k, (startsAt_concat hi).mpr hStarts,
      releasesAt_concat_length.mpr hReleases⟩
    rw [hBefore i j hj, hNone] at hSome
    cases hSome

/-- One event more leaves all pairs, and may close one note itself. -/
theorem IsPairing.concat (h : IsPairing events closer)
    (hBefore : ∀ i, ∀ j < events.length, closer' i = some j ↔ closer i = some j)
    (hAt : ∀ i, closer' i = some events.length ↔
      CanClose (events ++ [e]) closer' i events.length ∧
        ∀ i', CanClose (events ++ [e]) closer' i' events.length → i' ≤ i)
    (hAfter : ∀ i j, closer' i = some j → j ≤ events.length) :
    IsPairing (events ++ [e]) closer' := by
  intro i j
  -- an earlier event closes what it closed before, and there is none after the new one
  rcases lt_trichotomy j events.length with hlt | rfl | hgt
  · simp only [canClose_concat hlt hBefore, hBefore i j hlt]
    exact h i j
  · exact hAt i
  · constructor
    · intro hSome
      exact absurd (hAfter i j hSome) (not_le.mpr hgt)
    · rintro ⟨⟨_, _, c, k, _, hReleases⟩, _⟩
      have hLt := hReleases.lt_length
      rw [List.length_append, List.length_singleton] at hLt
      omega

theorem IsPairing.concat_of_not_open (h : IsPairing events closer)
    (hNone : ∀ c k i, e.2.Releases c k → ¬IsOpen events closer c k i) :
    IsPairing (events ++ [e]) closer := by
  apply h.concat (fun _ _ _ => Iff.rfl)
  · intro i
    rw [canClose_concat_length h fun _ _ _ => Iff.rfl]
    constructor
    · intro hSome
      exact absurd (h.lt_length hSome).2 (lt_irrefl _)
    · rintro ⟨⟨c, k, hOpen, hReleases⟩, _⟩
      exact absurd hOpen (hNone c k i hReleases)
  · intro i j hSome
    exact (h.lt_length hSome).2.le

theorem IsPairing.concat_of_open (h : IsPairing events closer) {c k i : Nat}
    (hReleases : e.2.Releases c k) (hOpen : IsOpen events closer c k i)
    (hLatest : ∀ i', IsOpen events closer c k i' → i' ≤ i) :
    IsPairing (events ++ [e]) (Function.update closer i (some events.length)) := by
  have hBefore : ∀ i', ∀ j < events.length,
      Function.update closer i (some events.length) i' = some j ↔ closer i' = some j := by
    intro i' j hj
    by_cases hEq : i' = i
    · rw [hEq, Function.update_self, hOpen.2]
      simp [hj.ne']
    · rw [Function.update_of_ne hEq]
  have hCan (i' : Nat) : CanClose (events ++ [e])
      (Function.update closer i (some events.length)) i' events.length ↔
        IsOpen events closer c k i' := by
    rw [canClose_concat_length h hBefore]
    constructor
    · rintro ⟨c', k', hOpen', hReleases'⟩
      obtain ⟨rfl, rfl⟩ := hReleases.unique hReleases'
      exact hOpen'
    · intro hOpen'
      exact ⟨c, k, hOpen', hReleases⟩
  apply h.concat hBefore
  · intro i'
    simp only [hCan]
    by_cases hEq : i' = i
    · rw [hEq, Function.update_self]
      exact ⟨fun _ => ⟨hOpen, hLatest⟩, fun _ => rfl⟩
    · rw [Function.update_of_ne hEq]
      constructor
      · intro hSome
        exact absurd (h.lt_length hSome).2 (lt_irrefl _)
      · rintro ⟨hOpen', hLatest'⟩
        exact absurd (le_antisymm (hLatest i' hOpen') (hLatest' i hOpen)) hEq
  · intro i' j hSome
    by_cases hEq : i' = i
    · rw [hEq, Function.update_self] at hSome
      exact (Option.some_inj.mp hSome).ge
    · rw [Function.update_of_ne hEq] at hSome
      exact (h.lt_length hSome).2.le

/-- The events alone say which release closes which note. -/
theorem IsPairing.unique (h : IsPairing events closer) (h' : IsPairing events closer') :
    closer = closer' := by
  have hAgree : ∀ j i, closer i = some j ↔ closer' i = some j := by
    intro j
    -- what is still open at `j` depends on the releases before `j` only
    induction j using Nat.strong_induction_on with
    | _ j ih =>
      have hCan (i : Nat) : CanClose events closer i j ↔ CanClose events closer' i j := by
        have hOpen : (∀ j' < j, closer i ≠ some j') ↔ ∀ j' < j, closer' i ≠ some j' :=
          forall₂_congr fun j' hj' => not_congr (ih j' hj' i)
        constructor
        · rintro ⟨hij, hOpen', hKey⟩
          exact ⟨hij, hOpen.mp hOpen', hKey⟩
        · rintro ⟨hij, hOpen', hKey⟩
          exact ⟨hij, hOpen.mpr hOpen', hKey⟩
      intro i
      rw [h i j, h' i j]
      simp only [hCan]
  funext i
  apply Option.ext
  intro j
  exact hAgree j i

end Pairing

section Notes

def programOf? (channel : Nat) : Nat × EventBody → Option Nat
  | (_, .program c program) => if c = channel then some program else none
  | _ => none

def lastProgram (events : List (Nat × EventBody)) (channel : Nat) : Nat :=
  (events.filterMap (programOf? channel)).getLast?.getD 0

def start? (before : List (Nat × EventBody)) : Nat × EventBody → Option Note
  | (tick, .noteOn channel key velocity) =>
    if 0 < velocity then some ⟨tick, none, key, velocity, channel, lastProgram before channel⟩
    else none
  | _ => none

def startedAt? (events : List (Nat × EventBody)) (i : Nat) : Option Note :=
  (events[i]?).bind (start? (events.take i))

def tickOffAt (events : List (Nat × EventBody)) (closer : Nat → Option Nat) (i : Nat) :
    Option Nat :=
  (closer i).bind fun j => (events[j]?).map Prod.fst

def noteAt? (events : List (Nat × EventBody)) (closer : Nat → Option Nat) (i : Nat) :
    Option Note :=
  (startedAt? events i).map fun n => { n with tickOff := tickOffAt events closer i }

def notesOf (events : List (Nat × EventBody)) (closer : Nat → Option Nat) : List Note :=
  (List.range events.length).filterMap (noteAt? events closer)

variable {events : List (Nat × EventBody)} {closer closer' : Nat → Option Nat}
  {e : Nat × EventBody}

theorem lastProgram_concat (channel : Nat) :
    lastProgram (events ++ [e]) channel =
      (programOf? channel e).getD (lastProgram events channel) := by
  unfold lastProgram
  rw [List.filterMap_append, List.getLast?_append]
  cases h : programOf? channel e <;> simp [h]

theorem start?_eq_some_iff {n : Note} :
    start? events e = some n ↔ ∃ tick channel key velocity, 0 < velocity ∧
      e = (tick, .noteOn channel key velocity) ∧
      n = ⟨tick, none, key, velocity, channel, lastProgram events channel⟩ := by
  constructor
  · intro h
    obtain ⟨tick, body⟩ := e
    cases body with
    | noteOn channel key velocity =>
      simp only [start?] at h
      split at h <;> cases h
      exact ⟨tick, channel, key, velocity, ‹_›, rfl, rfl⟩
    | _ => cases h
  · rintro ⟨tick, channel, key, velocity, hVelocity, rfl, rfl⟩
    exact if_pos hVelocity

theorem starts_iff {c k : Nat} :
    e.2.Starts c k ↔ ∃ n, start? events e = some n ∧ n.channel = c ∧ n.pitch = k := by
  constructor
  · intro h
    obtain ⟨tick, body⟩ := e
    cases body with
    | noteOn channel key velocity =>
      exact ⟨_, start?_eq_some_iff.mpr ⟨tick, channel, key, velocity, h.2.2, rfl, rfl⟩, h.1, h.2.1⟩
    | _ => exact h.elim
  · rintro ⟨n, hStart, rfl, rfl⟩
    obtain ⟨tick, channel, key, velocity, hVelocity, rfl, rfl⟩ := start?_eq_some_iff.mp hStart
    exact ⟨rfl, rfl, hVelocity⟩

theorem start?_eq_none {c k : Nat} (h : e.2.Releases c k) : start? events e = none := by
  rw [Option.eq_none_iff_forall_ne_some]
  intro n hStart
  obtain ⟨tick, channel, key, velocity, hVelocity, rfl, rfl⟩ := start?_eq_some_iff.mp hStart
  exact hVelocity.ne' h.2.2

theorem startsAt_iff {i c k : Nat} :
    StartsAt events i c k ↔ ∃ n, startedAt? events i = some n ∧ n.channel = c ∧ n.pitch = k := by
  unfold StartsAt startedAt?
  cases events[i]? with
  | none => simp
  | some e => simp [@starts_iff (events.take i) e]

theorem startedAt?_concat {i : Nat} (hi : i < events.length) :
    startedAt? (events ++ [e]) i = startedAt? events i := by
  unfold startedAt?
  rw [List.getElem?_append_left hi, List.take_append_of_le_length hi.le]

theorem startedAt?_concat_length :
    startedAt? (events ++ [e]) events.length = start? events e := by
  unfold startedAt?
  rw [List.getElem?_concat_length, List.take_left, Option.bind_some]

theorem tickOffAt_concat {i : Nat} (h : IsPairing events closer) (hEq : closer' i = closer i) :
    tickOffAt (events ++ [e]) closer' i = tickOffAt events closer i := by
  unfold tickOffAt
  rw [hEq]
  cases hSome : closer i with
  | none => rfl
  | some j =>
    rw [Option.bind_some, Option.bind_some, List.getElem?_append_left (h.lt_length hSome).2]

theorem noteAt?_concat {i : Nat} (h : IsPairing events closer) (hi : i < events.length)
    (hEq : closer' i = closer i) : noteAt? (events ++ [e]) closer' i = noteAt? events closer i := by
  unfold noteAt?
  rw [startedAt?_concat hi, tickOffAt_concat h hEq]

theorem tickOffAt_eq_none_iff {i : Nat} (h : IsPairing events closer) :
    tickOffAt events closer i = none ↔ closer i = none := by
  unfold tickOffAt
  cases hSome : closer i with
  | none => simp
  | some j => simp [(h.lt_length hSome).2]

theorem isOpen_iff {i c k : Nat} (h : IsPairing events closer) :
    IsOpen events closer c k i ↔ ∃ n, noteAt? events closer i = some n ∧
      n.channel = c ∧ n.pitch = k ∧ n.tickOff = none := by
  unfold IsOpen noteAt?
  rw [startsAt_iff, ← tickOffAt_eq_none_iff h]
  cases startedAt? events i with
  | none => simp
  | some n => simp [and_assoc]

theorem notesOf_concat (h : IsPairing events closer) :
    notesOf (events ++ [e]) closer = notesOf events closer ++
      (noteAt? (events ++ [e]) closer events.length).toList := by
  unfold notesOf
  rw [List.length_append, List.length_singleton, List.range_succ, List.filterMap_append]
  congr 1
  apply List.filterMap_congr
  intro i hi
  exact noteAt?_concat h (List.mem_range.mp hi) rfl

theorem release_eq_self {c k tick : Nat} {notes : List Note}
    (h : ∀ n ∈ notes, ¬(n.channel = c ∧ n.pitch = k ∧ n.tickOff = none)) :
    release c k tick notes = notes := by
  induction notes with
  | nil => rfl
  | cons n notes ih =>
    rw [release, if_neg (h n List.mem_cons_self), ih fun m hm => h m (List.mem_cons_of_mem n hm)]

theorem release_append_cons {c k tick : Nat} {front back : List Note} {n : Note}
    (hFront : ∀ m ∈ front, ¬(m.channel = c ∧ m.pitch = k ∧ m.tickOff = none))
    (hn : n.channel = c ∧ n.pitch = k ∧ n.tickOff = none) :
    release c k tick (front ++ n :: back) = front ++ { n with tickOff := some tick } :: back := by
  induction front with
  | nil => rw [List.nil_append, release, if_pos hn, List.nil_append]
  | cons m front ih =>
    rw [List.cons_append, release, if_neg (hFront m List.mem_cons_self),
      ih fun m' hm' => hFront m' (List.mem_cons_of_mem m hm'), List.cons_append]

theorem noteAt?_closed {i : Nat} {n : Note} (hi : i < events.length)
    (hNote : noteAt? events closer i = some n) (hSome : closer' i = some events.length) :
    noteAt? (events ++ [e]) closer' i = some { n with tickOff := some e.1 } := by
  obtain ⟨m, hm, rfl⟩ := Option.map_eq_some_iff.mp hNote
  have hOff : tickOffAt (events ++ [e]) closer' i = some e.1 := by
    rw [tickOffAt, hSome, Option.bind_some, List.getElem?_concat_length, Option.map_some]
  rw [noteAt?, startedAt?_concat hi, hm, hOff, Option.map_some]

/-- Closing one note changes its place in the list of notes and no other. -/
theorem exists_notesOf_close (h : IsPairing events closer) {i : Nat} {n : Note}
    {front back : List Nat} (hSplit : List.range events.length = front ++ i :: back)
    (hNote : noteAt? events closer i = some n) (hSelf : closer' i = some events.length)
    (hOther : ∀ x, x ≠ i → closer' x = closer x)
    (hNone : noteAt? (events ++ [e]) closer' events.length = none) :
    notesOf events closer = front.filterMap (noteAt? events closer) ++
        n :: back.filterMap (noteAt? events closer) ∧
      notesOf (events ++ [e]) closer' = front.filterMap (noteAt? events closer) ++
        { n with tickOff := some e.1 } :: back.filterMap (noteAt? events closer) := by
  have hSorted : (front ++ i :: back).Pairwise (· < ·) := hSplit ▸ List.pairwise_lt_range
  obtain ⟨_, hBack, hFront⟩ := List.pairwise_append.mp hSorted
  have hBack := (List.pairwise_cons.mp hBack).1
  have hLt : ∀ x ∈ front ++ i :: back, x < events.length := by
    intro x hx
    rwa [← hSplit, List.mem_range] at hx
  have hSame (xs : List Nat) (hxs : ∀ x ∈ xs, x ∈ front ++ i :: back ∧ x ≠ i) :
      xs.filterMap (noteAt? (events ++ [e]) closer') = xs.filterMap (noteAt? events closer) := by
    apply List.filterMap_congr
    intro x hx
    exact noteAt?_concat h (hLt x (hxs x hx).1) (hOther x (hxs x hx).2)
  have hFrontSame := hSame front fun x hx =>
    ⟨List.mem_append_left _ hx, (hFront x hx i List.mem_cons_self).ne⟩
  have hBackSame := hSame back fun x hx =>
    ⟨List.mem_append_right _ (List.mem_cons_of_mem i hx), (hBack x hx).ne'⟩
  have hClosed : noteAt? (events ++ [e]) closer' i = some { n with tickOff := some e.1 } :=
    noteAt?_closed (hLt i (by simp)) hNote hSelf
  constructor
  · rw [notesOf, hSplit, List.filterMap_append, List.filterMap_cons_some hNote]
  · rw [notesOf, List.length_append, List.length_singleton, List.range_succ, hSplit,
      List.filterMap_append, List.filterMap_append, List.filterMap_cons_some hClosed, hFrontSame,
      hBackSame, List.filterMap_cons_none hNone, List.filterMap_nil, List.append_nil]

/-- A release does to the notes, the latest first, what one more event does to the pairs. -/
theorem exists_release_eq (h : IsPairing events closer) {c k : Nat}
    (hReleases : e.2.Releases c k) :
    ∃ closer', IsPairing (events ++ [e]) closer' ∧
      release c k e.1 (notesOf events closer).reverse =
        (notesOf (events ++ [e]) closer').reverse := by
  have hNone (closer : Nat → Option Nat) : noteAt? (events ++ [e]) closer events.length = none := by
    rw [noteAt?, startedAt?_concat_length, start?_eq_none hReleases, Option.map_none]
  by_cases hSome : ∃ i ∈ List.range events.length, IsOpen events closer c k i
  · obtain ⟨front, i, back, hSplit, hOpen, hBack⟩ := Order.exists_last hSome
    obtain ⟨n, hNote, hMatch⟩ := (isOpen_iff h).mp hOpen
    have hLatest : ∀ i', IsOpen events closer c k i' → i' ≤ i := by
      intro i' hOpen'
      have hSorted : (front ++ i :: back).Pairwise (· < ·) := hSplit ▸ List.pairwise_lt_range
      have hi' : i' ∈ front ++ i :: back := hSplit ▸ List.mem_range.mpr hOpen'.1.lt_length
      rcases List.mem_append.mp hi' with hi' | hi'
      · exact ((List.pairwise_append.mp hSorted).2.2 i' hi' i List.mem_cons_self).le
      · rcases List.mem_cons.mp hi' with rfl | hi'
        · exact le_rfl
        · exact absurd hOpen' (hBack i' hi')
    obtain ⟨hBefore, hAfter⟩ := exists_notesOf_close h hSplit hNote
      (Function.update_self i (some events.length) closer)
      (fun x hne => Function.update_of_ne hne _ _) (hNone _)
    refine ⟨_, h.concat_of_open hReleases hOpen hLatest, ?_⟩
    -- backwards, the notes behind the one that is closed come first, and none of them matches
    rw [hBefore, hAfter, List.reverse_append, List.reverse_append, List.reverse_cons,
      List.reverse_cons, List.append_assoc, List.append_assoc]
    apply release_append_cons _ hMatch
    intro m hm hMatch'
    obtain ⟨x, hx, hNote'⟩ := List.mem_filterMap.mp (List.mem_reverse.mp hm)
    exact hBack x hx ((isOpen_iff h).mpr ⟨m, hNote', hMatch'⟩)
  · refine ⟨closer, h.concat_of_not_open ?_, ?_⟩
    · intro c' k' i hReleases' hOpen
      obtain ⟨rfl, rfl⟩ := hReleases.unique hReleases'
      exact hSome ⟨i, List.mem_range.mpr hOpen.1.lt_length, hOpen⟩
    · rw [notesOf_concat h, hNone, Option.toList_none, List.append_nil]
      apply release_eq_self
      intro n hn hMatch
      obtain ⟨i, hi, hNote⟩ := List.mem_filterMap.mp (List.mem_reverse.mp hn)
      exact hSome ⟨i, hi, (isOpen_iff h).mpr ⟨n, hNote, hMatch⟩⟩

theorem notesOf_concat_start (h : IsPairing events closer) :
    notesOf (events ++ [e]) closer = notesOf events closer ++ (start? events e).toList := by
  have hNone : closer events.length = none := by
    rw [Option.eq_none_iff_forall_ne_some]
    intro j hSome
    exact absurd (h.lt_length hSome).1 (lt_irrefl _)
  have hOff : (start? events e).map (fun n => { n with tickOff := none }) = start? events e := by
    cases hStart : start? events e with
    | none => rfl
    | some n =>
      obtain ⟨_, _, _, _, _, _, rfl⟩ := start?_eq_some_iff.mp hStart
      rfl
  rw [notesOf_concat h, noteAt?, startedAt?_concat_length, tickOffAt, hNone, Option.bind_none, hOff]

end Notes

end Midi

end LeadSheet
