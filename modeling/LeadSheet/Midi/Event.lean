/-!
# Track events

The bytes of a track are a run of events, each after a distance in ticks. Distances and lengths are
written in groups of seven bits, at most four. A channel message may leave its status byte out, and
then has that of the last one. A track ends at the first event that cannot be read; the events
before it count. Data that would go past the end stops there.
-/

namespace LeadSheet.Midi
set_option autoImplicit false

inductive TextKind
  | text
  /-- A marker or a cue point. -/
  | marker
  | lyric
  deriving Repr, DecidableEq

def TextKind.name : TextKind → String
  | .text => "text"
  | .marker => "marker"
  | .lyric => "lyric"

inductive EventBody
  | noteOn (channel key velocity : Nat)
  | noteOff (channel key : Nat)
  | program (channel program : Nat)
  | tempo (microseconds : Nat)
  | meter (numerator denominatorPower : Nat)
  | text (kind : TextKind) (bytes : List UInt8)
  | other
  deriving Repr, DecidableEq

structure TrackEvent where
  /-- Ticks since the event before it. -/
  delta : Nat
  body : EventBody
  deriving Repr, DecidableEq

/-- The number that at most `groups` groups of seven bits add to, and what follows. -/
def readGroups : Nat → Nat → List UInt8 → Nat × List UInt8
  | _, n, [] => (n, [])
  | 0, n, bytes => (n, bytes)
  | groups + 1, n, b :: bytes =>
    let n := n * 128 + b.toNat % 128
    if b < 0x80 then (n, bytes) else readGroups groups n bytes

def readLength (bytes : List UInt8) : Nat × List UInt8 := readGroups 4 0 bytes

theorem length_readGroups_le (groups n : Nat) (bytes : List UInt8) :
    (readGroups groups n bytes).2.length ≤ bytes.length := by
  induction groups generalizing n bytes with
  | zero => cases bytes <;> simp [readGroups]
  | succ groups ih =>
    cases bytes with
    | nil => simp [readGroups]
    | cons b bytes =>
      simp only [readGroups]
      split
      · simp
      · exact Nat.le_succ_of_le (ih _ _)

theorem length_readLength_lt (b : UInt8) (bytes : List UInt8) :
    (readLength (b :: bytes)).2.length < (b :: bytes).length := by
  simp only [readLength, readGroups]
  split
  · simp
  · exact Nat.lt_succ_of_le (length_readGroups_le _ _ _)

def readBlock (bytes : List UInt8) : List UInt8 × List UInt8 :=
  let (n, rest) := readLength bytes
  (rest.take n, rest.drop n)

theorem length_readBlock_le (bytes : List UInt8) :
    (readBlock bytes).2.length ≤ bytes.length := by
  have := length_readGroups_le 4 0 bytes
  simp only [readBlock, readLength, List.length_drop]
  omega

/-- Whether five bytes are a possible time code: hours with the frame rate, minutes, seconds, frames
and hundredths of a frame. -/
def isTimeCode (hours minutes seconds frames parts : Nat) : Bool :=
  let rate := [24, 25, 29, 30].getD (hours / 32 % 4) 0
  hours % 32 < 24 && minutes < 60 && seconds < 60 && frames < rate && parts < 100

/-- A meta event. Too short a key signature and an impossible time code cannot be read. -/
def metaBody? (kind : UInt8) (bytes : List UInt8) : Option EventBody :=
  match kind.toNat, bytes.map UInt8.toNat with
  | 0x01, _ => some (.text .text bytes)
  | 0x05, _ => some (.text .lyric bytes)
  | 0x06, _ | 0x07, _ => some (.text .marker bytes)
  | 0x51, a :: b :: c :: _ => some (.tempo (a * 65536 + b * 256 + c))
  | 0x54, h :: m :: s :: f :: p :: _ => if isTimeCode h m s f p then some .other else none
  | 0x58, n :: d :: _ :: _ :: _ => some (.meter n d)
  | 0x59, [] | 0x59, [_] => none
  | _, _ => some .other

def channelBody (status first second : Nat) : EventBody :=
  let channel := status % 16
  match status / 16 with
  | 0x8 => .noteOff channel first
  | 0x9 => .noteOn channel first second
  | 0xc => .program channel first
  | _ => .other

/-- A data byte has its top bit clear. -/
def readData? : List UInt8 → Option (Nat × List UInt8)
  | [] => none
  | b :: bytes => if b < 0x80 then some (b.toNat, bytes) else none

/-- The data of a channel message. Program changes and channel pressure have one byte. -/
def readChannel? (status : UInt8) (bytes : List UInt8) : Option (EventBody × List UInt8) :=
  (readData? bytes).bind fun first =>
    if status.toNat / 16 = 0xc ∨ status.toNat / 16 = 0xd then
      some (channelBody status.toNat first.1 0, first.2)
    else
      (readData? first.2).map fun second =>
        (channelBody status.toNat first.1 second.1, second.2)

/-- An event after its distance, the status that holds after it, and what follows. -/
def readBody? (running : Option UInt8) :
    List UInt8 → Option (EventBody × Option UInt8 × List UInt8)
  | [] => none
  | b :: bytes =>
    if b < 0x80 then
      running.bind fun status =>
        (readChannel? status (b :: bytes)).map fun (body, rest) => (body, some status, rest)
    else if b < 0xf0 then
      (readChannel? b bytes).map fun (body, rest) => (body, some b, rest)
    else if b = 0xff then
      match bytes with
      | [] => none
      | kind :: bytes =>
        (metaBody? kind (readBlock bytes).1).map fun body => (body, none, (readBlock bytes).2)
    else if b = 0xf0 ∨ b = 0xf7 then some (.other, none, (readBlock bytes).2)
    else none

theorem length_readData?_le {bytes : List UInt8} {x : Nat × List UInt8}
    (h : readData? bytes = some x) : x.2.length ≤ bytes.length := by
  cases bytes with
  | nil => simp [readData?] at h
  | cons b bytes =>
    simp only [readData?] at h
    split at h
    · cases h
      simp
    · simp at h

theorem length_readChannel?_le {status : UInt8} {bytes : List UInt8} {x : EventBody × List UInt8}
    (h : readChannel? status bytes = some x) : x.2.length ≤ bytes.length := by
  simp only [readChannel?, Option.bind_eq_some_iff] at h
  obtain ⟨first, hFirst, h⟩ := h
  have h1 := length_readData?_le hFirst
  split at h
  · cases h
    exact h1
  · obtain ⟨second, hSecond, rfl⟩ := Option.map_eq_some_iff.1 h
    exact Nat.le_trans (length_readData?_le hSecond) h1

theorem length_readBody?_le {running : Option UInt8} {bytes : List UInt8}
    {x : EventBody × Option UInt8 × List UInt8} (h : readBody? running bytes = some x) :
    x.2.2.length ≤ bytes.length := by
  cases bytes with
  | nil => simp [readBody?] at h
  | cons b bytes =>
    simp only [readBody?] at h
    split at h
    · obtain ⟨status, _, h⟩ := Option.bind_eq_some_iff.1 h
      obtain ⟨y, hy, rfl⟩ := Option.map_eq_some_iff.1 h
      exact length_readChannel?_le hy
    · split at h
      · obtain ⟨y, hy, rfl⟩ := Option.map_eq_some_iff.1 h
        exact Nat.le_succ_of_le (length_readChannel?_le hy)
      · split at h
        · split at h
          · simp at h
          · rename_i kind more
            obtain ⟨body, _, rfl⟩ := Option.map_eq_some_iff.1 h
            have := length_readBlock_le more
            simp only [List.length_cons]
            omega
        · split at h
          · cases h
            exact Nat.le_succ_of_le (length_readBlock_le bytes)
          · simp at h

def readEvents (running : Option UInt8) (bytes : List UInt8) : List TrackEvent :=
  match bytes with
  | [] => []
  | b :: more =>
    let delta := readLength (b :: more)
    match _h : readBody? running delta.2 with
    | none => []
    | some (body, status, rest) => ⟨delta.1, body⟩ :: readEvents status rest
termination_by bytes.length
decreasing_by
  exact Nat.lt_of_le_of_lt (length_readBody?_le _h) (length_readLength_lt b more)

end LeadSheet.Midi
