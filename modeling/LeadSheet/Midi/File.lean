import LeadSheet.Error
import LeadSheet.Midi.Event

/-!
# MIDI files

A MIDI file is a run of chunks, of which the first known one is the header and the others are
tracks; unknown chunks are passed over. The file may stand inside a RIFF container. A chunk that
claims more bytes than there are has those that there are.
-/

namespace LeadSheet.Midi
set_option autoImplicit false

/-- What a tick is: a part of a beat, or a part of a second. -/
inductive Division
  | perBeat (ticks : Nat)
  | timeCode
  deriving Repr, DecidableEq

structure File where
  division : Division
  tracks : List (List TrackEvent)
  deriving Repr, DecidableEq

def bigEndian (bytes : List UInt8) : Nat := bytes.foldl (fun n b => n * 256 + b.toNat) 0

def littleEndian (bytes : List UInt8) : Nat := bigEndian bytes.reverse

def hasId (id : String) (bytes : List UInt8) : Bool :=
  bytes.map UInt8.toNat == id.toList.map Char.toNat

structure Chunk where
  id : List UInt8
  content : List UInt8

/-- The chunks of a file. `whole` tells if it ends with a chunk, and not inside the head of one. -/
structure Chunks where
  list : List Chunk
  whole : Bool

def readChunks (bytes : List UInt8) : Chunks :=
  if _h : bytes.length < 8 then ⟨[], bytes.isEmpty⟩
  else
    let size := bigEndian ((bytes.drop 4).take 4)
    let after := readChunks ((bytes.drop 8).drop size)
    { after with list := ⟨bytes.take 4, (bytes.drop 8).take size⟩ :: after.list }
termination_by bytes.length
decreasing_by
  simp only [List.length_drop]
  omega

/-- The division that a header names. Its format is 0, 1 or 2, and a time code has a known rate. -/
def headerDivision? (content : List UInt8) : Option Division :=
  match content.map UInt8.toNat with
  | f1 :: f0 :: _ :: _ :: d1 :: d0 :: _ =>
    if 2 < f1 * 256 + f0 then none
    else if d1 < 128 then some (.perBeat (d1 * 256 + d0))
    else if [24, 25, 29, 30].contains (256 - d1) then some .timeCode
    else none
  | _ => none

def ofChunks : Bool → List Chunk → Except MidiFault File
  | true, [] => .error .noHeader
  | false, [] => .error .badHeader
  | whole, chunk :: chunks =>
    if hasId "MThd" chunk.id then
      match headerDivision? chunk.content with
      | some division =>
        let tracks := chunks.filter fun c => hasId "MTrk" c.id
        .ok ⟨division, tracks.map fun c => readEvents none c.content⟩
      | none => .error .badHeader
    else if hasId "MTrk" chunk.id then .error .trackBeforeHeader
    else ofChunks whole chunks

/-- The content of the first data chunk among those of a container. An odd chunk is followed by one
more byte. -/
def findData? (bytes : List UInt8) : Option (List UInt8) :=
  if _h : bytes.length < 8 then none
  else
    let size := littleEndian ((bytes.drop 4).take 4)
    let content := (bytes.drop 8).take size
    if hasId "data" (bytes.take 4) then some content
    else findData? (((bytes.drop 8).drop size).drop (size % 2))
termination_by bytes.length
decreasing_by
  simp only [List.length_drop]
  omega

def unwrap (bytes : List UInt8) : Except MidiFault (List UInt8) :=
  if bytes.length < 8 then .error .noRiffChunk
  else
    let content := (bytes.drop 8).take (littleEndian ((bytes.drop 4).take 4))
    if content.length < 4 then .error .noFormType
    else if !hasId "RMID" (content.take 4) then .error .notMidiForm
    else
      match findData? (content.drop 4) with
      | some data => .ok data
      | none => .error .noDataChunk

def File.ofBytes (bytes : List UInt8) : Except MidiFault File :=
  let parse (bytes : List UInt8) : Except MidiFault File :=
    let chunks := readChunks bytes
    ofChunks chunks.whole chunks.list
  if hasId "RIFF" (bytes.take 4) then (unwrap bytes).bind parse
  else if hasId "MThd" (bytes.take 4) then parse bytes
  else .error .notMidi

end LeadSheet.Midi
