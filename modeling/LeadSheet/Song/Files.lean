import LeadSheet.Config.Reader
import LeadSheet.Lyric.Vtt
import LeadSheet.Midi.TempoHint
import LeadSheet.Song.Overflow

/-!
# Songs in files

A song read from a MIDI file and a lyrics file, with settings from a third. What a file system does
is left open: `FileSystem` says what is asked of it.
-/

namespace LeadSheet
set_option autoImplicit false

structure FileSystem (m : Type → Type) where
  read : String → m (Except FileFault (List UInt8))
  write : String → String → m (Except FileFault Unit)

/-- The last name in a path; a path of dots and slashes alone has none. -/
def fileName? (path : String) : Option String :=
  match ((path.toList.splitOn '/').filter fun part => part ≠ [] ∧ part ≠ ['.']).getLast? with
  | some part => if part = ['.', '.'] then none else some (String.ofList part)
  | none => none

/-- The last name in a path up to its last point. A point in front is part of the name. -/
def fileStem? (path : String) : Option String :=
  (fileName? path).map fun name =>
    let parts := name.toList.splitOn '.'
    let stem := ['.'].intercalate parts.dropLast
    if stem.isEmpty then name else String.ofList stem

namespace FileSystem

variable {m : Type → Type} [Monad m] (fs : FileSystem m)

def readBytes (path : String) : ExceptT (Error Float) m (List UInt8) := do
  match ← fs.read path with
  | .ok bytes => return bytes
  | .error fault => throw (.file fault)

def readText (path : String) : ExceptT (Error Float) m String := do
  match Text.decode? (← fs.readBytes path) with
  | some text => return String.ofList text
  | none => throw (.file .notText)

def readSettings (path : String) : ExceptT (Error Float) m (Settings Float) := do
  ExceptT.mk (pure (Config.read (← fs.readText path)))

def readRecording (path : String) : ExceptT (Error Float) m (Recording Float) := do
  let recording ← ExceptT.mk (pure (Recording.ofBytes (← fs.readBytes path)))
  return recording.withHint ((fileName? path).bind TempoHint.ofName)

/-- The sheet of a song. The MIDI file is read before the lyrics. -/
def readSheet (midiPath : String) (lyricsPath : Option String) (isLive : Bool)
    (settings : Settings Float) : ExceptT (Error Float) m (Sheet Float) := do
  let recording ← fs.readRecording midiPath
  let words ←
    match lyricsPath with
    | some path => do pure (some (Lyric.read (← fs.readText path)))
    | none => pure none
  ExceptT.mk (pure (Sheet.run isLive recording words settings))

end FileSystem

end LeadSheet
