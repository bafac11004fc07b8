import LeadSheet.CommandLine

/-!
# The program

The command line on the files of the machine.
-/

namespace LeadSheet.Machine
set_option autoImplicit false

def systemError? : IO.Error → Option (UInt32 × String)
  | .alreadyExists _ code text | .otherError code text | .resourceBusy code text
  | .resourceVanished code text | .unsupportedOperation code text | .hardwareFault code text
  | .unsatisfiedConstraints code text | .illegalOperation code text | .protocolError code text
  | .timeExpired code text | .interrupted _ code text | .noFileOrDirectory _ code text
  | .invalidArgument _ code text | .permissionDenied _ code text | .resourceExhausted _ code text
  | .inappropriateType _ code text | .noSuchThing _ code text => some (code, text)
  | .unexpectedEof | .userError _ => none

def faultOf (e : IO.Error) : FileFault :=
  match systemError? e with
  | some (2, _) => .missing
  | some (21, _) => .directory
  | some (code, text) => .other (text ++ " (os error " ++ toString code ++ ")")
  | none => .other (toString e)

def attempt {β : Type} (action : IO β) : IO (Except FileFault β) := do
  match ← action.toBaseIO with
  | .ok x => return .ok x
  | .error e => return .error (faultOf e)

def files : FileSystem IO where
  read path := attempt do
    let bytes ← (← IO.FS.Handle.mk path .read).readBinToEnd
    return bytes.toList
  write path text := attempt (IO.FS.writeFile path text)

end LeadSheet.Machine

open LeadSheet in
def main (args : List String) : IO UInt32 := do
  let outcome ← CommandLine.run Machine.files args
  IO.print outcome.output
  IO.eprint outcome.errors
  return outcome.exitCode.toUInt32
