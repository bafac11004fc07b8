import LeadSheet.Export.Format
import LeadSheet.Song.Files

/-!
# Command line

The program as a function of its arguments and a file system: it reads the settings, then the song,
then finds the format, and writes the sheet to a file or to the output.
-/

namespace LeadSheet.CommandLine
set_option autoImplicit false

structure Outcome where
  exitCode : Nat
  output : String
  errors : String

def usage : String :=
  "Usage: chartgrid <input.mid> [--lyrics FILE] [--live] [--config FILE] " ++
    "[--format json|records|lrc|vtt|chart|sections] [--output FILE]\n"

def failure (message : String) : Outcome := ⟨1, "", message⟩

def valueOf? (name : String) : List String → Option String
  | [] => none
  | arg :: args => if arg = name then args.head? else valueOf? name args

def cite (path : String) : String := "'" ++ path ++ "'"

variable {m : Type → Type} [Monad m] (fs : FileSystem m)

def deliver (format text : String) : Option String → m Outcome
  | none => return ⟨0, text, ""⟩
  | some path => do
    match ← fs.write path text with
    | .ok _ => return ⟨0, "", "Wrote " ++ format ++ " output to " ++ path ++ "\n"⟩
    | .error fault =>
      return failure ("Error writing to " ++ cite path ++ ": " ++ fault.message ++ "\n")

def process (input : String) (args : List String) (settings : Settings Float) : m Outcome := do
  let isLive := args.contains "--live"
  match ← (fs.readSheet input (valueOf? "--lyrics" args) isLive settings).run with
  -- an overflow is not reported: it ends the program
  | .error .overflow => return ⟨101, "", (Error.overflow : Error Float).message ++ "\n"⟩
  | .error e => return failure ("Error processing " ++ cite input ++ ": " ++ e.message ++ "\n")
  | .ok sheet =>
    let name := (valueOf? "--format" args).getD "json"
    match Export.Format.ofName? name with
    | none => return failure ("Error: unknown format " ++ cite name ++ "\n" ++ usage)
    | some format =>
      let title := (fileStem? input).getD "Untitled"
      deliver fs name (Export.render format title sheet) (valueOf? "--output" args)

/-- The program. The first argument is the song. -/
def run (args : List String) : m Outcome := do
  match args with
  | [] => return failure usage
  | input :: _ =>
    if "--".isPrefixOf input then return failure usage
    else
      match valueOf? "--config" args with
      | none => process fs input args .default
      | some path =>
        match ← (fs.readSettings path).run with
        | .ok settings => process fs input args settings
        | .error e =>
          return failure ("Error loading config " ++ cite path ++ ": " ++ e.message ++ "\n")

end LeadSheet.CommandLine
