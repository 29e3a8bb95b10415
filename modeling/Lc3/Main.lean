import Lc3.CommandLine.Outcome

/-! # The program

Reads the file that a command names, carries the command out and prints what it shows. -/

namespace Lc3.CommandLine

/-- A directory can be opened, so that it fails without a name when it is read. -/
def readError : IO.Error → ReadError
  | .noFileOrDirectory .. => .missing
  | .inappropriateType (some _) .. => .notDirectory
  | .inappropriateType none .. => .isDirectory
  | .invalidArgument (some _) .. => .nameTooLong
  | e => .other (toString e)

def readFile (path : String) : IO (Except ReadError ByteArray) := do
  try
    return .ok (← IO.FS.readBinFile path)
  catch e =>
    return .error (readError e)

def readEnvironment : IO Environment := do
  return {
    trace := ← IO.getEnv "LC3SIM_TRACE"
    noColor := ← IO.getEnv "NO_COLOR"
    forceColor := ← IO.getEnv "CLICOLOR_FORCE" }

def Transcript.print (t : Transcript) : IO Unit := do
  IO.print t.results
  IO.eprint t.trace

end Lc3.CommandLine

open Lc3.CommandLine

def main (arguments : List String) : IO UInt32 := do
  match Command.parse arguments with
  | .error e =>
    IO.eprintln s!"error: {e.message}"
    return 2
  | .ok command =>
    let contents ← match command.path? with
      | some path => readFile path
      | none => pure (.error .missing)
    match command.perform (1 <<< 62) (← readEnvironment) (fun _ => contents) with
    | none => return 1
    | some (.finished transcript) =>
      transcript.print
      return 0
    | some (.failed transcript failure) =>
      transcript.print
      IO.eprintln s!"error: {failure.message}"
      if let some help := failure.help then IO.eprintln s!"help: {help}"
      return 1
