import Lc3.Address
import Lc3.CommandLine.Command
import Lc3.Image
import Lc3.Settings
import Lc3.Simulator.Progress
import Lc3.Terminal.Dump

/-! # Outcomes

What a command shows and how it ends, for the files and the environment it is given. A run reads its
file, its pokes and its dumps before it starts the program, and shows the machine only once the
program has halted. -/

namespace Lc3.CommandLine
open Terminal

/-- What a command has shown on either channel. -/
structure Transcript where
  results : String
  trace : String := ""
deriving Repr, DecidableEq

inductive Outcome where
  | finished (transcript : Transcript)
  | failed (transcript : Transcript) (failure : Failure)
deriving Repr, DecidableEq

def programName : String := "lc3sim"

def programVersion : String := "0.1.0"

def welcomeText : String :=
  s!"\n~ {programName} v{programVersion} ~\n\n" ++
    s!"Welcome to {programName}, an instruction-level emulator for the LC3 architecture.\n" ++
    "Please use `-h` or `--help` to access the usage instructions.\n\n"

def versionText : String :=
  s!"{programName} {programVersion}\n"

def helpText : String :=
  s!"{programName} runs LC3 load images one instruction at a time.\n\n" ++
    s!"Usage: {programName} [PATH]\n" ++
    s!"       {programName} run [OPTIONS] NAME\n" ++
    s!"       {programName} check NAME\n\n" ++
    "Options of run:\n" ++
    "  -m, --minimal          Produce minimal output, suited for blackbox tests\n" ++
    "  -s, --supervisor       Start the machine in supervisor mode\n" ++
    "  -l, --limit COUNT      Fail if the program has not halted after this many instructions\n" ++
    "  -p, --poke ADDR=WORD   Write a word to memory before the image is loaded\n" ++
    "  -d, --dump ADDR        Print the word at this address once the program halts\n"

def readImage (files : Files) (path : String) : Except Failure Image :=
  match files.readText path with
  | .error e => .error (.unreadable e)
  | .ok source => Image.parse source

/-- A program that is ready to run, and the addresses to show once it has halted. -/
structure Start where
  origin : Word
  simulator : Simulator
  dumps : List Word

namespace Start

/-- The image is loaded over the pokes. -/
def machine (supervisor : Bool) (pokes : List Poke) (image : Image) : Machine :=
  image.load (pokes.foldl Poke.apply (Machine.initial.setSupervisor supervisor))

def ofOptions (files : Files) (path : String) (options : RunOptions) : Except Failure Start := do
  let image ← readImage files path
  let pokes ← options.pokes.mapM Poke.parse
  let dumps ← options.dumps.mapM Address.parse
  return ⟨image.origin, .ofMachine (machine options.supervisor pokes image), dumps⟩

end Start

namespace Command

/-- What is shown of a machine that has halted. -/
def summary (display : Display) (s : Simulator) (dumps : List Word) : String :=
  display.statusLine .cyan "Halted" s!"after {s.completed} instruction(s)" ++
    display.renderAll .result
      ((if display.minimal then [s!"processed {s.completed}\n"] else []) ++
        Dump.registers display.minimal s.machine ++
        dumps.flatMap (Dump.memory display.minimal s.machine))

def performRun (fuel : Nat) (display : Display) (trace : Bool) (files : Files) (path : String)
    (options : RunOptions) : Option Outcome :=
  let display := { display with minimal := options.minimal }
  let loading := display.statusLine .green "Loading" s!"target {path}"
  match Start.ofOptions files path options with
  | .error failure => some (.failed { results := loading } failure)
  | .ok start =>
    let running := display.statusLine .green "Running" s!"from x{start.origin.toUpperHex}"
    (start.simulator.runWithin fuel trace options.limit).map fun progress =>
      let trace := display.renderAll .trace (progress.cycles.map Dump.cycle)
      match progress.failure with
      | some failure => .failed ⟨loading ++ running, trace⟩ failure
      | none =>
        let completed := display.statusLine .green "Completed" s!"target {path}"
        .finished
          ⟨loading ++ running ++ summary display progress.simulator start.dumps ++ completed, trace⟩

def performCheck (display : Display) (files : Files) (path : String) : Outcome :=
  let checking := display.statusLine .green "Checking" s!"target {path}"
  match readImage files path with
  | .error failure => .failed { results := checking } failure
  | .ok image =>
    let success := display.statusLine .green "Success"
      s!"{image.words.length} word(s) from x{image.origin.toUpperHex}"
    .finished { results := checking ++ success }

/-- Carries out a command. There is no outcome if it runs a program without a limit that takes more
than `fuel` cycles. -/
def perform (fuel : Nat) (environment : Environment) (files : Files) : Command → Option Outcome
  | welcome => some (.finished { results := welcomeText })
  | version => some (.finished { results := versionText })
  | help => some (.finished { results := helpText })
  | run path options =>
    let settings := environment.settings
    performRun fuel (environment.display.apply settings) settings.trace files path options
  | check path =>
    some (performCheck (environment.display.apply environment.settings) files path)

end Command
end Lc3.CommandLine
