import Lc3.Misuse
import Lc3.Terminal.Display

/-! # Settings

What is taken from the environment of the process. The environment is read once, before anything
asks for the settings. -/

namespace Lc3
open Terminal (Display)

/-- The values of the variables that matter, where they are set. -/
structure Environment where
  /-- `LC3SIM_TRACE` -/
  trace : Option String := none
  /-- `NO_COLOR` -/
  noColor : Option String := none
  /-- `CLICOLOR_FORCE` -/
  forceColor : Option String := none
deriving Repr, DecidableEq

structure Settings where
  /-- Whether completed instructions are shown. -/
  trace : Bool
  color : Bool
deriving Repr, DecidableEq

namespace Environment

def settings (e : Environment) : Settings where
  trace := e.trace == some "1"
  color := e.noColor.isNone

/-- The display before the settings are read. Neither channel is a terminal, so that nothing is
painted unless it is asked for. -/
def display (e : Environment) : Display where
  painted := e.noColor.isNone && e.forceColor.any (· != "0")

end Environment

/-- The display under the settings: without color it shows plain text only. -/
def Terminal.Display.apply (d : Display) (settings : Settings) : Display :=
  if settings.color then d else { d with color := false, painted := false }

/-- The settings of a process, which it has only after reading its environment, and its display. -/
structure Configuration where
  settings : Option Settings := none
  display : Display := {}
deriving Repr, DecidableEq

namespace Configuration

/-- Takes the settings over. A second time the new settings are kept but told to be a misuse, and
the display stays as it is. -/
def configure (c : Configuration) (settings : Settings) : Except Misuse Unit × Configuration :=
  match c with
  | ⟨some _, display⟩ => (.error .configuredTwice, ⟨some settings, display⟩)
  | ⟨none, display⟩ => (.ok (), ⟨some settings, display.apply settings⟩)

def get (c : Configuration) : Except Misuse Settings :=
  match c.settings with
  | some settings => .ok settings
  | none => .error .notConfigured

def traces (c : Configuration) : Except Misuse Bool :=
  c.get.map (·.trace)

end Configuration
end Lc3
