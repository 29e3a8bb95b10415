import Lc3.Simulator.Basic
import Lc3.Text.Column
import Lc3.Word.Hex

/-! # Dumps

The pieces of text that show a machine. A minimal dump has one line for each value and no
decoration; the other draws a table around the registers. -/

namespace Lc3.Terminal.Dump

/-- A word in binary, in hexadecimal and as a signed number. -/
def integer (v : Word) : List String :=
  [s!"{v.toBinary}  ", s!"0x{v.toHex}  ", Text.alignRight 6 (toString v.toInt)]

def rule : String :=
  String.ofList (List.replicate 42 '─')

def minimalRegisters (m : Machine) : List String :=
  (List.finRange 8).map (fun r => s!"R{r.val} {(m.readRegister r).toBinary}\n") ++
    [s!"PC {m.pc.toBinary}\n", s!"CC {binaryText m.condition.mask}\n"]

/-- The row of a register. -/
def registerRow (m : Machine) (r : Register) : List String :=
  ["\x1b[2m│\x1b[0m", s!" \x1b[1mR{r.val}\x1b[0m  "] ++ integer (m.readRegister r) ++
    [" \x1b[2m│\x1b[0m\n"]

/-- The row of the program counter, the condition code and the mode. -/
def controlRow (m : Machine) : List String :=
  let mode := if m.supervisor then "supervisor" else "user"
  ["\x1b[2m│\x1b[0m", s!" \x1b[1mPC\x1b[0m  0x{m.pc.toHex}",
    s!"   \x1b[1mCC\x1b[0m  {binaryText m.condition.mask}",
    s!"   \x1b[1mMODE\x1b[0m  {Text.alignLeft 10 mode}", " \x1b[2m│\x1b[0m\n"]

def registerTable (m : Machine) : List String :=
  [s!"\x1b[2m┌{rule}┐\x1b[0m\n",
    "\x1b[2m│      \x1b[3mbinary               hex     int\x1b[0m\x1b[2m │\x1b[0m\n"] ++
    (List.finRange 8).flatMap (registerRow m) ++ controlRow m ++
    [s!"\x1b[2m└{rule}┘\x1b[0m\n"]

def registers (minimal : Bool) (m : Machine) : List String :=
  if minimal then minimalRegisters m else registerTable m

def memory (minimal : Bool) (m : Machine) (a : Word) : List String :=
  let v := m.readMemory a
  if minimal then [s!"x{a.toUpperHex} {v.toBinary}\n"]
  else [s!"\x1b[1mx{a.toUpperHex}\x1b[0m = "] ++ integer v ++ ["\n"]

/-- The line of a trace that shows a completed instruction. -/
def cycle (c : Cycle) : String :=
  s!"x{c.address.toUpperHex}  {c.word.toBinary}  {c.instruction.opcode.name}\n"

end Lc3.Terminal.Dump
