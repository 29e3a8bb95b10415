import Lc3.Word.Basic

/-! # Opcodes

The top four bits of an instruction word select its operation. -/

namespace Lc3

inductive Opcode where
  | br | add | ld | st | jsr | and | ldr | str | rti | not | ldi | sti | jmp
  /-- Names no operation. -/
  | reserved
  | lea | trap
deriving Repr, DecidableEq

namespace Opcode

/-- The opcodes in the order of the four bits that encode them. -/
def all : Vector Opcode 16 :=
  #v[br, add, ld, st, jsr, and, ldr, str, rti, not, ldi, sti, jmp, reserved, lea, trap]

def ofWord (w : Word) : Opcode :=
  all.get (w.extractLsb' 12 4).toFin

def name : Opcode → String
  | br => "BR"
  | add => "ADD"
  | ld => "LD"
  | st => "ST"
  | jsr => "JSR"
  | and => "AND"
  | ldr => "LDR"
  | str => "STR"
  | rti => "RTI"
  | not => "NOT"
  | ldi => "LDI"
  | sti => "STI"
  | jmp => "JMP"
  | reserved => "INVALID"
  | lea => "LEA"
  | trap => "TRAP"

end Opcode
end Lc3
