import Lc3.Machine
import Lc3.Opcode

/-! # Instructions

An instruction with its operands taken out of the word that encodes it. Offsets and immediate values
are full words already, so that what an instruction does is wrapping arithmetic on words. -/

namespace Lc3

/-- The second operand of an addition or a conjunction. -/
inductive Operand where
  | register (source : Register)
  | immediate (value : Word)
deriving Repr, DecidableEq

/-- Offsets are relative to the program counter, which is past the instruction when it runs, unless
a base register is named. -/
inductive Instruction where
  | add (target source : Register) (operand : Operand)
  | and (target source : Register) (operand : Operand)
  /-- Jump if the condition code is among the signs in `nzp`. -/
  | br (nzp : BitVec 3) (offset : Word)
  | jmp (base : Register)
  /-- Jump without keeping a return address. -/
  | jsr (offset : Word)
  /-- Jump to the address in `base` without keeping a return address. -/
  | jsrr (base : Register)
  | ld (target : Register) (offset : Word)
  /-- Load from the address that is held in memory at `offset`. -/
  | ldi (target : Register) (offset : Word)
  | ldr (target base : Register) (offset : Word)
  /-- Load the address at `offset` itself. -/
  | lea (target : Register) (offset : Word)
  | not (target source : Register)
  /-- There is no saved state to return to, so this does nothing. -/
  | rti
  | st (source : Register) (offset : Word)
  /-- Store at the address that is held in memory at `offset`. -/
  | sti (source : Register) (offset : Word)
  | str (source base : Register) (offset : Word)
  /-- There are no devices, so that only the halting vector does anything. -/
  | trap (vector : BitVec 8)
deriving Repr, DecidableEq

namespace Instruction

def opcode : Instruction → Opcode
  | add .. => .add
  | and .. => .and
  | br .. => .br
  | jmp .. => .jmp
  | jsr .. | jsrr .. => .jsr
  | ld .. => .ld
  | ldi .. => .ldi
  | ldr .. => .ldr
  | lea .. => .lea
  | not .. => .not
  | rti => .rti
  | st .. => .st
  | sti .. => .sti
  | str .. => .str
  | trap .. => .trap

/-- Whether the instruction may run in supervisor mode only. -/
def isPrivileged : Instruction → Bool
  | rti => true
  | _ => false

end Instruction
end Lc3
