import Lc3.Fault
import Lc3.Instruction.Decode

/-! # Executing a word

Whether a word can run is settled by `decodeFor`, which only looks at the machine; what it then does
is `effect`, which cannot fail. So a word that cannot run leaves the machine as it was. -/

namespace Lc3

/-- Whether the machine goes on after an instruction. -/
inductive Signal where
  | proceed
  | halt
deriving Repr, DecidableEq

namespace Instruction

/-- The trap that stops the machine. -/
def haltVector : BitVec 8 := 0x25

def signal : Instruction → Signal
  | trap vector => if vector = haltVector then .halt else .proceed
  | _ => .proceed

def operandValue (m : Machine) : Operand → Word
  | .register source => m.readRegister source
  | .immediate value => value

/-- What the instruction does to a machine whose program counter is past it. -/
def effect (m : Machine) : Instruction → Machine
  | add target source operand =>
    m.writeRegister target (m.readRegister source + operandValue m operand)
  | and target source operand =>
    m.writeRegister target (m.readRegister source &&& operandValue m operand)
  | br nzp offset => if m.condition.meets nzp then m.jumpRelative offset else m
  | jmp base | jsrr base => m.jump (m.readRegister base)
  | jsr offset => m.jumpRelative offset
  | ld target offset => m.writeRegister target (m.readMemory (m.relative offset))
  | ldi target offset =>
    m.writeRegister target (m.readMemory (m.readMemory (m.relative offset)))
  | ldr target base offset =>
    m.writeRegister target (m.readMemory (m.readRegister base + offset))
  | lea target offset => m.writeRegister target (m.relative offset)
  | not target source => m.writeRegister target (~~~m.readRegister source)
  | rti => m
  | st source offset => m.writeMemory (m.relative offset) (m.readRegister source)
  | sti source offset =>
    m.writeMemory (m.readMemory (m.relative offset)) (m.readRegister source)
  | str source base offset =>
    m.writeMemory (m.readRegister base + offset) (m.readRegister source)
  | trap _ => m

/-- The instruction that `w` encodes, if it may run in the mode the machine is in. -/
def decodeFor (m : Machine) (w : Word) : Except Fault Instruction :=
  match decode w with
  | none => .error (.undecodable (Opcode.ofWord w) w)
  | some i =>
    if i.isPrivileged && !m.supervisor then .error (.unprivileged i.opcode w) else .ok i

/-- Runs `w` on a machine whose program counter is past it. -/
def execute (m : Machine) (w : Word) : Except Fault (Signal × Machine) :=
  match decodeFor m w with
  | .error fault => .error fault
  | .ok i => .ok (i.signal, i.effect m)

section
variable {m : Machine} {w : Word} {i : Instruction} {fault : Fault}

theorem decodeFor_eq_ok_iff :
    decodeFor m w = .ok i ↔
      decode w = some i ∧ (i.isPrivileged = true → m.supervisor = true) := by
  unfold decodeFor
  cases decode w with
  | none => simp
  | some j => grind

theorem execute_of_decodeFor_ok (h : decodeFor m w = .ok i) :
    execute m w = .ok (i.signal, i.effect m) := by
  simp [execute, h]

theorem execute_of_decodeFor_error (h : decodeFor m w = .error fault) :
    execute m w = .error fault := by
  simp [execute, h]

/-- Whether a word can run depends on the mode of the machine only. -/
theorem decodeFor_congr {n : Machine} (h : m.supervisor = n.supervisor) (w : Word) :
    decodeFor m w = decodeFor n w := by
  simp [decodeFor, h]

@[simp]
theorem supervisor_effect (i : Instruction) (m : Machine) :
    (i.effect m).supervisor = m.supervisor := by
  cases i with
  | br => simp only [effect]; split <;> rfl
  | _ => rfl

end

end Instruction
end Lc3
