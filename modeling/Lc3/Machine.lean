import Lc3.Condition
import Lc3.Memory

/-! # The machine

The state that instructions act on. A register write is the only thing that sets the condition code,
and it always does; the lemmas say of each operation which parts it changes. -/

namespace Lc3

/-- One of R0 to R7. -/
abbrev Register := Fin 8

structure Machine where
  memory : Memory
  registers : Vector Word 8
  /-- The address of the next instruction. -/
  pc : Word
  condition : Condition
  /-- Whether privileged instructions may run. -/
  supervisor : Bool

namespace Machine

/-- All zero, with no register written yet. -/
def initial : Machine where
  memory := .zero
  registers := Vector.replicate 8 0
  pc := 0
  condition := .unset
  supervisor := false

def readMemory (m : Machine) (a : Word) : Word :=
  m.memory.read a

def writeMemory (m : Machine) (a v : Word) : Machine :=
  match m with
  | ⟨memory, registers, pc, condition, supervisor⟩ =>
    ⟨memory.write a v, registers, pc, condition, supervisor⟩

def readRegister (m : Machine) (r : Register) : Word :=
  m.registers[r]

def writeRegister (m : Machine) (r : Register) (v : Word) : Machine :=
  match m with
  | ⟨memory, registers, pc, _, supervisor⟩ =>
    ⟨memory, registers.set r v, pc, .ofWord v, supervisor⟩

def jump (m : Machine) (target : Word) : Machine :=
  match m with
  | ⟨memory, registers, _, condition, supervisor⟩ =>
    ⟨memory, registers, target, condition, supervisor⟩

/-- The address `offset` away from the program counter. -/
def relative (m : Machine) (offset : Word) : Word :=
  m.pc + offset

def jumpRelative (m : Machine) (offset : Word) : Machine :=
  m.jump (m.relative offset)

def setSupervisor (m : Machine) (supervisor : Bool) : Machine :=
  match m with
  | ⟨memory, registers, pc, condition, _⟩ => ⟨memory, registers, pc, condition, supervisor⟩

/-- The register of that number, if there is one. -/
def register? (index : Nat) : Except Misuse Register :=
  if h : index < 8 then .ok ⟨index, h⟩ else .error (.registerOutOfRange index)

section
variable (m : Machine) (a v target : Word) (r : Register) (supervisor : Bool)

@[simp] theorem readMemory_writeMemory (b : Word) :
    (m.writeMemory a v).readMemory b = if a = b then v else m.readMemory b :=
  Memory.read_write m.memory a v b

@[simp] theorem readRegister_writeMemory :
    (m.writeMemory a v).readRegister r = m.readRegister r := rfl

@[simp] theorem pc_writeMemory : (m.writeMemory a v).pc = m.pc := rfl

@[simp] theorem condition_writeMemory : (m.writeMemory a v).condition = m.condition := rfl

@[simp] theorem supervisor_writeMemory : (m.writeMemory a v).supervisor = m.supervisor := rfl

@[simp] theorem readRegister_writeRegister (q : Register) :
    (m.writeRegister r v).readRegister q = if r = q then v else m.readRegister q := by
  simp [readRegister, writeRegister, Vector.getElem_set, Fin.ext_iff]

@[simp] theorem readMemory_writeRegister :
    (m.writeRegister r v).readMemory a = m.readMemory a := rfl

@[simp] theorem pc_writeRegister : (m.writeRegister r v).pc = m.pc := rfl

@[simp] theorem condition_writeRegister : (m.writeRegister r v).condition = .ofWord v := rfl

@[simp] theorem supervisor_writeRegister : (m.writeRegister r v).supervisor = m.supervisor := rfl

@[simp] theorem readMemory_jump : (m.jump target).readMemory a = m.readMemory a := rfl

@[simp] theorem readRegister_jump : (m.jump target).readRegister r = m.readRegister r := rfl

@[simp] theorem pc_jump : (m.jump target).pc = target := rfl

@[simp] theorem condition_jump : (m.jump target).condition = m.condition := rfl

@[simp] theorem supervisor_jump : (m.jump target).supervisor = m.supervisor := rfl

@[simp] theorem readMemory_setSupervisor :
    (m.setSupervisor supervisor).readMemory a = m.readMemory a := rfl

@[simp] theorem readRegister_setSupervisor :
    (m.setSupervisor supervisor).readRegister r = m.readRegister r := rfl

@[simp] theorem pc_setSupervisor : (m.setSupervisor supervisor).pc = m.pc := rfl

@[simp] theorem condition_setSupervisor :
    (m.setSupervisor supervisor).condition = m.condition := rfl

@[simp] theorem supervisor_setSupervisor :
    (m.setSupervisor supervisor).supervisor = supervisor := rfl

end

/-- The machine is what can be read from it. -/
@[ext]
theorem ext_read {m n : Machine} (memory : ∀ a, m.readMemory a = n.readMemory a)
    (registers : ∀ r, m.readRegister r = n.readRegister r) (pc : m.pc = n.pc)
    (condition : m.condition = n.condition) (supervisor : m.supervisor = n.supervisor) :
    m = n := by
  obtain ⟨mem, regs, _, _, _⟩ := m
  obtain ⟨mem', regs', _, _, _⟩ := n
  simp only at pc condition supervisor
  have hmem : mem = mem' := Memory.ext memory
  have hregs : regs = regs' := Vector.ext fun i hi => registers ⟨i, hi⟩
  rw [hmem, hregs, pc, condition, supervisor]

end Machine
end Lc3
