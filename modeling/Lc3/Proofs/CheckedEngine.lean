import Lc3.Session

/-! # An engine that checks

`Instruction.decode` takes fields out of a word that lie within it by their types, and an
instruction names its registers by numbers below eight. The engine of this module knows neither: it
takes every field with `Word.field?` and `Word.signExtendLow?`, names registers by any numbers, and
looks each up with `Machine.register?` when it is read or written. A check that fails ends the
operation with a `Misuse`, and what has been done by then stays done. `Checked.decode_eq` and the
lemmas after it say that no check fails, whatever the word and the machine are, and that this engine
does what the other does. -/

namespace Lc3

inductive RawOperand where
  | register (source : Nat)
  | immediate (value : Word)
deriving Repr, DecidableEq

/-- An instruction with its fields as they are in the word, within no bounds. -/
inductive RawInstruction where
  | add (target source : Nat) (operand : RawOperand)
  | and (target source : Nat) (operand : RawOperand)
  | br (mask offset : Word)
  | jmp (base : Nat)
  | jsr (offset : Word)
  | jsrr (base : Nat)
  | ld (target : Nat) (offset : Word)
  | ldi (target : Nat) (offset : Word)
  | ldr (target base : Nat) (offset : Word)
  | lea (target : Nat) (offset : Word)
  | not (target source : Nat)
  | rti
  | st (source : Nat) (offset : Word)
  | sti (source : Nat) (offset : Word)
  | str (source base : Nat) (offset : Word)
  | trap (vector : BitVec 8)
deriving Repr, DecidableEq

def RawOperand.registers : RawOperand → List Nat
  | register source => [source]
  | immediate _ => []

/-- The registers that the instruction names. -/
def RawInstruction.registers : RawInstruction → List Nat
  | add target source operand | and target source operand => target :: source :: operand.registers
  | ldr r q _ | str r q _ | not r q => [r, q]
  | ld r _ | ldi r _ | lea r _ | st r _ | sti r _ | jmp r | jsrr r => [r]
  | br _ _ | jsr _ | rti | trap _ => []

/-- The registers exist, and the mask of a branch has no bits but those of the three signs. -/
structure RawInstruction.InBounds (i : RawInstruction) : Prop where
  registers : ∀ r ∈ i.registers, r < 8
  mask : ∀ mask offset, i = .br mask offset → mask.toNat < 8

/-- A completed instruction as the engine tells it. -/
structure RawCycle where
  address : Word
  word : Word
  instruction : RawInstruction
deriving Repr, DecidableEq

def Operand.raw : Operand → RawOperand
  | register source => .register source
  | immediate value => .immediate value

def Instruction.raw : Instruction → RawInstruction
  | add target source operand => .add target source operand.raw
  | and target source operand => .and target source operand.raw
  | br nzp offset => .br (nzp.setWidth 16) offset
  | jmp base => .jmp base
  | jsr offset => .jsr offset
  | jsrr base => .jsrr base
  | ld target offset => .ld target offset
  | ldi target offset => .ldi target offset
  | ldr target base offset => .ldr target base offset
  | lea target offset => .lea target offset
  | not target source => .not target source
  | rti => .rti
  | st source offset => .st source offset
  | sti source offset => .sti source offset
  | str source base offset => .str source base offset
  | trap vector => .trap vector

def Cycle.raw (c : Cycle) : RawCycle where
  address := c.address
  word := c.word
  instruction := c.instruction.raw

theorem Instruction.inBounds_raw (i : Instruction) : i.raw.InBounds where
  registers := by
    have hoperand (operand : Operand) : ∀ r ∈ operand.raw.registers, r < 8 := by
      cases operand <;> simp [Operand.raw, RawOperand.registers]
    cases i <;> simp [raw, RawInstruction.registers] <;> exact hoperand _
  mask mask offset h := by
    cases i with
    | br nzp =>
      cases h
      rw [BitVec.toNat_setWidth_of_le (by decide)]
      exact nzp.isLt
    | _ => cases h

namespace Checked

/-! ### Words -/

def registerAt (w : Word) (shift : Nat) : Except Misuse Nat :=
  (w.field? shift 3).map (·.toNat)

def operandOf (w : Word) : Except Misuse RawOperand := do
  if (← w.field? 5 1) = 0 then
    return .register (← registerAt w 0)
  else
    return .immediate (← w.signExtendLow? 5)

/-- The fields that most instructions have are taken out of every word. -/
def decode (w : Word) : Except Misuse (Option RawInstruction) := do
  let high ← registerAt w 9
  let low ← registerAt w 6
  let offset ← w.signExtendLow? 9
  match Opcode.ofWord w with
  | .add => return some (.add high low (← operandOf w))
  | .and => return some (.and high low (← operandOf w))
  | .br => return some (.br (← w.field? 9 3) offset)
  | .jmp => return some (.jmp low)
  | .jsr =>
    if (← w.field? 11 1) = 1 then
      return some (.jsr (← w.signExtendLow? 11))
    else
      return some (.jsrr low)
  | .ld => return some (.ld high offset)
  | .ldi => return some (.ldi high offset)
  | .ldr => return some (.ldr high low (← w.signExtendLow? 6))
  | .lea => return some (.lea high offset)
  | .not => return some (.not high low)
  | .rti => return some .rti
  | .st => return some (.st high offset)
  | .sti => return some (.sti high offset)
  | .str => return some (.str high low (← w.field? 0 6))
  | .trap => return some (.trap ((← w.field? 0 8).setWidth 8))
  | .reserved => return none

section
variable (w : Word)

theorem field?_eq_ok {shift width : Nat} (h : 0 < width ∧ shift + width ≤ 16) :
    w.field? shift width = .ok (w.field shift width) :=
  if_pos h

theorem signExtendLow?_eq_ok {width : Nat} (h : 0 < width ∧ width ≤ 16) :
    w.signExtendLow? width = .ok (w.signExtendLow width) :=
  if_pos h

theorem registerAt_eq {shift : Nat} (h : shift + 3 ≤ 16) :
    registerAt w shift = .ok (w.registerAt shift) := by
  rw [registerAt, field?_eq_ok w ⟨by decide, h⟩]
  exact congrArg Except.ok (BitVec.toNat_setWidth_of_le (by decide))

theorem field_one (shift : Nat) : w.field shift 1 = if w.getLsbD shift then 1 else 0 := by
  ext i hi
  cases hbit : w.getLsbD shift <;> simp [Word.field] <;> grind

theorem operandOf_eq : operandOf w = .ok (Instruction.operandOf w).raw := by
  rw [operandOf, field?_eq_ok w (by decide), registerAt_eq w (by decide),
    signExtendLow?_eq_ok w (by decide), field_one, Instruction.operandOf]
  cases w.getLsbD 5 <;> rfl

/-- No word breaks a check of the decoder, and it finds the instruction that the word encodes. -/
theorem decode_eq : decode w = .ok ((Instruction.decode w).map Instruction.raw) := by
  rw [decode, registerAt_eq w (by decide), registerAt_eq w (by decide),
    signExtendLow?_eq_ok w (by decide), Instruction.decode]
  cases Opcode.ofWord w with
  | add | and =>
    simp only [operandOf_eq]
    rfl
  | br | str =>
    simp only [field?_eq_ok w (show 0 < 3 ∧ 9 + 3 ≤ 16 by decide),
      field?_eq_ok w (show 0 < 6 ∧ 0 + 6 ≤ 16 by decide)]
    rfl
  | jsr =>
    simp only [field?_eq_ok w (show 0 < 1 ∧ 11 + 1 ≤ 16 by decide),
      signExtendLow?_eq_ok w (show 0 < 11 ∧ 11 ≤ 16 by decide), field_one]
    cases w.getLsbD 11 <;> rfl
  | ldr =>
    simp only [signExtendLow?_eq_ok w (show 0 < 6 ∧ 6 ≤ 16 by decide)]
    rfl
  | trap =>
    have hvector : (w.field 0 8).setWidth 8 = w.setWidth 8 := by
      ext i hi
      simp [Word.field]
    rw [field?_eq_ok w (by decide)]
    exact congrArg (fun vector => Except.ok (some (RawInstruction.trap vector))) hvector
  | jmp | ld | ldi | lea | not | rti | st | sti | reserved => rfl

end

/-! ### Machines -/

/-- Goes on with the result of a check, if it has not failed. -/
def require {σ α : Type} : Except Misuse α → EStateM Misuse σ α
  | .ok a => pure a
  | .error cause => throw cause

section
variable {σ α β : Type} {s t : σ}

theorem run_get_bind (f : σ → EStateM Misuse σ α) : (get >>= f).run s = (f s).run s := rfl

theorem run_bind_of_ok {x : EStateM Misuse σ α} {a : α} (h : x.run s = .ok a t)
    (f : α → EStateM Misuse σ β) : (x >>= f).run s = (f a).run t := by
  simp only [EStateM.run] at h
  simp only [EStateM.run, bind, EStateM.bind, h]

end

def readRegister (index : Nat) : EStateM Misuse Machine Word := do
  let r ← require (Machine.register? index)
  return (← get).readRegister r

def writeRegister (index : Nat) (v : Word) : EStateM Misuse Machine Unit := do
  let r ← require (Machine.register? index)
  modify (·.writeRegister r v)

def operandValue : RawOperand → EStateM Misuse Machine Word
  | .register source => readRegister source
  | .immediate value => return value

def apply : RawInstruction → EStateM Misuse Machine Signal
  | .add target source operand => do
    let v ← readRegister source
    writeRegister target (v + (← operandValue operand))
    return .proceed
  | .and target source operand => do
    let v ← readRegister source
    writeRegister target (v &&& (← operandValue operand))
    return .proceed
  | .br mask offset => do
    if mask &&& (← get).condition.mask.setWidth 16 ≠ 0 then
      modify (·.jumpRelative offset)
    return .proceed
  | .jmp base | .jsrr base => do
    let target ← readRegister base
    modify (·.jump target)
    return .proceed
  | .jsr offset => do
    modify (·.jumpRelative offset)
    return .proceed
  | .ld target offset => do
    let m ← get
    writeRegister target (m.readMemory (m.relative offset))
    return .proceed
  | .ldi target offset => do
    let m ← get
    writeRegister target (m.readMemory (m.readMemory (m.relative offset)))
    return .proceed
  | .ldr target base offset => do
    let a ← readRegister base
    writeRegister target ((← get).readMemory (a + offset))
    return .proceed
  | .lea target offset => do
    writeRegister target ((← get).relative offset)
    return .proceed
  | .not target source => do
    let v ← readRegister source
    writeRegister target (~~~v)
    return .proceed
  | .rti => return .proceed
  | .st source offset => do
    let v ← readRegister source
    modify fun m => m.writeMemory (m.relative offset) v
    return .proceed
  | .sti source offset => do
    let v ← readRegister source
    modify fun m => m.writeMemory (m.readMemory (m.relative offset)) v
    return .proceed
  | .str source base offset => do
    let a ← readRegister base
    let v ← readRegister source
    modify (·.writeMemory (a + offset) v)
    return .proceed
  | .trap vector => return if vector = Instruction.haltVector then .halt else .proceed

/-- Decodes the word and looks at the mode of the machine. -/
def prepare (w : Word) : EStateM Misuse Machine (Except Fault RawInstruction) := do
  match ← require (decode w) with
  | none => return .error (.undecodable (Opcode.ofWord w) w)
  | some .rti =>
    if (← get).supervisor then
      return .ok .rti
    else
      return .error (.unprivileged .rti w)
  | some i => return .ok i

def execute (w : Word) : EStateM Misuse Machine (Except Fault Signal) := do
  match ← prepare w with
  | .error fault => return .error fault
  | .ok i => return .ok (← apply i)

section
variable (m : Machine)

theorem register?_val (r : Register) : Machine.register? r = .ok r :=
  dif_pos r.isLt

theorem run_readRegister (r : Register) : (readRegister r).run m = .ok (m.readRegister r) m := by
  rw [readRegister, register?_val]
  rfl

theorem run_writeRegister (r : Register) (v : Word) :
    (writeRegister r v).run m = .ok () (m.writeRegister r v) := by
  rw [writeRegister, register?_val]
  rfl

theorem run_operandValue (operand : Operand) :
    (operandValue operand.raw).run m = .ok (Instruction.operandValue m operand) m := by
  cases operand with
  | register source => exact run_readRegister m source
  | immediate value => rfl

theorem and_mask_ne_zero_iff (nzp : BitVec 3) (c : Condition) :
    nzp.setWidth 16 &&& c.mask.setWidth 16 ≠ 0 ↔ c.meets nzp = true := by
  have hnat : ((nzp &&& c.mask).setWidth 16).toNat = (nzp &&& c.mask).toNat :=
    BitVec.toNat_setWidth_of_le (by decide)
  rw [← BitVec.setWidth_and, Condition.meets, bne_iff_ne, Ne, Ne, ← BitVec.toNat_inj, hnat,
    ← BitVec.toNat_inj]
  rfl

theorem run_apply (i : Instruction) : (apply i.raw).run m = .ok i.signal (i.effect m) := by
  cases i with
  | br nzp offset =>
    simp only [Instruction.raw, apply, run_get_bind, Instruction.effect, and_mask_ne_zero_iff]
    cases m.condition.meets nzp <;> rfl
  | jsr | rti => rfl
  | trap vector =>
    simp only [Instruction.raw, apply, Instruction.signal]
    split <;> rfl
  | _ =>
    simp only [Instruction.raw, apply, run_get_bind, run_bind_of_ok (run_readRegister m _),
      run_bind_of_ok (run_operandValue m _), run_bind_of_ok (run_writeRegister m _ _)]
    rfl

theorem run_prepare (w : Word) :
    (prepare w).run m = .ok ((Instruction.decodeFor m w).map Instruction.raw) m := by
  rw [prepare, decode_eq, Instruction.decodeFor]
  cases hi : Instruction.decode w with
  | none => rfl
  | some i =>
    cases i with
    | rti =>
      obtain ⟨_, _, _, _, supervisor⟩ := m
      cases supervisor <;> rfl
    | _ => rfl

theorem run_execute (w : Word) : (execute w).run m =
    match Instruction.execute m w with
    | .error fault => .ok (.error fault) m
    | .ok (signal, n) => .ok (.ok signal) n := by
  rw [execute, run_bind_of_ok (run_prepare m w), Instruction.execute]
  cases Instruction.decodeFor m w with
  | error fault => rfl
  | ok i => exact run_bind_of_ok (run_apply m i) _

end

end Checked
end Lc3
