import Lc3.Proofs.Bits
import Lc3.Session

/-! # The instruction table

What every word does, row by row, told by the numbers that stand at places of its bits. The operand
places count from the most significant of the low 12 bits; a program counter in the table is the one
a machine has when it runs the word, so past that word. A row names the one part of the machine that
it changes; `Change.Made` says that all else stays as it was.

`execute_follows_table` is the statement: running a word does what its row says. Words are compared
with rows in two steps: a decoded instruction makes one change (`Instruction.made_effect`), and that
is the change of the row (`Table.change_eq`). -/

namespace Lc3
open Bits

/-- The one part of a machine that a word changes, with what it holds afterwards. -/
inductive Change where
  | nothing
  | register (target : Register) (value : Word)
  | memory (address value : Word)
  | pc (target : Word)
deriving Repr, DecidableEq

/-- The sign of a word, read as a number in two's complement. -/
def signOf (v : Word) : Condition :=
  if v.toInt < 0 then .negative else if v.toInt = 0 then .zero else .positive

theorem ofWord_eq_signOf (v : Word) : Condition.ofWord v = signOf v := by
  have hz : v.toInt = 0 ↔ v = 0 := by rw [← BitVec.toInt_inj]; rfl
  simp only [Condition.ofWord, signOf, BitVec.msb_eq_toInt, decide_eq_true_eq, hz]

namespace Change

/-- `n` is `m` after the change. Changing a register sets the condition code, and nothing else
does. -/
def Made (m n : Machine) : Change → Prop
  | nothing => n = m
  | register target value =>
    (∀ r, n.readRegister r = if r = target then value else m.readRegister r) ∧
      (∀ a, n.readMemory a = m.readMemory a) ∧ n.pc = m.pc ∧
      n.condition = signOf value ∧ n.supervisor = m.supervisor
  | memory address value =>
    (∀ a, n.readMemory a = if a = address then value else m.readMemory a) ∧
      (∀ r, n.readRegister r = m.readRegister r) ∧ n.pc = m.pc ∧
      n.condition = m.condition ∧ n.supervisor = m.supervisor
  | pc target =>
    n.pc = target ∧ (∀ r, n.readRegister r = m.readRegister r) ∧
      (∀ a, n.readMemory a = m.readMemory a) ∧
      n.condition = m.condition ∧ n.supervisor = m.supervisor

section
variable (m : Machine) (r : Register) (a v target : Word)

theorem made_writeRegister : (register r v).Made m (m.writeRegister r v) :=
  ⟨fun q => by simp [eq_comm], fun _ => rfl, rfl, ofWord_eq_signOf v, rfl⟩

theorem made_writeMemory : (memory a v).Made m (m.writeMemory a v) :=
  ⟨fun b => by simp [eq_comm], fun _ => rfl, rfl, rfl, rfl⟩

theorem made_jump : (pc target).Made m (m.jump target) :=
  ⟨rfl, fun _ => rfl, fun _ => rfl, rfl, rfl⟩

end

end Change

namespace Table

/-- The bits of `w` from operand place `first` to before operand place `last`. -/
def operand (w : Word) (first last : Nat) : List Bool :=
  w.slice (4 + first) (4 + last)

def opcode (w : Word) : Nat :=
  unsigned (w.slice 0 4)

/-- The register that the operand of three bits from place `first` on names. -/
def register (w : Word) (first : Nat) : Register :=
  Fin.ofNat 8 (unsigned (operand w first (first + 3)))

def source (m : Machine) (w : Word) (first : Nat) : Nat :=
  (m.readRegister (register w first)).toNat

def word (n : Int) : Word :=
  BitVec.ofInt 16 n

/-- The address that the signed operand from place `first` to the end is away from the program
counter. -/
def near (m : Machine) (w : Word) (first : Nat) : Word :=
  word (m.pc.toNat + signed (operand w first 12))

def second (m : Machine) (w : Word) : Nat :=
  if unsigned (operand w 6 7) = 0 then source m w 9 else (word (signed (operand w 7 12))).toNat

/-- The condition code as bits in the order of a branch's mask. -/
def flags (m : Machine) : List Bool :=
  [m.condition = .negative, m.condition = .zero, m.condition = .positive]

def taken (m : Machine) (w : Word) : Bool :=
  (List.zipWith and (operand w 0 3) (flags m)).any id

/-- The change that a word makes. The rows that are left out make none. -/
def change (m : Machine) (w : Word) : Change :=
  match opcode w with
  | 0x0 => if taken m w then .pc (near m w 3) else .nothing
  | 0x1 => .register (register w 0) (word (source m w 3 + second m w))
  | 0x2 => .register (register w 0) (m.readMemory (near m w 3))
  | 0x3 => .memory (near m w 3) (m.readRegister (register w 0))
  | 0x4 =>
    if unsigned (operand w 0 1) = 1 then .pc (near m w 1)
    else .pc (m.readRegister (register w 3))
  | 0x5 => .register (register w 0) (word ((source m w 3 &&& second m w : Nat)))
  | 0x6 => .register (register w 0) (m.readMemory (word (source m w 3 + signed (operand w 6 12))))
  | 0x7 => .memory (word (source m w 3 + unsigned (operand w 6 12))) (m.readRegister (register w 0))
  | 0x9 => .register (register w 0) (word (0xFFFF - source m w 3))
  | 0xA => .register (register w 0) (m.readMemory (m.readMemory (near m w 3)))
  | 0xB => .memory (m.readMemory (near m w 3)) (m.readRegister (register w 0))
  | 0xC => .pc (m.readRegister (register w 3))
  | 0xE => .register (register w 0) (near m w 3)
  | _ => .nothing

/-- Only the halting trap stops the machine, whatever the bits above its vector. -/
def signal (w : Word) : Signal :=
  if opcode w = 0xF ∧ unsigned (operand w 4 12) = 0x25 then .halt else .proceed

def fault? (m : Machine) (w : Word) : Option Fault :=
  if opcode w = 0xD then some (.undecodable .reserved w)
  else if opcode w = 0x8 ∧ m.supervisor = false then some (.unprivileged .rti w)
  else none

end Table

namespace Instruction

def change (m : Machine) : Instruction → Change
  | add target source operand =>
    .register target (m.readRegister source + operandValue m operand)
  | and target source operand =>
    .register target (m.readRegister source &&& operandValue m operand)
  | br nzp offset => if m.condition.meets nzp then .pc (m.relative offset) else .nothing
  | jmp base | jsrr base => .pc (m.readRegister base)
  | jsr offset => .pc (m.relative offset)
  | ld target offset => .register target (m.readMemory (m.relative offset))
  | ldi target offset => .register target (m.readMemory (m.readMemory (m.relative offset)))
  | ldr target base offset => .register target (m.readMemory (m.readRegister base + offset))
  | lea target offset => .register target (m.relative offset)
  | not target source => .register target (~~~m.readRegister source)
  | st source offset => .memory (m.relative offset) (m.readRegister source)
  | sti source offset => .memory (m.readMemory (m.relative offset)) (m.readRegister source)
  | str source base offset => .memory (m.readRegister base + offset) (m.readRegister source)
  | rti | trap _ => .nothing

theorem made_effect (m : Machine) (i : Instruction) : (i.change m).Made m (i.effect m) := by
  cases i with
  | br nzp offset =>
    rw [change, effect]
    split
    · exact Change.made_jump ..
    · rfl
  | jmp | jsrr | jsr => exact Change.made_jump ..
  | st | sti | str => exact Change.made_writeMemory ..
  | rti | trap => rfl
  | _ => exact Change.made_writeRegister ..

end Instruction

namespace Table

/-! ### Operands -/

section
variable (m : Machine) (w : Word)

theorem opcode_eq_ctorIdx : opcode w = (Opcode.ofWord w).ctorIdx := by
  have hall : ∀ k : Fin 16, (Opcode.all.get k).ctorIdx = k := by decide
  have hn : opcode w = (w.extractLsb' 12 4).toNat := by
    rw [opcode, w.unsigned_slice (by omega) (by omega), BitVec.extractLsb'_toNat,
      Nat.shiftRight_eq_div_pow]
  rw [Opcode.ofWord, hall, hn]
  rfl

theorem unsigned_operand {first last : Nat} (hle : first ≤ last) (hlast : last ≤ 12) :
    unsigned (operand w first last) = w.toNat / 2 ^ (12 - last) % 2 ^ (last - first) := by
  rw [operand, w.unsigned_slice (by omega) (by omega), Nat.add_sub_add_left,
    show 16 - (4 + last) = 12 - last by omega]

theorem register_eq_registerAt {first shift : Nat} (h : first + shift = 9) :
    register w first = w.registerAt shift := by
  apply Fin.ext
  rw [register, unsigned_operand w (by omega) (by omega), Nat.add_sub_cancel_left,
    show 12 - (first + 3) = shift by omega, Word.registerAt]
  simp [Nat.shiftRight_eq_div_pow]

theorem signed_operand_eq_toInt {first width : Nat} (h : first + width = 12) :
    signed (operand w first 12) = (w.signExtendLow width).toInt := by
  rw [operand, show 4 + first = 16 - width by omega]
  exact w.signed_slice_eq_signExtendLow (by omega)

theorem word_toNat_add_toInt (x y : Word) : word (x.toNat + y.toInt) = x + y := by
  rw [word, BitVec.ofInt_add, BitVec.ofInt_natCast, BitVec.ofInt_toInt, BitVec.ofNat_toNat,
    BitVec.setWidth_eq]

theorem word_toNat_add_toNat (x y : Word) : word (x.toNat + y.toNat) = x + y := by
  rw [word, ← Int.natCast_add, BitVec.ofInt_natCast, BitVec.ofNat_add, BitVec.ofNat_toNat,
    BitVec.ofNat_toNat, BitVec.setWidth_eq, BitVec.setWidth_eq]

theorem word_toNat_and_toNat (x y : Word) : word ((x.toNat &&& y.toNat : Nat)) = x &&& y := by
  rw [word, BitVec.ofInt_natCast, ← BitVec.toNat_and, BitVec.ofNat_toNat, BitVec.setWidth_eq]

theorem word_complement (x : Word) : word (0xFFFF - x.toNat) = ~~~x := by
  have hx := x.isLt
  apply BitVec.eq_of_toNat_eq
  rw [word, BitVec.toNat_ofInt, BitVec.toNat_not]
  omega

theorem near_eq_relative {first width : Nat} (h : first + width = 12) :
    near m w first = m.relative (w.signExtendLow width) := by
  rw [near, signed_operand_eq_toInt w h, word_toNat_add_toInt, Machine.relative]

theorem unsigned_operand_bit {place : Nat} (h : place < 12) :
    unsigned (operand w place (place + 1)) = (w.getLsbD (11 - place)).toNat := by
  rw [unsigned_operand w (by omega) (by omega), ← BitVec.testBit_toNat, Nat.toNat_testBit,
    Nat.add_sub_cancel_left, show 12 - (place + 1) = 11 - place by omega, Nat.pow_one]

theorem second_eq_operandValue :
    second m w = (Instruction.operandValue m (Instruction.operandOf w)).toNat := by
  rw [second, unsigned_operand_bit w (by decide), Instruction.operandOf]
  cases w.getLsbD 5
  · rw [source, register_eq_registerAt w (show 9 + 0 = 9 by rfl)]
    rfl
  · rw [signed_operand_eq_toInt w (show 7 + 5 = 12 by rfl), word, BitVec.ofInt_toInt]
    rfl

theorem unsigned_offset : unsigned (operand w 6 12) = (w.field 0 6).toNat :=
  w.unsigned_slice_eq_field (show 0 + 6 ≤ 16 by decide)

theorem unsigned_vector : unsigned (operand w 4 12) = (w.setWidth 8).toNat := by
  rw [unsigned_operand w (by decide) (by decide), BitVec.toNat_setWidth]
  simp

theorem meets_eq_any (c : Condition) (nzp : BitVec 3) :
    c.meets nzp = (List.zipWith and [nzp.getMsbD 0, nzp.getMsbD 1, nzp.getMsbD 2]
      [c = .negative, c = .zero, c = .positive]).any id := by
  revert nzp
  cases c <;> decide

theorem taken_eq_meets : taken m w = m.condition.meets (w.extractLsb' 9 3) := by
  have hmask : operand w 0 3 = [(w.extractLsb' 9 3).getMsbD 0, (w.extractLsb' 9 3).getMsbD 1,
      (w.extractLsb' 9 3).getMsbD 2] := by
    simp [operand, Word.slice, List.range', BitVec.getMsbD_eq_getLsbD]
  rw [meets_eq_any, taken, hmask, flags]

end

/-! ### Rows -/

section
variable {m : Machine} {w : Word} {i : Instruction} {fault : Fault}

theorem change_eq (h : Instruction.decode w = some i) : change m w = i.change m := by
  have hn := opcode_eq_ctorIdx w
  have hr := register_eq_registerAt w (show 0 + 9 = 9 by rfl)
  have hb := register_eq_registerAt w (show 3 + 6 = 9 by rfl)
  unfold Instruction.decode at h
  cases ho : Opcode.ofWord w <;> rw [ho] at hn h
  case reserved => cases h
  case jsr =>
    have hbit := unsigned_operand_bit w (show 0 < 12 by decide)
    cases hj : w.getLsbD 11 <;> simp only [hj, Bool.false_eq_true, if_false, if_true] at h hbit <;>
      cases h <;> simp only [change, hn, hbit, Opcode.ctorIdx, Instruction.change, hb]
    · rfl
    · rw [near_eq_relative m w (show 1 + 11 = 12 by rfl)]
      rfl
  -- The opcodes with a single form: the row and the instruction read the same operands.
  all_goals
    cases h
    simp only [change, hn, Opcode.ctorIdx, Instruction.change, hr, hb, source,
      near_eq_relative m w (show 3 + 9 = 12 by rfl), second_eq_operandValue, unsigned_offset,
      signed_operand_eq_toInt w (show 6 + 6 = 12 by rfl), taken_eq_meets, word_toNat_add_toNat,
      word_toNat_and_toNat, word_toNat_add_toInt, word_complement]

theorem signal_eq (h : Instruction.decode w = some i) : signal w = i.signal := by
  have hn := opcode_eq_ctorIdx w
  unfold Instruction.decode at h
  cases ho : Opcode.ofWord w <;> rw [ho] at hn h
  case reserved => cases h
  case jsr =>
    dsimp only at h
    split at h <;> cases h <;> simp [signal, hn, Opcode.ctorIdx, Instruction.signal]
  case trap =>
    cases h
    simp only [signal, hn, Opcode.ctorIdx, unsigned_vector, Instruction.signal, true_and,
      Instruction.haltVector, ← BitVec.toNat_inj]
    rfl
  all_goals
    cases h
    simp [signal, hn, Opcode.ctorIdx, Instruction.signal]

theorem opcode_eq_iff (o : Opcode) : opcode w = o.ctorIdx ↔ Opcode.ofWord w = o := by
  rw [opcode_eq_ctorIdx]
  refine ⟨fun h => ?_, fun h => by rw [h]⟩
  rw [← Opcode.ofNat_ctorIdx (Opcode.ofWord w), h, Opcode.ofNat_ctorIdx]

theorem isPrivileged_iff (i : Instruction) : i.isPrivileged = true ↔ i.opcode = .rti := by
  cases i <;> simp [Instruction.isPrivileged, Instruction.opcode]

theorem exists_decode (h : opcode w ≠ 0xD) : ∃ i, Instruction.decode w = some i := by
  rw [← Option.ne_none_iff_exists', Ne, Instruction.decode_eq_none_iff]
  exact mt (opcode_eq_iff .reserved).2 h

theorem decodeFor_of_fault? (h : fault? m w = some fault) :
    Instruction.decodeFor m w = .error fault := by
  unfold fault? at h
  by_cases hd : opcode w = 0xD
  · have ho := (opcode_eq_iff .reserved).1 hd
    rw [if_pos hd] at h
    cases h
    rw [Instruction.decodeFor, Instruction.decode_eq_none_iff.2 ho, ho]
  · rw [if_neg hd] at h
    obtain ⟨i, hi⟩ := exists_decode hd
    split at h
    · next hp =>
      have ho : i.opcode = .rti :=
        (Instruction.opcode_of_decode hi).trans ((opcode_eq_iff .rti).1 hp.1)
      cases h
      simp [Instruction.decodeFor, hi, (isPrivileged_iff i).2 ho, ho, hp.2]
    · cases h

theorem exists_decodeFor (h : fault? m w = none) : ∃ i, Instruction.decodeFor m w = .ok i := by
  unfold fault? at h
  by_cases hd : opcode w = 0xD
  · rw [if_pos hd] at h
    cases h
  · rw [if_neg hd] at h
    obtain ⟨i, hi⟩ := exists_decode hd
    refine ⟨i, Instruction.decodeFor_eq_ok_iff.2 ⟨hi, fun hp => ?_⟩⟩
    have ho := (Instruction.opcode_of_decode hi).symm.trans ((isPrivileged_iff i).1 hp)
    by_contra hs
    rw [if_pos ⟨(opcode_eq_iff .rti).2 ho, Bool.eq_false_of_not_eq_true hs⟩] at h
    cases h

theorem execute_eq_error_iff :
    Instruction.execute m w = .error fault ↔ fault? m w = some fault := by
  refine ⟨fun h => ?_, fun h => Instruction.execute_of_decodeFor_error (decodeFor_of_fault? h)⟩
  cases hf : fault? m w with
  | some fault' =>
    rw [Instruction.execute_of_decodeFor_error (decodeFor_of_fault? hf)] at h
    cases h
    rfl
  | none =>
    obtain ⟨i, hi⟩ := exists_decodeFor hf
    rw [Instruction.execute_of_decodeFor_ok hi] at h
    cases h

/-- A word that cannot run is in no row that makes a change, on any machine. -/
theorem change_of_decodeFor_error (h : Instruction.decodeFor m w = .error fault) (n : Machine) :
    change n w = .nothing := by
  have hfault := execute_eq_error_iff.1 (Instruction.execute_of_decodeFor_error h)
  -- The table is read by the opcode, so it is enough to know which opcodes can be refused.
  have ho : opcode w = 0xD ∨ opcode w = 0x8 := by
    unfold fault? at hfault
    split at hfault
    · exact .inl ‹_›
    · split at hfault
      · next hp => exact .inr hp.1
      · cases hfault
  rcases ho with ho | ho <;> rw [change, ho] <;> rfl

theorem exists_undecodable_iff :
    (∃ o v, fault? m w = some (.undecodable o v)) ↔ opcode w = 0xD := by
  unfold fault?
  split_ifs <;> simp [*]

theorem exists_unprivileged_iff :
    (∃ o v, fault? m w = some (.unprivileged o v)) ↔ opcode w = 0x8 ∧ m.supervisor = false := by
  unfold fault?
  split_ifs <;> simp [*]

end

end Table

open Instruction (execute)

/-- Running a word does what its row says: it fails with the fault of the row and leaves everything
as it was, or it makes the change of the row and no other. -/
theorem execute_follows_table (m : Machine) (w : Word) :
    (match Table.fault? m w with
      | some fault =>
        execute m w = .error fault ∧ ∀ fuel count status,
          Operation.perform fuel ⟨m, count, status⟩ (.execute w) =
            some (.faulted fault, ⟨m, count, status⟩)
      | none =>
        ∃ n, execute m w = .ok (Table.signal w, n) ∧ (Table.change m w).Made m n ∧
          ∀ fuel count status,
            Operation.perform fuel ⟨m, count, status⟩ (.execute w) =
              some (.signal (Table.signal w), ⟨n, count, status⟩)) ∧
      ((∃ opcode v, execute m w = .error (.undecodable opcode v)) ↔ Table.opcode w = 0xD) ∧
      ((∃ opcode v, execute m w = .error (.unprivileged opcode v)) ↔
        Table.opcode w = 0x8 ∧ m.supervisor = false) := by
  refine ⟨?_, ?_, ?_⟩
  · cases hf : Table.fault? m w with
    | some fault =>
      have he := Table.execute_eq_error_iff.2 hf
      exact ⟨he, fun fuel count status => by simp only [Operation.perform, he]⟩
    | none =>
      obtain ⟨i, hi⟩ := Table.exists_decodeFor hf
      have hd := (Instruction.decodeFor_eq_ok_iff.1 hi).1
      have he := Instruction.execute_of_decodeFor_ok hi
      rw [← Table.signal_eq hd] at he
      refine ⟨i.effect m, he, ?_, fun fuel count status => ?_⟩
      · rw [Table.change_eq hd]
        exact i.made_effect m
      · simp only [Operation.perform, he]
        rfl
  · simp only [Table.execute_eq_error_iff]
    exact Table.exists_undecodable_iff
  · simp only [Table.execute_eq_error_iff]
    exact Table.exists_unprivileged_iff

end Lc3
