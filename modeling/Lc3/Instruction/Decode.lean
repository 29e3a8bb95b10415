import Lc3.Instruction.Basic

/-! # Decoding

Every word encodes an instruction, except those with the reserved opcode. The offset of `str` is
extended with zeros; all other offsets and the immediate operands are signed. -/

namespace Lc3

/-- The register named by the three bits of `w` from bit `shift` up. -/
def Word.registerAt (w : Word) (shift : Nat) : Register :=
  (w.extractLsb' shift 3).toFin

namespace Instruction

def operandOf (w : Word) : Operand :=
  if w.getLsbD 5 then .immediate (w.signExtendLow 5) else .register (w.registerAt 0)

def decode (w : Word) : Option Instruction :=
  match Opcode.ofWord w with
  | .add => some (add (w.registerAt 9) (w.registerAt 6) (operandOf w))
  | .and => some (and (w.registerAt 9) (w.registerAt 6) (operandOf w))
  | .br => some (br (w.extractLsb' 9 3) (w.signExtendLow 9))
  | .jmp => some (jmp (w.registerAt 6))
  | .jsr => if w.getLsbD 11 then some (jsr (w.signExtendLow 11)) else some (jsrr (w.registerAt 6))
  | .ld => some (ld (w.registerAt 9) (w.signExtendLow 9))
  | .ldi => some (ldi (w.registerAt 9) (w.signExtendLow 9))
  | .ldr => some (ldr (w.registerAt 9) (w.registerAt 6) (w.signExtendLow 6))
  | .lea => some (lea (w.registerAt 9) (w.signExtendLow 9))
  | .not => some (not (w.registerAt 9) (w.registerAt 6))
  | .rti => some rti
  | .st => some (st (w.registerAt 9) (w.signExtendLow 9))
  | .sti => some (sti (w.registerAt 9) (w.signExtendLow 9))
  | .str => some (str (w.registerAt 9) (w.registerAt 6) (w.field 0 6))
  | .trap => some (trap (w.setWidth 8))
  | .reserved => none

/-- A decoded instruction has the opcode that its word selects. -/
theorem opcode_of_decode {w : Word} {i : Instruction} (h : decode w = some i) :
    i.opcode = Opcode.ofWord w := by
  unfold decode at h
  split at h <;> try split at h
  all_goals cases h <;> simp only [opcode, *]

theorem decode_eq_none_iff {w : Word} : decode w = none ↔ Opcode.ofWord w = .reserved := by
  unfold decode
  split <;> simp_all
  split <;> simp

end Instruction
end Lc3
