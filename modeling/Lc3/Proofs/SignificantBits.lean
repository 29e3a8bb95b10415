import Lc3.Proofs.InstructionTable

/-! # Significant bits

Which bits of a word its instruction is made of. `Instruction.fields` lists the runs of operand bits
that the form of a word has; words of one opcode decode to the same instruction just if they agree
on these (`Instruction.decode_eq_iff_of_ofWord_eq`), since no operand loses a bit of its field when
it is taken out or extended. What lies neither in such a field nor in the opcode does not count, and
`ignoredBits` says of each word which bits these are (`notMem_ignoredBits_iff`). -/

namespace Lc3

namespace Word

/-- The words have the same bits from place `first` to before place `last`, counted from the least
significant. -/
def Agree (a b : Word) (first last : Nat) : Prop :=
  ∀ i, first ≤ i → i < last → a.getLsbD i = b.getLsbD i

variable {a b : Word} {shift width : Nat}

/-! ### Fields -/

theorem extractLsb'_eq_iff : a.extractLsb' shift width = b.extractLsb' shift width ↔
    Agree a b shift (shift + width) := by
  simp only [BitVec.eq_of_getLsbD_eq_iff, BitVec.getLsbD_extractLsb']
  constructor
  · intro h i hfirst hlast
    have hi : i - shift < width := by omega
    have hbit := h (i - shift) hi
    rwa [decide_eq_true hi, Bool.true_and, Bool.true_and, Nat.add_sub_cancel' hfirst] at hbit
  · intro h i hi
    rw [h (shift + i) (Nat.le_add_right ..) (by omega)]

theorem setWidth_eq_iff (h : width ≤ 16) :
    a.setWidth width = b.setWidth width ↔ Agree a b 0 width := by
  rw [BitVec.setWidth_eq_extractLsb' h, BitVec.setWidth_eq_extractLsb' h, extractLsb'_eq_iff,
    Nat.zero_add]

theorem field_eq_iff (h : width ≤ 16) :
    a.field shift width = b.field shift width ↔ Agree a b shift (shift + width) := by
  rw [← extractLsb'_eq_iff]
  refine ⟨fun hfield => ?_, fun hbits => by rw [field, hbits, field]⟩
  have hback := congrArg (BitVec.setWidth width) hfield
  rwa [field, field, BitVec.setWidth_setWidth_of_le _ h, BitVec.setWidth_setWidth_of_le _ h,
    BitVec.setWidth_eq, BitVec.setWidth_eq] at hback

theorem signExtendLow_eq_iff (h : width ≤ 16) :
    a.signExtendLow width = b.signExtendLow width ↔ Agree a b 0 width := by
  rw [← setWidth_eq_iff h]
  refine ⟨fun hext => ?_, fun hlow => by rw [signExtendLow, hlow, signExtendLow]⟩
  refine BitVec.eq_of_getLsbD_eq fun i hi => ?_
  have hbit := congrArg (BitVec.getLsbD · i) hext
  simpa only [signExtendLow, BitVec.getLsbD_signExtend, decide_eq_true (hi.trans_le h),
    Bool.true_and, if_pos hi] using hbit

theorem registerAt_eq_iff : a.registerAt shift = b.registerAt shift ↔
    Agree a b shift (shift + 3) := by
  rw [registerAt, registerAt, BitVec.toFin_inj, extractLsb'_eq_iff]

theorem getLsbD_eq_iff {i : Nat} : a.getLsbD i = b.getLsbD i ↔ Agree a b i (i + 1) := by
  refine ⟨fun h j hfirst hlast => ?_, fun h => h i le_rfl i.lt_succ_self⟩
  rwa [show j = i by omega]

end Word

namespace Opcode

theorem get_all_injective : Function.Injective all.get := by
  intro i j
  revert i j
  decide

theorem ofWord_eq_iff {a b : Word} : ofWord a = ofWord b ↔ Word.Agree a b 12 16 := by
  rw [ofWord, ofWord, get_all_injective.eq_iff, BitVec.toFin_inj, Word.extractLsb'_eq_iff]

end Opcode

namespace Instruction
open Word

/-- The operand fields of the word, each from its first bit to before its last. -/
def fields (w : Word) : List (Nat × Nat) :=
  match Opcode.ofWord w with
  | .add | .and => [(9, 12), (6, 9), (5, 6), (0, if w.getLsbD 5 then 5 else 3)]
  | .br | .ld | .ldi | .lea | .st | .sti => [(9, 12), (0, 9)]
  | .jmp => [(6, 9)]
  | .jsr => [(11, 12), if w.getLsbD 11 then (0, 11) else (6, 9)]
  | .ldr | .str => [(9, 12), (6, 9), (0, 6)]
  | .not => [(9, 12), (6, 9)]
  | .trap => [(0, 8)]
  | .rti | .reserved => []

variable {a b : Word}

/-- The mode bit is part of the operand, since a register and an immediate value differ. -/
theorem operandOf_eq_iff : operandOf a = operandOf b ↔
    Agree a b 5 6 ∧ Agree a b 0 (if a.getLsbD 5 then 5 else 3) := by
  rw [← getLsbD_eq_iff, operandOf, operandOf]
  cases a.getLsbD 5 <;> cases b.getLsbD 5 <;>
    simp [registerAt_eq_iff, signExtendLow_eq_iff]

theorem decode_eq_iff_of_ofWord_eq (h : Opcode.ofWord a = Opcode.ofWord b) :
    decode a = decode b ↔ ∀ f ∈ fields a, Agree a b f.1 f.2 := by
  unfold decode fields
  rw [← h]
  cases Opcode.ofWord a
  case jsr =>
    have hbit := getLsbD_eq_iff (a := a) (b := b) (i := 11)
    simp only [List.forall_mem_cons, ← hbit]
    cases a.getLsbD 11 <;> cases b.getLsbD 11 <;>
      simp [registerAt_eq_iff, signExtendLow_eq_iff]
  -- The opcodes with a single form.
  all_goals
    simp [registerAt_eq_iff, signExtendLow_eq_iff, operandOf_eq_iff, setWidth_eq_iff,
      extractLsb'_eq_iff, field_eq_iff]

theorem ofWord_eq_of_decode_eq (h : decode a = decode b) : Opcode.ofWord a = Opcode.ofWord b := by
  cases ha : decode a with
  | none =>
    rw [decode_eq_none_iff.1 ha, decode_eq_none_iff.1 (h.symm.trans ha)]
  | some i =>
    rw [← opcode_of_decode ha, opcode_of_decode (h.symm.trans ha)]

end Instruction

/-- The places of the bits that do not count, by the number in the top four bits and the bit that
tells the two forms of an opcode apart. -/
def ignoredBits (w : Word) : List Nat :=
  match Table.opcode w with
  | 0x1 | 0x5 => if w.getLsbD 5 then [] else [3, 4]
  | 0x4 => if w.getLsbD 11 then [] else List.range' 0 6 ++ [9, 10]
  | 0x8 | 0xD => List.range' 0 12
  | 0x9 => List.range' 0 6
  | 0xC => List.range' 0 6 ++ [9, 10, 11]
  | 0xF => [8, 9, 10, 11]
  | _ => []

/-- Up to the ignored ones, the bits are those of the opcode and of the operand fields. -/
theorem notMem_ignoredBits_iff (w : Word) : ∀ i < 16, i ∉ ignoredBits w ↔
    12 ≤ i ∨ ∃ f ∈ Instruction.fields w, f.1 ≤ i ∧ i < f.2 := by
  have hn := Table.opcode_eq_ctorIdx w
  unfold ignoredBits Instruction.fields
  cases ho : Opcode.ofWord w <;> rw [ho] at hn <;> simp only [hn, Opcode.ctorIdx]
  case add | and => cases w.getLsbD 5 <;> decide
  case jsr => cases w.getLsbD 11 <;> decide
  all_goals decide

theorem le_of_mem_fields (w : Word) : ∀ f ∈ Instruction.fields w, f.2 ≤ 12 := by
  unfold Instruction.fields
  cases Opcode.ofWord w <;> dsimp only
  case add | and => cases w.getLsbD 5 <;> decide
  case jsr => cases w.getLsbD 11 <;> decide
  all_goals decide

theorem Opcode.all_getElem?_ctorIdx (o : Opcode) : all[o.ctorIdx]? = some o := by
  cases o <;> rfl

open Instruction (decode)

/-- Two words are decoded to the same just if they have the same bits wherever these are not
ignored, and the words that are not decoded are those with the reserved opcode. -/
theorem decode_keeps_significant_bits (a b : Word) :
    (decode a = decode b ↔ ∀ i < 16, i ∉ ignoredBits a → a.getLsbD i = b.getLsbD i) ∧
    (∀ i, decode a = some i → Opcode.all[Table.opcode a]? = some i.opcode) ∧
    (decode a = none ↔ Table.opcode a = 0xD) := by
  refine ⟨⟨fun h i hi hcounts => ?_, fun h => ?_⟩, fun i h => ?_, ?_⟩
  · have ho := Instruction.ofWord_eq_of_decode_eq h
    rcases (notMem_ignoredBits_iff a i hi).1 hcounts with h12 | ⟨f, hf, hfirst, hlast⟩
    · exact Opcode.ofWord_eq_iff.1 ho i h12 hi
    · exact (Instruction.decode_eq_iff_of_ofWord_eq ho).1 h f hf i hfirst hlast
  · -- The opcode is never ignored, so that both words have the fields of `a`.
    have ho : Opcode.ofWord a = Opcode.ofWord b := Opcode.ofWord_eq_iff.2 fun i h12 hi =>
      h i hi ((notMem_ignoredBits_iff a i hi).2 (.inl h12))
    refine (Instruction.decode_eq_iff_of_ofWord_eq ho).2 fun f hf i hfirst hlast => ?_
    have hi : i < 16 := by
      have := le_of_mem_fields a f hf
      omega
    exact h i hi ((notMem_ignoredBits_iff a i hi).2 (.inr ⟨f, hf, hfirst, hlast⟩))
  · rw [Table.opcode_eq_ctorIdx, ← Instruction.opcode_of_decode h, Opcode.all_getElem?_ctorIdx]
  · rw [Instruction.decode_eq_none_iff]
    exact (Table.opcode_eq_iff .reserved).symm

example : decode 0x1282 = decode 0x129A ∧ decode 0x12A2 ≠ decode 0x12BA := by decide

end Lc3
