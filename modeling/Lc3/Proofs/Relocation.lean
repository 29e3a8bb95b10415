import Lc3.Proofs.Lockstep
import Lc3.Simulator.Boundary

/-! # Relocation

A program that takes no address from a register or a cell, and puts none into a register, does the
same wherever it is loaded. The memory of one run is that of the other rotated, so that it does not
matter which of the two lies across the end of memory, nor how often a long image goes around it.
`Machine.Moved.change` reads it off the rows of the instruction table, and the loader keeps it as
well (`Memory.read_writeAll_add`), whence `relocated_run_is_moved`. -/

namespace Lc3
open Bits

namespace Table

/-- The word takes an address from a register or a cell, or puts one into a register: the base
registers, the indirect accesses, and the one that loads an address. -/
def HandlesAddress (w : Word) : Prop :=
  opcode w ∈ [0x6, 0x7, 0xA, 0xB, 0xC, 0xE] ∨ opcode w = 0x4 ∧ unsigned (operand w 0 1) = 0

instance (w : Word) : Decidable (HandlesAddress w) :=
  inferInstanceAs (Decidable (_ ∨ _))

theorem unsigned_operand_bit_lt (w : Word) : unsigned (operand w 0 1) < 2 := by
  rw [unsigned_operand w (by decide) (by decide)]
  omega

end Table

namespace Machine.Moved
variable {d : Word} {m n : Machine}

/-- All the rows but those that handle addresses name the same change on the moved machine. -/
theorem change (h : m.Moved d ∅ n) {w : Word} (hw : ¬ Table.HandlesAddress w) :
    Table.change n w = (Table.change m w).move d := by
  have hnear := h.near w
  have hmem : ∀ a, n.readMemory (a + d) = m.readMemory a := fun a => h.memory a (Set.notMem_empty a)
  obtain ⟨hopcode, hjump⟩ := not_or.1 hw
  have hn := Table.opcode_eq_ctorIdx w
  unfold Table.change
  cases ho : Opcode.ofWord w <;> rw [ho] at hn <;> simp only [hn, Opcode.ctorIdx] at hopcode ⊢
  case br =>
    rw [h.taken, hnear]
    split <;> rfl
  case add | and => rw [h.source, h.second]; rfl
  case ld => rw [hnear, hmem]; rfl
  case st => rw [hnear, h.registers]; rfl
  case jsr =>
    have hbit := Table.unsigned_operand_bit_lt w
    have hnear_jump : unsigned (Table.operand w 0 1) = 1 := by
      have hne : unsigned (Table.operand w 0 1) ≠ 0 := fun h0 => hjump ⟨hn, h0⟩
      omega
    rw [if_pos hnear_jump, if_pos hnear_jump, hnear]
    rfl
  case not => rw [h.source]; rfl
  case rti | reserved | trap => rfl
  -- The rows of the words that handle addresses.
  all_goals exact absurd (by decide) hopcode

end Machine.Moved

/-! ### Loading -/

theorem Memory.read_writeAll_add {d : Word} {m n : Memory}
    (h : ∀ a, n.read (a + d) = m.read a) (origin : Word) (words : List Word) (a : Word) :
    (n.writeAll (origin + d) words).read (a + d) = (m.writeAll origin words).read a := by
  induction words generalizing m n origin with
  | nil => exact h a
  | cons w words ih =>
    have hnext : origin + d + 1 = origin + 1 + d := by ac_rfl
    rw [writeAll_cons, writeAll_cons, hnext]
    refine ih (fun b => ?_) (origin + 1)
    simp only [read_write, BitVec.add_left_inj, h]

namespace Simulator

/-- A fresh machine in the mode given, with the image loaded. -/
def loaded (supervisor : Bool) (image : Image) : Simulator :=
  (ofMachine (Machine.initial.setSupervisor supervisor)).load image

theorem moved_loaded (supervisor : Bool) (origin d : Word) (words : List Word) :
    (loaded supervisor ⟨origin, words⟩).Moved d ∅ (loaded supervisor ⟨origin + d, words⟩) := by
  refine ⟨⟨fun a _ => ?_, fun _ => rfl, rfl, rfl, rfl⟩, rfl, rfl⟩
  have hzero : ∀ a, Memory.zero.read (a + d) = Memory.zero.read a := by simp
  exact Memory.read_writeAll_add hzero origin words a

theorem moves_of_not_handlesAddress {s : Simulator} (d : Word)
    (h : s.isRunning = true → ¬ Table.HandlesAddress s.machine.fetched) : s.Moves d ∅ :=
  fun hr => ⟨Set.notMem_empty _, fun _ hn => hn.past.change (h hr)⟩

/-- Two fresh machines with the same words loaded at a distance of `d` give the same results at that
distance as long as no word is run that handles an address. -/
theorem relocated_run_is_moved (supervisor : Bool) (words : List Word) (origin d : Word) (n : Nat)
    (h : ∀ j < n, ((loaded supervisor ⟨origin, words⟩).after j).isRunning = true →
      ¬ Table.HandlesAddress ((loaded supervisor ⟨origin, words⟩).after j).machine.fetched) :
    let s := loaded supervisor ⟨origin, words⟩
    let t := loaded supervisor ⟨origin + d, words⟩
    (∀ j < n, (t.after j).cycle.1 = (s.after j).cycle.1.map (Option.map (Cycle.move d))) ∧
    ∀ j ≤ n,
      (∀ r, (t.after j).machine.readRegister r = (s.after j).machine.readRegister r) ∧
      (t.after j).machine.condition = (s.after j).machine.condition ∧
      (t.after j).machine.supervisor = (s.after j).machine.supervisor ∧
      (t.after j).count = (s.after j).count ∧
      (t.after j).status = (s.after j).status ∧
      (t.after j).machine.pc = (s.after j).machine.pc + d ∧
      ∀ a, (t.after j).machine.readMemory (a + d) = (s.after j).machine.readMemory a := by
  intro s t
  obtain ⟨hresults, hafter⟩ := (moved_loaded supervisor origin d words).after fun j hj =>
    moves_of_not_handlesAddress d (h j hj)
  refine ⟨hresults, fun j hj => ?_⟩
  obtain ⟨⟨hmem, hregs, hpc, hcondition, hmode⟩, hcount, hstatus⟩ := hafter j hj
  exact ⟨hregs, hcondition, hmode, hcount, hstatus, hpc, fun a => hmem a (Set.notMem_empty a)⟩

/-- A program at the start of memory that loads a cell and halts, and the same at its end. -/
theorem relocated_load_and_halt :
    let words : List Word := [0x2001, 0xF025, 0x0007]
    let s := loaded false ⟨0, words⟩
    let t := loaded false ⟨0 + 0xFFFF, words⟩
    (∀ j < 2, (s.after j).isRunning = true → ¬ Table.HandlesAddress (s.after j).machine.fetched) ∧
      (t.after 2).machine.readRegister 0 = 7 ∧ (t.after 2).machine.pc = 1 ∧
      (t.after 2).status = .halted ∧ (t.after 1).cycle.1 = .ok (some ⟨0, 0xF025, .trap 0x25⟩) := by
  intro words s t
  have h : ∀ j < 2, (s.after j).isRunning = true →
      ¬ Table.HandlesAddress (s.after j).machine.fetched := by decide
  obtain ⟨hresults, hafter⟩ := relocated_run_is_moved false words 0 0xFFFF 2 h
  obtain ⟨hregs, -, -, -, hstatus, hpc, -⟩ := hafter 2 le_rfl
  refine ⟨h, (hregs 0).trans (by decide), hpc.trans (by decide), hstatus.trans (by decide), ?_⟩
  exact (hresults 1 (by decide)).trans (by decide)

end Simulator
end Lc3
