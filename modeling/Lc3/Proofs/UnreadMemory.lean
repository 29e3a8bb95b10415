import Lc3.Proofs.Lockstep
import Lc3.Proofs.MemoryWrites
import Mathlib.Data.List.Basic

/-! # Unread memory

A cell that no cycle reads has no part in what a run does, whatever it holds at the start. A cycle
reads the cell that it fetches from and those that its word loads from (`Table.loads`); a store to a
cell does not read it. So two machines that differ in that cell make the same changes
(`Machine.Moved.change_of_notMem_loads`, at no distance), and what the cell holds in the end is what
the stores have left there (`Simulator.readMemory_after`). -/

namespace Lc3
open Bits

namespace Table

/-- The cells that a word loads from, where an indirect access loads its address from a cell. -/
def loads (m : Machine) (w : Word) : List Word :=
  match opcode w with
  | 0x2 | 0xB => [near m w 3]
  | 0x6 => [word (source m w 3 + signed (operand w 6 12))]
  | 0xA => [near m w 3, m.readMemory (near m w 3)]
  | _ => []

end Table

/-- The write to memory that a change makes, as its address and its word. -/
def Change.store? : Change → Option (Word × Word)
  | memory a v => some (a, v)
  | nothing | register .. | pc _ => none

namespace Simulator

/-- The cells that the next cycle reads. A machine that has stopped reads none. -/
def reads (s : Simulator) : List Word :=
  match s.fetch? with
  | none => []
  | some w => s.machine.pc :: Table.loads s.machine.past w

/-- The write to memory of the next cycle. -/
def store? (s : Simulator) : Option (Word × Word) :=
  s.fetch?.bind fun w => (Table.change s.machine.past w).store?

/-- The writes to memory of the first `n` cycles, in order. -/
def stores (s : Simulator) (n : Nat) : List (Word × Word) :=
  (List.range n).filterMap fun j => (s.after j).store?

end Simulator

/-! ### What is not read does not count -/

/-- All rows name the same change on machines that differ where the word does not load from. -/
theorem Machine.Moved.change_of_notMem_loads {a : Word} {m n : Machine} (h : m.Moved 0 {a} n)
    {w : Word} (hw : a ∉ Table.loads m w) : Table.change n w = Table.change m w := by
  have hnear : ∀ first, Table.near n w first = Table.near m w first := by
    simpa using h.near w
  have hmem : ∀ b, a ≠ b → n.readMemory b = m.readMemory b := by
    intro b hb
    simpa using h.memory b (Ne.symm hb)
  have hn := Table.opcode_eq_ctorIdx w
  unfold Table.loads at hw
  unfold Table.change
  cases ho : Opcode.ofWord w <;> rw [ho] at hn <;> simp only [hn, Opcode.ctorIdx] at hw ⊢
  case br => rw [h.taken, hnear]
  case add | and => rw [h.source, h.second]
  case ld =>
    rw [hnear, hmem _ (List.ne_of_not_mem_cons hw)]
  case st => rw [hnear, h.registers]
  case jsr => rw [hnear, h.registers]
  case ldr =>
    rw [h.source, hmem _ (List.ne_of_not_mem_cons hw)]
  case str => rw [h.source, h.registers]
  case not => rw [h.source]
  case ldi =>
    have hpointer := List.ne_of_not_mem_cons hw
    have hcell := List.ne_of_not_mem_cons (List.not_mem_of_not_mem_cons hw)
    rw [hnear, hmem _ hpointer, hmem _ hcell]
  case sti =>
    rw [hnear, hmem _ (List.ne_of_not_mem_cons hw), h.registers]
  case jmp => rw [h.registers]
  case lea => rw [hnear]

namespace Simulator
variable {s t : Simulator} {a : Word}

theorem moves_of_notMem_reads (h : a ∉ s.reads) : s.Moves 0 {a} := by
  intro hr
  rw [reads, fetch?, if_pos hr] at h
  obtain ⟨hpc, hloads⟩ := not_or.1 (mt List.mem_cons.2 h)
  refine ⟨fun hmem => hpc (Set.mem_singleton_iff.1 hmem).symm, fun n hn => ?_⟩
  rw [hn.past.change_of_notMem_loads hloads, Change.move_zero]

theorem Moved.store?_eq {A : Set Word} (h : s.Moved 0 A t) (hs : s.Moves 0 A) :
    t.store? = s.store? := by
  rw [store?, fetch?, h.isRunning, store?, fetch?]
  cases hr : s.isRunning with
  | false => rfl
  | true =>
    obtain ⟨hpc, hchange⟩ := hs hr
    show (Table.change t.machine.past t.machine.fetched).store? = _
    rw [h.machine.fetched hpc, hchange t.machine h.machine, Change.move_zero]
    rfl

end Simulator

/-! ### What stores leave -/

theorem Change.Made.readMemory {c : Change} {m n : Machine} (h : c.Made m n) (a : Word) :
    n.readMemory a = (lastTo a c.store?.toList).getD (m.readMemory a) := by
  cases c with
  | nothing => exact congrArg (·.readMemory a) h
  | register r v => exact h.2.1 a
  | pc target => exact h.2.2.1 a
  | memory b v =>
    have hcell : n.readMemory a = if b = a then v else m.readMemory a := by
      rw [h.1 a]
      simp only [eq_comm]
    rw [hcell, store?, Option.toList_some, getD_lastTo_cons]
    rfl

namespace Simulator
variable {s t : Simulator} {a : Word}

theorem readMemory_cycle (s : Simulator) (a : Word) :
    s.cycle.2.machine.readMemory a =
      (lastTo a s.store?.toList).getD (s.machine.readMemory a) := by
  rw [store?, fetch?]
  rcases s.cycle_eq_cases with ⟨hr, hc⟩ | ⟨hr, fault, hi, hc⟩ | ⟨hr, i, hi, hc⟩ <;> rw [hc, hr]
  · rfl
  · show _ = (lastTo a (Table.change s.machine.past s.machine.fetched).store?.toList).getD _
    rw [Table.change_of_decodeFor_error hi]
    rfl
  · show _ = (lastTo a (Table.change s.machine.past s.machine.fetched).store?.toList).getD _
    rw [Table.change_eq (Instruction.decodeFor_eq_ok_iff.1 hi).1]
    exact (i.made_effect s.machine.past).readMemory a

theorem stores_succ (s : Simulator) (n : Nat) :
    s.stores (n + 1) = s.stores n ++ (s.after n).store?.toList := by
  rw [stores, List.range_succ, List.filterMap_append, List.filterMap_cons, List.filterMap_nil]
  cases (s.after n).store? <;> rfl

/-- Memory is what the stores have made of it. -/
theorem readMemory_after (s : Simulator) (n : Nat) (a : Word) :
    (s.after n).machine.readMemory a = (lastTo a (s.stores n)).getD (s.machine.readMemory a) := by
  induction n with
  | zero => rfl
  | succ n ih =>
    rw [after_succ, readMemory_cycle, stores_succ, lastTo_append, Option.getD_or, ih]

theorem Moved.stores_eq {A : Set Word} {n : Nat} (h : s.Moved 0 A t)
    (hn : ∀ j < n, (s.after j).Moves 0 A) : t.stores n = s.stores n := by
  have hafter := (h.after hn).2
  refine List.filterMap_congr fun j hj => ?_
  have hlt := List.mem_range.1 hj
  exact (hafter j hlt.le).store?_eq (hn j hlt)

theorem moved_writeMemory (s : Simulator) (a v : Word) :
    s.Moved 0 {a} (s.mapMachine (·.writeMemory a v)) := by
  refine ⟨⟨fun b hb => ?_, fun _ => rfl, ?_, rfl, rfl⟩, rfl, rfl⟩
  · have hne : ¬ a = b := fun hab => hb hab.symm
    simp [hne]
  · simp

/-- A word written to a cell that the first `n` cycles do not read has no influence on them, and
stays in the cell until a cycle stores to it. -/
theorem unread_cell_has_no_influence (s : Simulator) (a v : Word) (n : Nat)
    (h : ∀ j < n, a ∉ (s.after j).reads) :
    let t := s.mapMachine (·.writeMemory a v)
    (∀ j < n, (t.after j).cycle.1 = (s.after j).cycle.1) ∧
    ∀ j ≤ n,
      (∀ r, (t.after j).machine.readRegister r = (s.after j).machine.readRegister r) ∧
      (t.after j).machine.pc = (s.after j).machine.pc ∧
      (t.after j).machine.condition = (s.after j).machine.condition ∧
      (t.after j).machine.supervisor = (s.after j).machine.supervisor ∧
      (t.after j).count = (s.after j).count ∧
      (t.after j).status = (s.after j).status ∧
      (∀ b ≠ a, (t.after j).machine.readMemory b = (s.after j).machine.readMemory b) ∧
      (t.after j).machine.readMemory a = (lastTo a (s.stores j)).getD v ∧
      (s.after j).machine.readMemory a = (lastTo a (s.stores j)).getD (s.machine.readMemory a) := by
  intro t
  have hmoved : s.Moved 0 {a} t := moved_writeMemory s a v
  have hmoves : ∀ j < n, (s.after j).Moves 0 {a} := fun j hj => moves_of_notMem_reads (h j hj)
  obtain ⟨hresults, hafter⟩ := hmoved.after hmoves
  have hid : Option.map (Cycle.move 0) = id := by
    funext c
    cases c with
    | none => rfl
    | some c => exact congrArg some c.move_zero
  refine ⟨fun j hj => ?_, fun j hj => ?_⟩
  · rw [hresults j hj, hid]
    cases (s.after j).cycle.1 <;> rfl
  · obtain ⟨⟨hmem, hregs, hpc, hcondition, hmode⟩, hcount, hstatus⟩ := hafter j hj
    have hstores := hmoved.stores_eq fun i hi => hmoves i (Nat.lt_of_lt_of_le hi hj)
    have hcell : t.machine.readMemory a = v := by simp [t]
    refine ⟨hregs, hpc.trans (by simp), hcondition, hmode, hcount, hstatus, fun b hb => ?_, ?_,
      s.readMemory_after j a⟩
    · simpa using hmem b hb
    · rw [t.readMemory_after j a, hstores, hcell]

/-- A program that counts to one and stores the count does not see what was in the cell before. -/
theorem unread_cell_of_count :
    let s := ofImage ⟨0, [0x1021, 0x3001, 0xF025]⟩
    let t := s.mapMachine (·.writeMemory 3 0xBEEF)
    (∀ j < 3, 3 ∉ (s.after j).reads) ∧ (t.after 1).machine.readMemory 3 = 0xBEEF ∧
      (t.after 3).machine.readMemory 3 = 1 ∧ (t.after 3).status = .halted := by
  intro s t
  have h : ∀ j < 3, 3 ∉ (s.after j).reads := by decide
  obtain ⟨-, hafter⟩ := unread_cell_has_no_influence s 3 0xBEEF 3 h
  obtain ⟨-, -, -, -, -, -, -, hbefore, -⟩ := hafter 1 (by decide)
  obtain ⟨-, -, -, -, -, hstatus, -, hstored, -⟩ := hafter 3 le_rfl
  exact ⟨h, hbefore.trans (by decide), hstored.trans (by decide), hstatus.trans (by decide)⟩

end Simulator
end Lc3
