import Lc3.Proofs.Lifecycle
import Mathlib.Data.Set.Insert

/-! # Two machines in lockstep

Two machines can go through the same instructions although one lies at other addresses than the
other, or some of their cells differ. `Moved d A` says how far apart they are: addresses by `d`, and
the cells in `A` do not count. A change that both make keeps this (`Moved.made`), and so does a
cycle in which the second machine makes the change of the first, moved by `d` (`Moved.cycle`).
`Moves` asks that of a cycle whatever the second machine is, which leaves a property of the first
run alone, and `Moved.after` goes through all cycles of a run that have it. -/

namespace Lc3

def Cycle.move (d : Word) (c : Cycle) : Cycle where
  address := c.address + d
  word := c.word
  instruction := c.instruction

def Change.move (d : Word) : Change → Change
  | nothing => nothing
  | register target value => register target value
  | memory address value => memory (address + d) value
  | pc target => pc (target + d)

theorem Cycle.move_zero (c : Cycle) : c.move 0 = c := by
  simp [move]

theorem Change.move_zero (c : Change) : c.move 0 = c := by
  cases c <;> simp [move]

theorem Table.word_toNat_add (x : Word) (k : Int) : word (x.toNat + k) = x + word k := by
  rw [word, word, BitVec.ofInt_add, BitVec.ofInt_natCast, BitVec.ofNat_toNat, BitVec.setWidth_eq]

namespace Machine

/-- The machine when it runs the word that it has fetched. -/
def past (m : Machine) : Machine :=
  m.jump (m.pc + 1)

/-- `n` is `m` with all addresses moved by `d`, but for what the cells in `A` hold. -/
structure Moved (d : Word) (A : Set Word) (m n : Machine) : Prop where
  memory : ∀ a ∉ A, n.readMemory (a + d) = m.readMemory a
  registers : ∀ r, n.readRegister r = m.readRegister r
  pc : n.pc = m.pc + d
  condition : n.condition = m.condition
  supervisor : n.supervisor = m.supervisor

namespace Moved
variable {d : Word} {A : Set Word} {m n m' n' : Machine}

theorem fetched (h : m.Moved d A n) (hpc : m.pc ∉ A) : n.fetched = m.fetched := by
  rw [Machine.fetched, h.pc]
  exact h.memory m.pc hpc

theorem past (h : m.Moved d A n) : m.past.Moved d A n.past where
  memory := h.memory
  registers := h.registers
  pc := by
    show n.pc + 1 = m.pc + 1 + d
    rw [h.pc]
    ac_rfl
  condition := h.condition
  supervisor := h.supervisor

/-! ### Operands -/

theorem near (h : m.Moved d A n) (w : Word) (first : Nat) :
    Table.near n w first = Table.near m w first + d := by
  rw [Table.near, Table.near, Table.word_toNat_add, Table.word_toNat_add, h.pc]
  ac_rfl

theorem source (h : m.Moved d A n) (w : Word) (first : Nat) :
    Table.source n w first = Table.source m w first := by
  rw [Table.source, h.registers, Table.source]

theorem second (h : m.Moved d A n) (w : Word) : Table.second n w = Table.second m w := by
  rw [Table.second, h.source, Table.second]

theorem taken (h : m.Moved d A n) (w : Word) : Table.taken n w = Table.taken m w := by
  rw [Table.taken, Table.flags, h.condition, Table.taken, Table.flags]

/-! ### Changes -/

/-- The same change at the same distance keeps the distance. -/
theorem made (h : m.Moved d A n) {c : Change} (hm : c.Made m m') (hn : (c.move d).Made n n') :
    m'.Moved d A n' := by
  cases c with
  | nothing =>
    obtain rfl : m' = m := hm
    obtain rfl : n' = n := hn
    exact h
  | register r v =>
    obtain ⟨mregs, mmem, mpc, mcond, msup⟩ := hm
    obtain ⟨nregs, nmem, npc, ncond, nsup⟩ := hn
    refine ⟨fun a ha => ?_, fun q => ?_, ?_, ncond.trans mcond.symm, ?_⟩
    · rw [nmem, mmem, h.memory a ha]
    · rw [nregs, mregs, h.registers]
    · rw [npc, mpc, h.pc]
    · rw [nsup, msup, h.supervisor]
  | memory b v =>
    obtain ⟨mmem, mregs, mpc, mcond, msup⟩ := hm
    obtain ⟨nmem, nregs, npc, ncond, nsup⟩ := hn
    refine ⟨fun a ha => ?_, fun q => ?_, ?_, ?_, ?_⟩
    · rw [nmem, mmem, h.memory a ha]
      simp only [BitVec.add_left_inj]
    · rw [nregs, mregs, h.registers]
    · rw [npc, mpc, h.pc]
    · rw [ncond, mcond, h.condition]
    · rw [nsup, msup, h.supervisor]
  | pc target =>
    obtain ⟨mpc, mregs, mmem, mcond, msup⟩ := hm
    obtain ⟨npc, nregs, nmem, ncond, nsup⟩ := hn
    refine ⟨fun a ha => ?_, fun q => ?_, ?_, ?_, ?_⟩
    · rw [nmem, mmem, h.memory a ha]
    · rw [nregs, mregs, h.registers]
    · rw [npc, mpc]
    · rw [ncond, mcond, h.condition]
    · rw [nsup, msup, h.supervisor]

end Moved
end Machine

namespace Simulator

structure Moved (d : Word) (A : Set Word) (s t : Simulator) : Prop where
  machine : s.machine.Moved d A t.machine
  count : t.count = s.count
  status : t.status = s.status

/-- On every machine that is this one moved by `d`, but for the cells in `A`, the next cycle fetches
the same word and makes the same change, moved by `d`. -/
def Moves (d : Word) (A : Set Word) (s : Simulator) : Prop :=
  s.isRunning = true → s.machine.pc ∉ A ∧ ∀ n, s.machine.Moved d A n →
    Table.change n.past s.machine.fetched =
      (Table.change s.machine.past s.machine.fetched).move d

namespace Moved
variable {d : Word} {A : Set Word} {s t : Simulator}

theorem isRunning (h : s.Moved d A t) : t.isRunning = s.isRunning := by
  rw [Simulator.isRunning, h.status, Simulator.isRunning]

theorem cycle_of_not_isRunning (h : s.Moved d A t) (hr : s.isRunning = false) :
    t.cycle.1 = s.cycle.1.map (Option.map (Cycle.move d)) ∧ s.cycle.2.Moved d A t.cycle.2 := by
  have hr' := h.isRunning.trans hr
  constructor
  · -- What a machine that has stopped tells is settled by its status.
    obtain ⟨-, -, hstatus⟩ := h
    obtain ⟨m, count, status⟩ := s
    obtain ⟨n, count', status'⟩ := t
    obtain rfl : status' = status := hstatus
    cases status' with
    | idle | running => cases hr
    | halted | faulted => rfl
  · rw [Simulator.cycle_of_not_isRunning hr, Simulator.cycle_of_not_isRunning hr']
    exact h

theorem cycle (h : s.Moved d A t) (hs : s.Moves d A) :
    t.cycle.1 = s.cycle.1.map (Option.map (Cycle.move d)) ∧ s.cycle.2.Moved d A t.cycle.2 := by
  rcases s.cycle_eq_cases with ⟨hr, -⟩ | ⟨hr, fault, hi, hc⟩ | ⟨hr, i, hi, hc⟩
  · exact h.cycle_of_not_isRunning hr
  · obtain ⟨hpc, -⟩ := hs hr
    have hw := h.machine.fetched hpc
    have hi' : Instruction.decodeFor t.machine t.machine.fetched = .error fault := by
      rw [hw, Instruction.decodeFor_congr h.machine.supervisor, hi]
    rw [hc, cycle_of_decodeFor_error (h.isRunning.trans hr) hi']
    exact ⟨rfl, h.machine, h.count, rfl⟩
  · obtain ⟨hpc, hchange⟩ := hs hr
    have hw := h.machine.fetched hpc
    have hi' : Instruction.decodeFor t.machine t.machine.fetched = .ok i := by
      rw [hw, Instruction.decodeFor_congr h.machine.supervisor, hi]
    have hd := (Instruction.decodeFor_eq_ok_iff.1 hi).1
    have hmade : (Table.change s.machine.past s.machine.fetched).Made s.machine.past
        (i.effect s.machine.past) := by
      rw [Table.change_eq hd]
      exact i.made_effect _
    have hmade' : ((Table.change s.machine.past s.machine.fetched).move d).Made t.machine.past
        (i.effect t.machine.past) := by
      rw [← hchange t.machine h.machine, Table.change_eq hd]
      exact i.made_effect _
    have ht : t.cycle = (.ok (some ⟨t.machine.pc, t.machine.fetched, i⟩),
        ⟨i.effect t.machine.past, t.count + 1, .afterSignal i.signal⟩) :=
      cycle_of_decodeFor_ok (h.isRunning.trans hr) hi'
    rw [hc, ht, hw, h.machine.pc, h.count]
    exact ⟨rfl, h.machine.past.made hmade hmade', rfl, rfl⟩

/-- The machines stay as far apart through a run, and so do the results that they give. -/
theorem after (h : s.Moved d A t) {n : Nat} (hn : ∀ j < n, (s.after j).Moves d A) :
    (∀ j < n, (t.after j).cycle.1 = (s.after j).cycle.1.map (Option.map (Cycle.move d))) ∧
      ∀ j ≤ n, (s.after j).Moved d A (t.after j) := by
  have hafter : ∀ j ≤ n, (s.after j).Moved d A (t.after j) := by
    intro j hj
    induction j with
    | zero => exact h
    | succ j ih =>
      rw [after_succ, after_succ]
      exact ((ih (Nat.le_of_succ_le hj)).cycle (hn j hj)).2
  exact ⟨fun j hj => ((hafter j hj.le).cycle (hn j hj)).1, hafter⟩

end Moved
end Simulator
end Lc3
