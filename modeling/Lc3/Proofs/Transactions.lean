import Lc3.Proofs.Lockstep
import Lc3.Proofs.Outcomes

/-! # Cycles as transactions

A cycle settles whether the word can run before it moves past it. It could also move first, run the
word there, and take the move back at a word that cannot run: an `attempt` does it in this order, on
the word that was fetched before anything is changed. `cycle_executes_or_rolls_back` says that both
orders are one, for the result of a cycle and for runs of any length (`advance_eq_attempts`). -/

namespace Lc3
namespace Simulator
open Instruction (decode decodeFor execute)

/-- Moves past the next word and runs it there. A word that cannot run leaves the machine where it
was. -/
def attempt (s : Simulator) : Simulator :=
  match execute s.machine.past s.machine.fetched with
  | .ok (signal, m) => ⟨m, s.count + 1, .afterSignal signal⟩
  | .error fault => ⟨s.machine, s.count, .faulted fault⟩

/-- Up to `n` attempts, of which none is made once the machine has stopped. -/
def attempts : (n : Nat) → Simulator → Simulator
  | 0, s => s
  | n + 1, s => if s.isRunning then attempts n s.attempt else s

variable {s : Simulator} {signal : Signal} {m : Machine} {fault : Fault}

/-- Moving past a word does not matter to whether it can run. -/
theorem execute_past (m : Machine) (w : Word) :
    execute m.past w = (decodeFor m w).map fun i => (i.signal, i.effect m.past) := by
  have h : decodeFor m.past w = decodeFor m w := Instruction.decodeFor_congr rfl w
  rw [execute, h]
  cases decodeFor m w <;> rfl

theorem cycle_of_execute_ok (h : s.isRunning = true)
    (he : execute s.machine.past s.machine.fetched = .ok (signal, m)) :
    ∃ i, decode s.machine.fetched = some i ∧
      s.cycle = (.ok (some ⟨s.machine.pc, s.machine.fetched, i⟩),
        ⟨m, s.count + 1, .afterSignal signal⟩) := by
  rw [execute_past, Except.map_eq_ok_iff] at he
  obtain ⟨i, hi, hresult⟩ := he
  cases hresult
  exact ⟨i, (Instruction.decodeFor_eq_ok_iff.1 hi).1, cycle_of_decodeFor_ok h hi⟩

theorem cycle_of_execute_error (h : s.isRunning = true)
    (he : execute s.machine.past s.machine.fetched = .error fault) :
    s.cycle = (.error fault, ⟨s.machine, s.count, .faulted fault⟩) := by
  rw [execute_past, Except.map_eq_error_iff] at he
  exact cycle_of_decodeFor_error h he

theorem cycle_eq_attempt (h : s.isRunning = true) : s.cycle.2 = s.attempt := by
  unfold attempt
  cases he : execute s.machine.past s.machine.fetched with
  | error fault => rw [cycle_of_execute_error h he]
  | ok result =>
    obtain ⟨i, -, hc⟩ := cycle_of_execute_ok h he
    rw [hc]

theorem advance_eq_attempts (n : Nat) (s : Simulator) : s.advance n = s.attempts n := by
  induction n generalizing s with
  | zero => rfl
  | succ n ih =>
    rw [advance, attempts]
    cases h : s.isRunning with
    | false => rfl
    | true => rw [if_pos rfl, if_pos rfl, cycle_eq_attempt h, ih]

/-- A cycle does what running the next word past itself does, and if that fails it leaves the
machine as it was. So a run is a run of such attempts. -/
theorem cycle_executes_or_rolls_back (s : Simulator) (h : s.status = .idle ∨ s.status = .running) :
    (let a := s.machine.pc
     let w := s.machine.readMemory a
     match execute (s.machine.jump (a + 1)) w with
      | .ok (signal, m) => ∃ i, decode w = some i ∧
        s.cycle = (.ok (some ⟨a, w, i⟩),
          ⟨m, s.count + 1, match signal with | .halt => .halted | .proceed => .running⟩)
      | .error fault => s.cycle = (.error fault, ⟨s.machine, s.count, .faulted fault⟩)) ∧
    ∀ fuel, s.run fuel =
      if (s.attempts fuel).isRunning then none
      else some ((s.attempts fuel).verdict, s.attempts fuel) := by
  have hr := isRunning_iff.2 h
  refine ⟨?_, fun fuel => by rw [run, advance_eq_attempts]⟩
  intro a w
  cases he : execute (s.machine.jump (a + 1)) w with
  | error fault => exact cycle_of_execute_error hr he
  | ok result =>
    obtain ⟨signal, m⟩ := result
    obtain ⟨i, hi, hc⟩ := cycle_of_execute_ok hr he
    refine ⟨i, hi, hc.trans ?_⟩
    cases signal <;> rfl

/-- A word that clears its own cell, one that cannot run, and one that jumps to itself. -/
theorem cycle_at_ends_of_memory :
    let s := ofMachine ((Machine.initial.writeMemory 0xFFFF 0x31FF).jump 0xFFFF)
    let t := ofMachine ((Machine.initial.writeMemory 0xFFFF 0xD000).jump 0xFFFF)
    let u := ofMachine (Machine.initial.writeMemory 0 0x4FFF)
    (s.status = .idle ∧ s.cycle.1 = .ok (some ⟨0xFFFF, 0x31FF, .st 0 0xFFFF⟩) ∧
      s.cycle.2.machine.readMemory 0xFFFF = 0 ∧ s.cycle.2.machine.pc = 0) ∧
    (t.status = .idle ∧ t.cycle = (.error (.undecodable .reserved 0xD000),
      ⟨t.machine, 0, .faulted (.undecodable .reserved 0xD000)⟩)) ∧
    (u.status = .idle ∧ u.cycle.1 = .ok (some ⟨0, 0x4FFF, .jsr 0xFFFF⟩) ∧
      u.cycle.2.machine.pc = 0 ∧ u.cycle.2.status = .running) := by
  intro s t u
  have hs : s.status = .idle := rfl
  have ht : t.status = .idle := rfl
  have hu : u.status = .idle := rfl
  have s_pc : s.machine.pc = 0xFFFF := rfl
  have t_pc : t.machine.pc = 0xFFFF := rfl
  have u_pc : u.machine.pc = 0 := rfl
  have s_word : s.machine.readMemory 0xFFFF = 0x31FF := by simp [s, ofMachine]
  have t_word : t.machine.readMemory 0xFFFF = 0xD000 := by simp [t, ofMachine]
  have u_word : u.machine.readMemory 0 = 0x4FFF := by simp [u, ofMachine]
  have s_zero : s.machine.readRegister 0 = 0 := rfl
  have t_completed : t.count = 0 := rfl
  -- No more of the machines counts, and their memories are not to be computed.
  clear_value s t u
  have store (m : Machine) : execute m 0x31FF =
    .ok (.proceed, m.writeMemory (m.relative 0xFFFF) (m.readRegister 0)) := rfl
  have fault (m : Machine) : execute m 0xD000 = .error (.undecodable .reserved 0xD000) := rfl
  have loop (m : Machine) : execute m 0x4FFF = .ok (.proceed, m.jumpRelative 0xFFFF) := rfl
  have scycle := (cycle_executes_or_rolls_back s (.inl hs)).1
  have tcycle := (cycle_executes_or_rolls_back t (.inl ht)).1
  have ucycle := (cycle_executes_or_rolls_back u (.inl hu)).1
  simp only [s_pc, s_word, store] at scycle
  simp only [t_pc, t_word, fault, t_completed] at tcycle
  simp only [u_pc, u_word, loop] at ucycle
  refine ⟨⟨hs, ?_⟩, ⟨ht, tcycle⟩, ⟨hu, ?_⟩⟩
  · obtain ⟨i, hi, hc⟩ := scycle
    have hstore : decode 0x31FF = some (.st 0 0xFFFF) := by decide
    obtain rfl := Option.some.inj (hi.symm.trans hstore)
    rw [hc]
    simp [Machine.relative, s_zero]
  · obtain ⟨i, hi, hc⟩ := ucycle
    have hloop : decode 0x4FFF = some (.jsr 0xFFFF) := by decide
    obtain rfl := Option.some.inj (hi.symm.trans hloop)
    rw [hc]
    simp [Machine.jumpRelative, Machine.relative]

end Simulator
end Lc3
