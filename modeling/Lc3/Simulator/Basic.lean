import Lc3.Instruction.Execute

/-! # Fetch and execute

A simulator is a machine with a count of the instructions it has completed and the stage it is in. A
cycle checks the word at the program counter before it changes anything, then moves the program
counter past the word and runs it. Once the machine has halted or faulted, cycles change nothing.

The count has 64 bits, and starts over once it has reached them all. -/

namespace Lc3

inductive Status where
  /-- No instruction has been run yet. -/
  | idle
  | running
  /-- The halting trap has been run. -/
  | halted
  /-- The next word could not be run. -/
  | faulted (fault : Fault)
deriving Repr, DecidableEq

def Status.isRunning : Status → Bool
  | idle | running => true
  | halted | faulted _ => false

def Status.afterSignal : Signal → Status
  | .proceed => running
  | .halt => halted

/-- A completed instruction, with the address and the word it was fetched from. -/
structure Cycle where
  address : Word
  word : Word
  instruction : Instruction
deriving Repr, DecidableEq

structure Simulator where
  machine : Machine
  count : UInt64
  status : Status

namespace Simulator

/-- The number of instructions completed, as far as 64 bits hold it. -/
def completed (s : Simulator) : Nat :=
  s.count.toNat

def ofMachine (machine : Machine) : Simulator where
  machine := machine
  count := 0
  status := .idle

def initial : Simulator :=
  ofMachine .initial

def isRunning (s : Simulator) : Bool :=
  s.status.isRunning

/-- Runs the next instruction and tells what was run, which is nothing once the machine has halted.
A fault is told again and again. -/
def cycle (s : Simulator) : Except Fault (Option Cycle) × Simulator :=
  match s with
  | ⟨machine, count, .halted⟩ => (.ok none, ⟨machine, count, .halted⟩)
  | ⟨machine, count, .faulted fault⟩ => (.error fault, ⟨machine, count, .faulted fault⟩)
  | ⟨machine, count, _⟩ =>
    let address := machine.pc
    let word := machine.readMemory address
    match Instruction.decodeFor machine word with
    | .error fault => (.error fault, ⟨machine, count, .faulted fault⟩)
    | .ok instruction =>
      (.ok (some ⟨address, word, instruction⟩),
        ⟨instruction.effect (machine.jumpRelative 1), count + 1,
          .afterSignal instruction.signal⟩)

/-- A cycle of which only the success is told. -/
def step (s : Simulator) : Except Fault Unit × Simulator :=
  match s.cycle with
  | (result, s) => (result.map fun _ => (), s)

/-- Changes the machine alone. -/
def mapMachine (s : Simulator) (f : Machine → Machine) : Simulator :=
  match s with
  | ⟨machine, count, status⟩ => ⟨f machine, count, status⟩

/-- A fresh simulator around the same machine. -/
def renew (s : Simulator) : Simulator :=
  ofMachine s.machine

section
variable (s : Simulator) (f : Machine → Machine)

@[simp] theorem machine_mapMachine : (s.mapMachine f).machine = f s.machine := rfl

@[simp] theorem count_mapMachine : (s.mapMachine f).count = s.count := rfl

@[simp] theorem status_mapMachine : (s.mapMachine f).status = s.status := rfl

end

section
variable {s : Simulator} {i : Instruction} {fault : Fault}

theorem isRunning_iff : s.isRunning = true ↔ s.status = .idle ∨ s.status = .running := by
  rw [isRunning]
  cases s.status <;> simp [Status.isRunning]

theorem cycle_of_not_isRunning (h : s.isRunning = false) : s.cycle.2 = s := by
  obtain ⟨machine, count, status⟩ := s
  cases status with
  | idle | running => cases h
  | halted | faulted _ => rfl

theorem cycle_of_decodeFor_ok (h : s.isRunning = true)
    (hi : Instruction.decodeFor s.machine (s.machine.readMemory s.machine.pc) = .ok i) :
    s.cycle =
      (.ok (some ⟨s.machine.pc, s.machine.readMemory s.machine.pc, i⟩),
        ⟨i.effect (s.machine.jumpRelative 1), s.count + 1, .afterSignal i.signal⟩) := by
  obtain ⟨machine, count, status⟩ := s
  cases status with
  | idle | running => simp only at hi; simp [cycle, hi]
  | halted | faulted _ => cases h

theorem cycle_of_decodeFor_error (h : s.isRunning = true)
    (hf : Instruction.decodeFor s.machine (s.machine.readMemory s.machine.pc) = .error fault) :
    s.cycle = (.error fault, ⟨s.machine, s.count, .faulted fault⟩) := by
  obtain ⟨machine, count, status⟩ := s
  cases status with
  | idle | running => simp only at hf; simp [cycle, hf]
  | halted | faulted _ => cases h

end

end Simulator
end Lc3
