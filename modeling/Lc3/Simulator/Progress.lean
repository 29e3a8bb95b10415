import Lc3.Failure
import Lc3.Simulator.Run

/-! # Progress

How far a program gets, with or without a limit on its instructions and with or without a record of
them. When neither is asked for it simply runs; otherwise it goes a cycle at a time, and the limit
is looked at before each cycle. -/

namespace Lc3

structure Progress where
  /-- The completed instructions in order, if they are recorded. -/
  cycles : List Cycle
  failure : Option Failure
  simulator : Simulator

namespace Simulator

/-- Up to `n` cycles, with the completed ones put in front of `done` if they are recorded. -/
def record (trace : Bool) : (n : Nat) → List Cycle → Simulator → List Cycle × Simulator
  | 0, done, s => (done, s)
  | n + 1, done, s =>
    if s.isRunning then
      match s.cycle with
      | (.ok (some c), s) => record trace n (if trace then c :: done else done) s
      | (_, s) => (done, s)
    else (done, s)

/-- What a stopped machine has failed with. -/
def failure (s : Simulator) : Option Failure :=
  match s.status with
  | .faulted fault => some (.faulted fault s.machine.pc)
  | _ => none

/-- Runs a program until it stops or has completed `limit` instructions. There is no answer if there
is no limit and the program takes more than `fuel` cycles. A program that has stopped before fails
again only where it simply runs. -/
def runWithin (fuel : Nat) (trace : Bool) (limit : Option Nat) (s : Simulator) : Option Progress :=
  match trace, limit with
  | false, none =>
    (s.run fuel).map fun
      | (.error fault, s) => ⟨[], some (.faulted fault s.machine.pc), s⟩
      | (.ok _, s) => ⟨[], none, s⟩
  | _, _ =>
    if s.isRunning then
      match s.record trace (limit.getD fuel) [] with
      | (done, s) =>
        if s.isRunning then limit.map fun l => ⟨done.reverse, some (.limitReached l), s⟩
        else some ⟨done.reverse, s.failure, s⟩
    else some ⟨[], none, s⟩

end Simulator
end Lc3
