import Lc3.Simulator.Basic

/-! # Running

A run repeats cycles until the machine halts or faults, which it need not ever do. So a run is given
fuel, the number of cycles it may take, and has no answer if the machine still runs after them. -/

namespace Lc3
namespace Simulator

/-- Up to `n` cycles, of which none is made once the machine has stopped. -/
def advance : (n : Nat) → Simulator → Simulator
  | 0, s => s
  | n + 1, s => if s.isRunning then advance n s.cycle.2 else s

/-- How a machine that no longer runs has stopped. -/
def verdict (s : Simulator) : Except Fault Unit :=
  match s.status with
  | .faulted fault => .error fault
  | _ => .ok ()

/-- Cycles until the machine stops. There is no answer if that takes more than `fuel` cycles. -/
def run (fuel : Nat) (s : Simulator) : Option (Except Fault Unit × Simulator) :=
  let s := s.advance fuel
  if s.isRunning then none else some (s.verdict, s)

/-- Up to `n` steps, ending once the machine has stopped. A fault is told by the step that meets it,
so not if the machine has stopped before the first. -/
def stepMany (n : Nat) (s : Simulator) : Except Fault Unit × Simulator :=
  if s.isRunning then
    let s := s.advance n
    (s.verdict, s)
  else
    (.ok (), s)

@[simp]
theorem advance_zero (s : Simulator) : advance 0 s = s := rfl

theorem advance_of_not_isRunning (n : Nat) {s : Simulator} (h : s.isRunning = false) :
    s.advance n = s := by
  cases n <;> simp [advance, h]

end Simulator
end Lc3
