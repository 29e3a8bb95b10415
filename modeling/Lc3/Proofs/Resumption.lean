import Lc3.Proofs.Lifecycle
import Lc3.Proofs.Stopped

/-! # Runs taken up again

A run can be taken up anywhere. Whatever drives a simulator takes it some cycles further
(`Operation.exists_eq_after_of_drives`), and a run from there ends where it would have ended from
the start. What a cycle does to a machine that runs depends on the machine alone, so that a fresh
simulator around the same machine goes through the same cycles; `Continues` says how the two then
differ, which is in the count, by what had been counted before, and at first in the status. Around
a machine that has stopped a fresh simulator finds the word that stopped it, if that was a fault,
and the word after it, if that was a halting trap. -/

namespace Lc3
namespace Simulator

variable {s t u : Simulator}

/-! ### Steps before a run -/

theorem run_after_of_run {fuel : Nat} {r : Except Fault Unit × Simulator} (h : s.run fuel = some r)
    (n : Nat) : (s.after n).run fuel = some r := by
  obtain ⟨k, hle, hk, rfl⟩ := run_eq_some_iff.1 h
  have hsame : (s.after n).after fuel = s.after k := by
    rw [← after_add, after_of_le hk.2 (Nat.le_add_left_of_le hle)]
  rw [run_eq, hsame, if_neg (by simp [hk.2])]

theorem run_of_run_after {fuel n : Nat} {r : Except Fault Unit × Simulator}
    (h : (s.after n).run fuel = some r) : s.run (n + fuel) = some r := by
  rw [run_eq, after_add, ← run_eq]
  exact h

theorem stepMany_eq_after (n : Nat) (s : Simulator) : (s.stepMany n).2 = s.after n := by
  rw [stepMany, ← advance_eq_after]
  split
  · rfl
  · next h => exact (advance_of_not_isRunning n (Bool.eq_false_of_not_eq_true h)).symm

theorem isRunning_after_of_run_eq_none (h : ∀ fuel, s.run fuel = none) (n : Nat) :
    (s.after n).isRunning = true :=
  run_eq_none_iff.1 (h n)

end Simulator

namespace Operation
open Simulator

variable {s t : Simulator} {op : Operation} {fuel : Nat} {reply : Reply}

theorem exists_perform_of_step_or_cycle (h : op = .step ∨ op = .cycle) (fuel : Nat)
    (s : Simulator) : ∃ reply, perform fuel s op = some (reply, s.cycle.2) := by
  rcases h with rfl | rfl <;> exact ⟨_, rfl⟩

theorem exists_performAll_of_steps {ops : List Operation}
    (hops : ∀ op ∈ ops, op = .step ∨ op = .cycle) (fuel : Nat) (s : Simulator) :
    ∃ replies, performAll fuel s ops = some (replies, s.after ops.length) := by
  induction ops generalizing s with
  | nil => exact ⟨[], rfl⟩
  | cons op ops ih =>
    obtain ⟨hop, hops⟩ := List.forall_mem_cons.1 hops
    obtain ⟨reply, hreply⟩ := exists_perform_of_step_or_cycle hop fuel s
    obtain ⟨replies, hreplies⟩ := ih hops s.cycle.2
    refine ⟨reply :: replies, ?_⟩
    rw [List.length_cons, after_succ']
    exact performAll_cons hreply hreplies

theorem exists_eq_after_of_drives (hop : op.drives = true)
    (h : perform fuel s op = some (reply, t)) : ∃ n, t = s.after n := by
  cases op with
  | step | cycle =>
    cases h
    exact ⟨1, rfl⟩
  | stepMany n =>
    cases h
    exact ⟨n, stepMany_eq_after n s⟩
  | run =>
    refine ⟨fuel, ?_⟩
    rw [perform] at h
    cases hrun : s.run fuel with
    | none =>
      rw [hrun] at h
      cases h
    | some r =>
      rw [hrun] at h
      cases h
      exact (eq_advance_of_run hrun).trans (advance_eq_after fuel s)
  | _ => cases hop

end Operation

namespace Simulator
open Operation

variable {s t u : Simulator}

/-- Steps and cycles made before a run do not change its answer nor where it ends, also if they have
met the halt or the fault already. -/
theorem run_after_steps (s : Simulator) {ops : List Operation}
    (hops : ∀ op ∈ ops, op = .step ∨ op = .cycle) (fuel : Nat) :
    ∃ replies t, performAll fuel s ops = some (replies, t) ∧
      (∀ r, (∃ n, t.run n = some r) ↔ ∃ n, s.run n = some r) ∧
      ((∀ n, s.run n = none) → t.isRunning = true) := by
  obtain ⟨replies, hreplies⟩ := exists_performAll_of_steps hops fuel s
  refine ⟨replies, _, hreplies, fun r => ⟨?_, ?_⟩, fun h => isRunning_after_of_run_eq_none h _⟩
  · rintro ⟨n, h⟩
    exact ⟨_, run_of_run_after h⟩
  · rintro ⟨n, h⟩
    exact ⟨n, run_after_of_run h _⟩

/-- Three steps, of which the second meets the fault, and then a run. -/
theorem run_after_steps_to_fault :
    let s := ofMachine addThenReturn
    let ops : List Operation := [.step, .cycle, .step]
    (∀ op ∈ ops, op = .step ∨ op = .cycle) ∧ ∃ replies t n,
      performAll 0 s ops = some (replies, t) ∧
        t.run n = some (.error (.unprivileged .rti 0x8000), s.advance 2) := by
  intro s ops
  have hops : ∀ op ∈ ops, op = .step ∨ op = .cycle := by decide
  have hrun : s.run 2 = some (.error (.unprivileged .rti 0x8000), s.advance 2) := rfl
  obtain ⟨replies, t, hreplies, hsame, -⟩ := run_after_steps s hops 0
  obtain ⟨n, hn⟩ := (hsame _).2 ⟨2, hrun⟩
  exact ⟨hops, replies, t, n, hreplies, hn⟩

/-! ### A fresh simulator around the same machine -/

/-- What a cycle of a running machine does depends on the machine alone. -/
theorem cycle_congr (hs : s.isRunning = true) (hu : u.isRunning = true)
    (h : u.machine = s.machine) : ∃ r m k status,
      s.cycle = (r, ⟨m, s.count + k, status⟩) ∧
      u.cycle = (r, ⟨m, u.count + k, status⟩) := by
  cases hi : Instruction.decodeFor s.machine (s.machine.readMemory s.machine.pc) with
  | error fault =>
    refine ⟨.error fault, s.machine, 0, .faulted fault, ?_, ?_⟩
    · rw [UInt64.add_zero]
      exact cycle_of_decodeFor_error hs hi
    · rw [UInt64.add_zero]
      exact h ▸ cycle_of_decodeFor_error hu (h ▸ hi)
  | ok i => exact ⟨_, _, 1, _, cycle_of_decodeFor_ok hs hi, h ▸ cycle_of_decodeFor_ok hu (h ▸ hi)⟩

/-- `u` is where `s` is, but counts from when `s` had completed `before` instructions. -/
structure Continues (before : UInt64) (s u : Simulator) : Prop where
  machine : u.machine = s.machine
  count : s.count = before + u.count
  /-- A fresh simulator is idle while the one it continues may be running. -/
  status : u.status = s.status ∨ u.isRunning = true ∧ s.isRunning = true

namespace Continues
variable {before : UInt64}

theorem renew (h : s.isRunning = true) : Continues s.count s s.renew :=
  ⟨rfl, (UInt64.add_zero s.count).symm, .inr ⟨rfl, h⟩⟩

theorem isRunning_eq (h : Continues before s u) : u.isRunning = s.isRunning := by
  rcases h.status with hstatus | ⟨hu, hs⟩
  · rw [isRunning, hstatus, isRunning]
  · rw [hu, hs]

theorem status_eq (h : Continues before s u) (hs : s.isRunning = false) : u.status = s.status := by
  rcases h.status with hstatus | ⟨-, hr⟩
  · exact hstatus
  · rw [hs] at hr
    cases hr

theorem cycle (h : Continues before s u) : Continues before s.cycle.2 u.cycle.2 := by
  cases hs : s.isRunning with
  | false =>
    rw [cycle_of_not_isRunning hs, cycle_of_not_isRunning (h.isRunning_eq.trans hs)]
    exact h
  | true =>
    obtain ⟨r, m, k, status, hcs, hcu⟩ := cycle_congr hs (h.isRunning_eq.trans hs) h.machine
    rw [hcs, hcu]
    exact ⟨rfl, by rw [h.count, UInt64.add_assoc], .inl rfl⟩

theorem after (h : Continues before s u) (n : Nat) : Continues before (s.after n) (u.after n) := by
  induction n with
  | zero => exact h
  | succ n ih =>
    rw [after_succ, after_succ]
    exact ih.cycle

theorem run (h : Continues before s u) {fuel : Nat} {result : Except Fault Unit}
    (hrun : s.run fuel = some (result, t)) : ∃ v, u.run fuel = some (result, v) ∧
      v.machine = t.machine ∧ v.status = t.status ∧ t.count = before + v.count := by
  obtain ⟨k, hle, hk, hr⟩ := run_eq_some_iff.1 hrun
  obtain ⟨rfl, rfl⟩ := Prod.mk.inj hr
  have hcont := h.after fuel
  rw [after_of_le hk.2 hle] at hcont
  have hstatus := hcont.status_eq hk.2
  refine ⟨u.after fuel, ?_, hcont.machine, hstatus, hcont.count⟩
  rw [run_eq, if_neg (by simp [hcont.isRunning_eq, hk.2]), verdict, hstatus, verdict]

end Continues

/-! ### What stopped the machine -/

/-- `t` is what an operation that drives has made of `s`, which was running. -/
def DrivesTo (s t : Simulator) : Prop :=
  s.isRunning = true ∧
    ∃ op fuel reply, op.drives = true ∧ perform fuel s op = some (reply, t)

theorem DrivesTo.exists_stop (h : s.DrivesTo t) (ht : t.isRunning = false) :
    ∃ k, (s.after k).isRunning = true ∧ t = s.after (k + 1) := by
  obtain ⟨hs, op, fuel, reply, hop, hperform⟩ := h
  obtain ⟨n, rfl⟩ := exists_eq_after_of_drives hop hperform
  obtain ⟨m, hle, hm⟩ := exists_stopsAfter ht
  obtain ⟨k, rfl, hk⟩ := hm.exists_succ hs
  exact ⟨k, hk, after_of_le hm.2 hle⟩

theorem DrivesTo.refuses (h : s.DrivesTo t) {fault : Fault} (ht : t.status = .faulted fault) :
    t.machine.Refuses fault := by
  obtain ⟨k, hk, rfl⟩ := h.exists_stop (by rw [isRunning, ht]; rfl)
  rcases after_succ_cases hk with ⟨fault', hf, he⟩ | ⟨-, n, he⟩ | ⟨-, -, n, he⟩ <;>
    rw [he] at ht ⊢ <;> cases ht
  exact hf

theorem DrivesTo.exists_atHalt (h : s.DrivesTo t) (ht : t.status = .halted) :
    ∃ k, (s.after k).isRunning = true ∧ (s.after k).machine.AtHalt ∧ t = s.after (k + 1) := by
  obtain ⟨k, hk, rfl⟩ := h.exists_stop (by rw [isRunning, ht]; rfl)
  refine ⟨k, hk, ?_, rfl⟩
  rcases after_succ_cases hk with ⟨fault', -, he⟩ | ⟨hh, n, he⟩ | ⟨-, -, n, he⟩
  · rw [he] at ht
    cases ht
  · exact hh
  · rw [he] at ht
    cases ht

/-- A halting trap changes nothing but the program counter. -/
theorem cycle_of_atHalt (hs : s.isRunning = true) (h : s.machine.AtHalt) :
    s.cycle.2 = ⟨s.machine.jump (s.machine.pc + 1), s.count + 1, .halted⟩ := by
  obtain ⟨i, hi⟩ := Table.exists_decodeFor h.fault?
  have hdecode := (Instruction.decodeFor_eq_ok_iff.1 hi).1
  have hsignal : i.signal = .halt :=
    (Table.signal_eq hdecode).symm.trans (Machine.atHalt_iff.1 h)
  have hop : i.opcode = .trap :=
    (Instruction.opcode_of_decode hdecode).trans ((Table.opcode_eq_iff .trap).1 h.1)
  rw [cycle_of_decodeFor_ok hs hi, hsignal]
  cases i <;> cases hop
  rfl

/-- A run goes on in the same way on a fresh simulator around its machine. Taken over right after a
fault the machine faults again, and after a halt it goes on with the next word. -/
theorem renew_continues (s : Simulator) :
    (s.status = .idle ∨ s.status = .running → ∀ fuel result t, s.run fuel = some (result, t) →
      ∃ u, s.renew.run fuel = some (result, u) ∧ u.machine = t.machine ∧ u.status = t.status ∧
        t.completed = (s.completed + u.completed) % 2 ^ 64) ∧
    (∀ before : Simulator, before.DrivesTo s → ∀ fault, s.status = .faulted fault →
      s.renew.step = (.error fault, ⟨s.machine, 0, .faulted fault⟩)) ∧
    (∀ before : Simulator, before.DrivesTo s → s.status = .halted → ∃ k,
      (before.after k).isRunning = true ∧ (before.after k).machine.AtHalt ∧
      s = before.after (k + 1) ∧
      s.renew.machine.pc = (before.after k).machine.pc + 1 ∧
      s.renew.fetch? = some
        ((before.after k).machine.readMemory ((before.after k).machine.pc + 1))) := by
  refine ⟨fun hstatus fuel result t hrun => ?_, fun before h fault hs => ?_,
    fun before h hs => ?_⟩
  · obtain ⟨u, hu, hmachine, hstatus, hcount⟩ :=
      (Continues.renew (isRunning_iff.2 hstatus)).run hrun
    exact ⟨u, hu, hmachine, hstatus, by rw [completed, hcount, UInt64.toNat_add]; rfl⟩
  · have hcycle := cycle_of_refuses (s := s.renew) rfl (h.refuses hs)
    rw [step, hcycle]
    rfl
  · obtain ⟨k, hk, hh, rfl⟩ := h.exists_atHalt hs
    have hmachine : (before.after (k + 1)).machine =
        (before.after k).machine.jump ((before.after k).machine.pc + 1) := by
      rw [after_succ, cycle_of_atHalt hk hh]
    refine ⟨k, hk, hh, rfl, ?_, ?_⟩
    · rw [renew, ofMachine, hmachine]
      rfl
    · show some (before.after (k + 1)).machine.fetched = _
      rw [hmachine]
      rfl

/-- Taken over before a halt, after it, and after a fault. -/
theorem renew_addThenHalt :
    let s := (ofMachine addThenHalt).step.2
    let t := s.step.2
    let f := (ofMachine addThenReturn).advance 2
    (s.status = .running ∧ ∃ u, s.renew.run 1 = some (.ok (), u) ∧ u.machine = t.machine ∧
      t.completed = (1 + u.completed) % 2 ^ 64) ∧
    (s.DrivesTo t ∧ t.status = .halted ∧ t.renew.machine.pc = 2 ∧ t.renew.fetch? = some 0) ∧
    (ofMachine addThenReturn).DrivesTo f ∧ f.status = .faulted (.unprivileged .rti 0x8000) ∧
      f.renew.step = (.error (.unprivileged .rti 0x8000),
        ⟨f.machine, 0, .faulted (.unprivileged .rti 0x8000)⟩) := by
  intro s t f
  have hs : s.status = .running := rfl
  have ht : t.status = .halted := rfl
  have hf : f.status = .faulted (.unprivileged .rti 0x8000) := rfl
  have hdrives : s.DrivesTo t := ⟨rfl, .step, 0, _, rfl, rfl⟩
  have hdrives' : (ofMachine addThenReturn).DrivesTo f := ⟨rfl, .run, 2, _, rfl, rfl⟩
  obtain ⟨u, hu, hmachine, -, hcount⟩ := (renew_continues s).1 (.inr hs) 1 (.ok ()) t rfl
  obtain ⟨k, hk, -, -, hpc, hfetch⟩ := (renew_continues t).2.2 s hdrives ht
  obtain rfl : k = 0 := by
    by_contra hne
    have hr := isRunning_of_le hk (Nat.one_le_iff_ne_zero.2 hne)
    exact absurd hr (by decide)
  exact ⟨⟨hs, u, hu, hmachine, hcount⟩, ⟨hdrives, ht, hpc, hfetch⟩, hdrives', hf,
    (renew_continues f).2.1 _ hdrives' _ hf⟩

end Simulator
end Lc3
