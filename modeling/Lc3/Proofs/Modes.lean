import Lc3.Proofs.Runs

/-! # Supervisor mode

Two machines that differ in their mode only go on as one until the word with the privileged opcode
comes up. The mode commutes with every effect (`effect_setSupervisor`), hence with every cycle of
another word (`cycle_withMode`) and, by induction on their number, with all cycles before that word
(`after_withMode`). `mode_shows_at_rti_only` says so of two simulators and adds what each of them
does at that word. -/

namespace Lc3

namespace Instruction

theorem effect_setSupervisor (m : Machine) (supervisor : Bool) (i : Instruction) :
    i.effect (m.setSupervisor supervisor) = (i.effect m).setSupervisor supervisor := by
  cases i with
  | br nzp offset =>
    rw [effect, effect, Machine.condition_setSupervisor]
    split <;> rfl
  | add _ _ operand | and _ _ operand => cases operand <;> rfl
  | _ => rfl

theorem decodeFor_of_opcode_ne {w : Word} (h : Table.opcode w ≠ 0x8) (m n : Machine) :
    decodeFor m w = decodeFor n w := by
  cases hd : decode w with
  | none => rw [decodeFor, decodeFor, hd]
  | some i =>
    have hp : i.isPrivileged = false := by
      by_contra hp
      have ho := (Table.isPrivileged_iff i).1 (Bool.eq_true_of_not_eq_false hp)
      exact h ((Table.opcode_eq_iff .rti).2 ((opcode_of_decode hd).symm.trans ho))
    simp only [decodeFor, hd, hp, Bool.false_and, Bool.false_eq_true, if_false]

theorem decode_of_opcode_eq {w : Word} (h : Table.opcode w = 0x8) : decode w = some rti := by
  have hr := (Table.opcode_eq_iff .rti).1 h
  obtain ⟨i, hi⟩ := Table.exists_decode (w := w) (by omega)
  have ho := (opcode_of_decode hi).trans hr
  cases i <;> cases ho
  exact hi

end Instruction

namespace Simulator

def withMode (s : Simulator) (supervisor : Bool) : Simulator :=
  s.mapMachine (·.setSupervisor supervisor)

/-- The two are alike in all but the mode of their machines. -/
structure SameButMode (s t : Simulator) : Prop where
  registers : ∀ r, s.machine.readRegister r = t.machine.readRegister r
  memory : ∀ a, s.machine.readMemory a = t.machine.readMemory a
  pc : s.machine.pc = t.machine.pc
  condition : s.machine.condition = t.machine.condition
  count : s.count = t.count
  status : s.status = t.status

section
variable {s t : Simulator} {n : Nat}

theorem SameButMode.eq (h : s.SameButMode t) : t = s.withMode t.machine.supervisor := by
  obtain ⟨m, count, status⟩ := s
  obtain ⟨m', count', status'⟩ := t
  obtain ⟨hr, hm, hpc, hc, hcount, hstatus⟩ := h
  have hmachine : m' = m.setSupervisor m'.supervisor :=
    Machine.ext_read (fun a => (hm a).symm) (fun r => (hr r).symm) hpc.symm hc.symm rfl
  cases hcount
  cases hstatus
  rw [withMode, mapMachine, ← hmachine]

theorem sameButMode_withMode (s : Simulator) (supervisor : Bool) :
    s.SameButMode (s.withMode supervisor) :=
  ⟨fun _ => rfl, fun _ => rfl, rfl, rfl, rfl, rfl⟩

/-! ### Cycles -/

theorem cycle_withMode (supervisor : Bool)
    (h : s.isRunning = true → Table.opcode s.machine.fetched ≠ 0x8) :
    (s.withMode supervisor).cycle = (s.cycle.1, s.cycle.2.withMode supervisor) := by
  cases hr : s.isRunning with
  | false =>
    obtain ⟨m, count, status⟩ := s
    cases status with
    | idle | running => cases hr
    | halted | faulted => rfl
  | true =>
    -- Both simulators decode the same word, and do so alike.
    have hsame : Instruction.decodeFor (s.withMode supervisor).machine s.machine.fetched =
        Instruction.decodeFor s.machine s.machine.fetched :=
      Instruction.decodeFor_of_opcode_ne (h hr) ..
    cases hi : Instruction.decodeFor s.machine s.machine.fetched with
    | error fault =>
      rw [cycle_of_decodeFor_error hr hi,
        cycle_of_decodeFor_error (s := s.withMode supervisor) hr (hsame.trans hi)]
      rfl
    | ok i =>
      have heffect := Instruction.effect_setSupervisor (s.machine.jumpRelative 1) supervisor i
      rw [cycle_of_decodeFor_ok hr hi,
        cycle_of_decodeFor_ok (s := s.withMode supervisor) hr (hsame.trans hi)]
      exact congrArg (fun n => (_, (⟨n, _, _⟩ : Simulator))) heffect

theorem supervisor_cycle (s : Simulator) :
    s.cycle.2.machine.supervisor = s.machine.supervisor := by
  rcases s.cycle_eq_cases with ⟨-, hc⟩ | ⟨-, fault, -, hc⟩ | ⟨-, i, -, hc⟩ <;> rw [hc]
  exact Instruction.supervisor_effect i _

theorem supervisor_after (s : Simulator) (n : Nat) :
    (s.after n).machine.supervisor = s.machine.supervisor := by
  induction n with
  | zero => rfl
  | succ n ih => rw [after_succ, supervisor_cycle, ih]

/-- None of the words that the first `n` cycles fetch has the privileged opcode. -/
def AvoidsRti (s : Simulator) (n : Nat) : Prop :=
  ∀ j < n, (s.after j).isRunning = true → Table.opcode (s.after j).machine.fetched ≠ 0x8

theorem AvoidsRti.mono {k : Nat} (h : s.AvoidsRti n) (hle : k ≤ n) : s.AvoidsRti k :=
  fun j hj => h j (Nat.lt_of_lt_of_le hj hle)

theorem after_withMode (supervisor : Bool) (h : s.AvoidsRti n) :
    (s.withMode supervisor).after n = (s.after n).withMode supervisor := by
  induction n with
  | zero => rfl
  | succ n ih =>
    rw [after_succ, after_succ, ih (h.mono n.le_succ),
      cycle_withMode supervisor (h n n.lt_succ_self)]

theorem cycle_of_supervisor (hr : s.isRunning = true) (hs : s.machine.supervisor = true)
    (ho : Table.opcode s.machine.fetched = 0x8) :
    s.cycle = (.ok (some ⟨s.machine.pc, s.machine.fetched, .rti⟩),
      ⟨s.machine.jump (s.machine.pc + 1), s.count + 1, .running⟩) :=
  cycle_of_decodeFor_ok hr
    (Instruction.decodeFor_eq_ok_iff.2 ⟨Instruction.decode_of_opcode_eq ho, fun _ => hs⟩)

theorem cycle_of_user (hr : s.isRunning = true) (hs : s.machine.supervisor = false)
    (ho : Table.opcode s.machine.fetched = 0x8) :
    s.cycle = (.error (.unprivileged .rti s.machine.fetched),
      ⟨s.machine, s.count, .faulted (.unprivileged .rti s.machine.fetched)⟩) :=
  cycle_of_refuses hr (.inr ⟨ho, hs, rfl⟩)

end

/-- A simulator in supervisor mode and one that is like it but for the mode go on alike up to the
first word with the privileged opcode. There the other fails and the first goes on. -/
theorem mode_shows_at_rti_only (s t : Simulator) (h : s.SameButMode t)
    (hs : s.machine.supervisor = true) (ht : t.machine.supervisor = false) (n : Nat)
    (hn : s.AvoidsRti n) :
    (∀ j < n, (s.after j).cycle.1 = (t.after j).cycle.1) ∧
    (∀ j ≤ n, (s.after j).SameButMode (t.after j)) ∧
    ((s.after n).isRunning = true → Table.opcode (s.after n).machine.fetched = 0x8 →
      (t.after n).cycle =
          (.error (.unprivileged .rti (s.after n).machine.fetched),
            ⟨(t.after n).machine, (t.after n).count,
              .faulted (.unprivileged .rti (s.after n).machine.fetched)⟩) ∧
        (s.after n).cycle =
          (.ok (some ⟨(s.after n).machine.pc, (s.after n).machine.fetched, .rti⟩),
            ⟨(s.after n).machine.jump ((s.after n).machine.pc + 1), (s.after n).count + 1,
              .running⟩)) ∧
    ∀ k, (s.after k).machine.supervisor = true ∧ (t.after k).machine.supervisor = false := by
  have hmode : ∀ k, (s.after k).machine.supervisor = true ∧
      (t.after k).machine.supervisor = false := by
    intro k
    rw [supervisor_after, supervisor_after]
    exact ⟨hs, ht⟩
  -- Until then the second simulator is the first with its mode changed, so all is read off that.
  have hafter : ∀ j ≤ n, t.after j = (s.after j).withMode false := by
    intro j hj
    rw [h.eq, ht]
    exact after_withMode false (hn.mono hj)
  refine ⟨?_, ?_, ?_, hmode⟩
  · intro j hj
    rw [hafter j hj.le, cycle_withMode false (hn j hj)]
  · intro j hj
    rw [hafter j hj]
    exact sameButMode_withMode ..
  · intro hr ho
    have hfetched : (t.after n).machine.fetched = (s.after n).machine.fetched := by
      rw [hafter n le_rfl]
      rfl
    have hr' : (t.after n).isRunning = true := by
      rw [hafter n le_rfl]
      exact hr
    refine ⟨?_, cycle_of_supervisor hr (hmode n).1 ho⟩
    rw [← hfetched] at ho ⊢
    exact cycle_of_user hr' (hmode n).2 ho

/-- After the addition, the attempt to return fails in user mode only. -/
theorem mode_shows_addThenReturn :
    let t := ofMachine addThenReturn
    let s := t.withMode true
    s.SameButMode t ∧ s.machine.supervisor = true ∧ t.machine.supervisor = false ∧
      s.AvoidsRti 1 ∧ (s.after 1).SameButMode (t.after 1) ∧
      (t.after 1).cycle.1 = .error (.unprivileged .rti 0x8000) ∧
      (s.after 1).cycle.1 = .ok (some ⟨1, 0x8000, .rti⟩) := by
  intro t s
  have hsame : s.SameButMode t := ⟨fun _ => rfl, fun _ => rfl, rfl, rfl, rfl, rfl⟩
  have havoids : s.AvoidsRti 1 := by
    intro j hj _
    obtain rfl : j = 0 := by omega
    decide
  have hfetched : (s.after 1).machine.fetched = 0x8000 := by decide
  obtain ⟨-, halike, hpart, -⟩ := mode_shows_at_rti_only s t hsame rfl rfl 1 havoids
  obtain ⟨hfail, hpass⟩ := hpart (by decide) (by decide)
  rw [hfetched] at hfail hpass
  refine ⟨hsame, rfl, rfl, havoids, halike 1 le_rfl, by rw [hfail], ?_⟩
  rw [hpass, show (s.after 1).machine.pc = 1 by decide]

end Simulator
end Lc3
