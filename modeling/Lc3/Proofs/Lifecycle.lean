import Lc3.Proofs.LimitedRuns

/-! # The life of a simulator

Status and count are a summary of the past. `Reaches` says how a simulator comes about, by steps,
cycles and runs and by changes of its machine from outside, and keeps the log of the simulators that
cycles were made on. `Accounts` is what a log and the simulator it leads to have to do with each
other; a cycle keeps it (`Accounts.cycle`), and so does all else, since runs are made of cycles and
changes from outside touch neither status nor count. `status_accounts_for_log` reads off it what
each status says about the log, and that the status only moves forward. -/

namespace Lc3
namespace Simulator

/-- The simulators that up to `n` cycles are made on, in order. -/
def stages : (n : Nat) → Simulator → List Simulator
  | 0, _ => []
  | n + 1, s => if s.isRunning then s :: stages n s.cycle.2 else []

/-- `t` comes about from `s`, and cycles are made on the simulators in the log on the way. -/
inductive Reaches (s : Simulator) : List Simulator → Simulator → Prop
  | start : Reaches s [] s
  | step {log t} : Reaches s log t → Reaches s (log ++ [t]) t.step.2
  | cycle {log t} : Reaches s log t → Reaches s (log ++ [t]) t.cycle.2
  | run {log t fuel result u} :
    Reaches s log t → t.run fuel = some (result, u) → Reaches s (log ++ t.stages fuel) u
  /-- The machine is changed in any way between the calls. -/
  | change {log t} (f : Machine → Machine) : Reaches s log t → Reaches s log (t.mapMachine f)

/-- The word that the next cycle fetches. A machine that has stopped fetches none. -/
def fetch? (s : Simulator) : Option Word :=
  if s.isRunning then some s.machine.fetched else none

/-- The part of a log at which a cycle completed. -/
def completing (log : List Simulator) : List Simulator :=
  log.filter (·.completes?.isSome)

/-! ### Runs are cycles -/

section
variable {s t u : Simulator} {log : List Simulator} {fault : Fault}

theorem eq_advance_of_run {fuel : Nat} {result : Except Fault Unit}
    (h : t.run fuel = some (result, u)) : u = t.advance fuel := by
  unfold run at h
  dsimp only at h
  split at h
  · cases h
  · cases h
    rfl

/-- What each cycle keeps of a log and a simulator holds after several. -/
theorem advance_induct {P : List Simulator → Simulator → Prop}
    (cycle : ∀ log t, P log t → P (log ++ [t]) t.cycle.2) (n : Nat) (h : P log t) :
    P (log ++ t.stages n) (t.advance n) := by
  induction n generalizing log t with
  | zero =>
    rw [stages, List.append_nil]
    exact h
  | succ n ih =>
    cases hr : t.isRunning with
    | false =>
      rw [stages, if_neg (by simp [hr]), List.append_nil, advance_of_not_isRunning _ hr]
      exact h
    | true =>
      -- The cycle made first is the end of the log that the others go on from.
      rw [stages, if_pos hr, advance, if_pos hr, ← List.singleton_append, ← List.append_assoc]
      exact ih (cycle log t h)

theorem Reaches.induct {P : List Simulator → Simulator → Prop} (h : s.Reaches log t)
    (start : P [] s) (cycle : ∀ log t, P log t → P (log ++ [t]) t.cycle.2)
    (change : ∀ log t f, P log t → P log (t.mapMachine f)) : P log t := by
  induction h with
  | start => exact start
  | step _ ih => exact cycle _ _ ih
  | cycle _ ih => exact cycle _ _ ih
  | run _ hrun ih =>
    rw [eq_advance_of_run hrun]
    exact advance_induct cycle _ ih
  | change f _ ih => exact change _ _ f ih

/-! ### The log and the status -/

theorem status_cycle_ne_idle (s : Simulator) : s.cycle.2.status ≠ .idle := by
  cases hr : s.isRunning with
  | false =>
    rw [cycle_of_not_isRunning hr]
    intro hi
    rw [isRunning, hi] at hr
    cases hr
  | true =>
    rcases cycle_cases hr with ⟨fault, -, he⟩ | ⟨-, c, n, he⟩ | ⟨-, -, c, n, he⟩ <;> rw [he] <;>
      exact Status.noConfusion

theorem status_of_cycle_error (hr : s.isRunning = false) (h : s.cycle.1 = .error fault) :
    s.status = .faulted fault := by
  obtain ⟨m, count, status⟩ := s
  cases status with
  | idle | running => cases hr
  | halted => cases h
  | faulted fault' =>
    cases h
    rfl

theorem isRunning_of_mem_completing {a : Simulator} (h : a ∈ completing log) :
    a ∈ log ∧ a.isRunning = true := by
  obtain ⟨ha, hc⟩ := List.mem_filter.1 h
  refine ⟨ha, ?_⟩
  by_contra hr
  rw [completes?_of_not_isRunning (Bool.eq_false_of_not_eq_true hr)] at hc
  cases hc

theorem completing_concat_of_none (log : List Simulator) (h : t.completes? = none) :
    completing (log ++ [t]) = completing log := by
  simp [completing, h]

theorem completing_concat_of_some (log : List Simulator) {c : Cycle} (h : t.completes? = some c) :
    completing (log ++ [t]) = completing log ++ [t] := by
  simp [completing, h]

/-- The log of all cycles since the start, and what it has led to. -/
structure Accounts (log : List Simulator) (t : Simulator) : Prop where
  count : t.count = .ofNat (completing log).length
  idle : t.status = .idle → log = []
  running : t.status = .running →
    ∃ a, (completing log).getLast? = some a ∧ ¬ a.machine.AtHalt
  halted : t.status = .halted → ∃ a, (completing log).getLast? = some a ∧ a.machine.AtHalt
  /-- A halt cannot come before a fault. -/
  faulted : ∀ fault, t.status = .faulted fault →
    (∃ a ∈ log, a.isRunning = true ∧ a.machine.Refuses fault) ∧
      ∀ a, (completing log).getLast? = some a → ¬ a.machine.AtHalt
  /-- There is one fault at most, and it lasts. -/
  errors : ∀ a ∈ log, ∀ fault, a.cycle.1 = .error fault → t.status = .faulted fault

namespace Accounts

theorem start (m : Machine) : Accounts [] (ofMachine m) where
  count := rfl
  idle _ := rfl
  running h := by cases h
  halted h := by cases h
  faulted _ h := by cases h
  errors _ h := by cases h

theorem change (h : Accounts log t) (f : Machine → Machine) : Accounts log (t.mapMachine f) :=
  ⟨h.count, h.idle, h.running, h.halted, h.faulted, h.errors⟩

theorem not_error (h : Accounts log t) (hr : t.isRunning = true) :
    ∀ a ∈ log, ∀ fault, a.cycle.1 ≠ .error fault := by
  intro a ha fault he
  rw [isRunning, h.errors a ha fault he] at hr
  cases hr

theorem last_not_atHalt (h : Accounts log t) (hr : t.isRunning = true) :
    ∀ a, (completing log).getLast? = some a → ¬ a.machine.AtHalt := by
  intro a ha
  cases hs : t.status with
  | idle =>
    rw [h.idle hs] at ha
    cases ha
  | running =>
    obtain ⟨b, hb, hnot⟩ := h.running hs
    rw [ha] at hb
    cases hb
    exact hnot
  | halted | faulted =>
    rw [isRunning, hs] at hr
    cases hr

theorem cycle_of_not_isRunning (h : Accounts log t) (hr : t.isRunning = false) :
    Accounts (log ++ [t]) t.cycle.2 := by
  have hsame := completing_concat_of_none log (completes?_of_not_isRunning hr)
  rw [Simulator.cycle_of_not_isRunning hr]
  refine ⟨?_, ?_, ?_, ?_, ?_, ?_⟩
  · rw [hsame]
    exact h.count
  · intro hi
    rw [isRunning, hi] at hr
    cases hr
  · rw [hsame]
    exact h.running
  · rw [hsame]
    exact h.halted
  · intro fault hs
    obtain ⟨⟨a, ha, hf⟩, hlast⟩ := h.faulted fault hs
    rw [hsame]
    exact ⟨⟨a, List.mem_append_left _ ha, hf⟩, hlast⟩
  · intro a ha fault he
    rcases List.mem_append.1 ha with ha | ha
    · exact h.errors a ha fault he
    · rw [List.mem_singleton.1 ha] at he
      exact status_of_cycle_error hr he

theorem cycle_of_refuses (h : Accounts log t) (hr : t.isRunning = true)
    (hf : t.machine.Refuses fault) : Accounts (log ++ [t]) t.cycle.2 := by
  have hc := Simulator.cycle_of_refuses hr hf
  have hsame := completing_concat_of_none log (completes?_of_cycle hc)
  rw [hc]
  refine ⟨?_, Status.noConfusion, Status.noConfusion, Status.noConfusion, ?_, ?_⟩
  · rw [hsame]
    exact h.count
  · rintro _ ⟨⟩
    refine ⟨⟨t, List.mem_append_right _ (List.mem_singleton_self t), hr, hf⟩, ?_⟩
    rw [hsame]
    exact h.last_not_atHalt hr
  · intro a ha fault' he
    rcases List.mem_append.1 ha with ha | ha
    · exact absurd he (h.not_error hr a ha fault')
    · rw [List.mem_singleton.1 ha, hc] at he
      cases he
      rfl

theorem cycle_of_completes (h : Accounts log t) (hr : t.isRunning = true) {c : Cycle}
    {n : Machine} {status : Status} (hc : t.cycle = (.ok (some c), ⟨n, t.count + 1, status⟩))
    (hs : (t.machine.AtHalt ∧ status = .halted) ∨ (¬ t.machine.AtHalt ∧ status = .running)) :
    Accounts (log ++ [t]) t.cycle.2 := by
  have hmore := completing_concat_of_some log (completes?_of_cycle hc)
  have hlast : (completing (log ++ [t])).getLast? = some t := by rw [hmore, List.getLast?_concat]
  -- Had an earlier cycle failed, the machine would have stopped there.
  have herrors : ∀ a ∈ log ++ [t], ∀ fault, a.cycle.1 ≠ .error fault := by
    intro a ha fault he
    rcases List.mem_append.1 ha with ha | ha
    · exact h.not_error hr a ha fault he
    · rw [List.mem_singleton.1 ha, hc] at he
      cases he
  have hcount : t.count + 1 = .ofNat (completing (log ++ [t])).length := by
    rw [hmore, List.length_append, List.length_singleton, UInt64.ofNat_add, ← h.count]
    rfl
  rw [hc]
  rcases hs with ⟨hh, rfl⟩ | ⟨hh, rfl⟩
  · exact ⟨hcount, Status.noConfusion, Status.noConfusion, fun _ => ⟨t, hlast, hh⟩,
      fun _ => Status.noConfusion, fun a ha fault he => absurd he (herrors a ha fault)⟩
  · exact ⟨hcount, Status.noConfusion, fun _ => ⟨t, hlast, hh⟩, Status.noConfusion,
      fun _ => Status.noConfusion, fun a ha fault he => absurd he (herrors a ha fault)⟩

theorem cycle (h : Accounts log t) : Accounts (log ++ [t]) t.cycle.2 := by
  cases hr : t.isRunning with
  | false => exact h.cycle_of_not_isRunning hr
  | true =>
    rcases cycle_cases hr with ⟨fault, hf, -⟩ | ⟨hh, c, n, hc⟩ | ⟨-, hh, c, n, hc⟩
    · exact h.cycle_of_refuses hr hf
    · exact h.cycle_of_completes hr hc (.inl ⟨hh, rfl⟩)
    · exact h.cycle_of_completes hr hc (.inr ⟨hh, rfl⟩)

theorem of_reaches {m : Machine} (h : (ofMachine m).Reaches log t) : Accounts log t :=
  h.induct (start m) (fun _ _ => cycle) (fun _ _ f h => h.change f)

/-! ### Reading the log -/

theorem idle_iff (h : Accounts log t) : t.status = .idle ↔ ∀ a ∈ log, a.fetch? = none := by
  -- Under any other status some simulator in the log was running, so that its cycle fetched.
  have hrunning : ∀ a ∈ log, a.isRunning = true → ¬ ∀ a ∈ log, a.fetch? = none := by
    intro a ha hr hnone
    have := hnone a ha
    rw [fetch?, if_pos hr] at this
    cases this
  constructor
  · intro hs a ha
    rw [h.idle hs] at ha
    cases ha
  · intro hnone
    have hlast : ∀ a, (completing log).getLast? ≠ some a := by
      intro a ha
      obtain ⟨hmem, hr⟩ := isRunning_of_mem_completing (List.mem_of_getLast? ha)
      exact hrunning a hmem hr hnone
    cases hs : t.status with
    | idle => rfl
    | running =>
      obtain ⟨a, ha, -⟩ := h.running hs
      exact absurd ha (hlast a)
    | halted =>
      obtain ⟨a, ha, -⟩ := h.halted hs
      exact absurd ha (hlast a)
    | faulted fault =>
      obtain ⟨⟨a, ha, hr, -⟩, -⟩ := h.faulted fault hs
      exact absurd hnone (hrunning a ha hr)

theorem exists_error_iff (h : Accounts log t) :
    t.status = .faulted fault ↔ ∃ a ∈ log, a.cycle.1 = .error fault := by
  constructor
  · intro hs
    obtain ⟨⟨a, ha, hr, hf⟩, -⟩ := h.faulted fault hs
    exact ⟨a, ha, by rw [Simulator.cycle_of_refuses hr hf]⟩
  · rintro ⟨a, ha, he⟩
    exact h.errors a ha fault he

theorem halted_iff (h : Accounts log t) :
    t.status = .halted ↔ ∃ a, (completing log).getLast? = some a ∧ a.machine.AtHalt := by
  refine ⟨h.halted, ?_⟩
  rintro ⟨a, ha, hh⟩
  have hstop : t.isRunning = false := by
    by_contra hr
    exact h.last_not_atHalt (Bool.eq_true_of_not_eq_false hr) a ha hh
  cases hs : t.status with
  | idle | running =>
    rw [isRunning, hs] at hstop
    cases hstop
  | halted => rfl
  | faulted fault => exact absurd hh ((h.faulted fault hs).2 a ha)

theorem running_iff (h : Accounts log t) :
    t.status = .running ↔ (∃ a, (completing log).getLast? = some a ∧ ¬ a.machine.AtHalt) ∧
      ∀ a ∈ log, ∀ fault, a.cycle.1 ≠ .error fault := by
  constructor
  · intro hs
    exact ⟨h.running hs, h.not_error (by rw [isRunning, hs]; rfl)⟩
  · rintro ⟨⟨a, ha, hnot⟩, herrors⟩
    cases hs : t.status with
    | idle =>
      rw [h.idle hs] at ha
      cases ha
    | running => rfl
    | halted =>
      obtain ⟨b, hb, hh⟩ := h.halted hs
      rw [ha] at hb
      cases hb
      exact absurd hh hnot
    | faulted fault =>
      obtain ⟨b, hb, he⟩ := h.exists_error_iff.1 hs
      exact absurd he (herrors b hb fault)

end Accounts

/-! ### Forward moves -/

theorem Reaches.idle_of_idle (h : t.Reaches log u) (hu : u.status = .idle) : t.status = .idle := by
  refine h.induct (P := fun _ u => u.status = .idle → t.status = .idle) id ?_ ?_ hu
  · exact fun _ a _ hi => absurd hi (status_cycle_ne_idle a)
  · exact fun _ _ _ ih => ih

theorem Reaches.status_of_not_isRunning (h : t.Reaches log u) (ht : t.isRunning = false) :
    u.status = t.status := by
  refine h.induct (P := fun _ u => u.status = t.status) rfl ?_ ?_
  · intro _ a ha
    have hr : a.isRunning = false := by rw [isRunning, ha]; exact ht
    rw [cycle_of_not_isRunning hr]
    exact ha
  · exact fun _ _ _ ih => ih

end

/-- The count and the status of a simulator say what the log of all its cycles says, and the status
never goes back to idle and never leaves a halt or a fault. -/
theorem status_accounts_for_log {m : Machine} {log : List Simulator} {t : Simulator}
    (h : (ofMachine m).Reaches log t) :
    t.completed = (completing log).length % 2 ^ 64 ∧
    (t.status = .idle ↔ ∀ a ∈ log, a.fetch? = none) ∧
    (t.status = .running ↔ (∃ a, (completing log).getLast? = some a ∧ ¬ a.machine.AtHalt) ∧
      ∀ a ∈ log, ∀ fault, a.cycle.1 ≠ .error fault) ∧
    (t.status = .halted ↔ ∃ a, (completing log).getLast? = some a ∧ a.machine.AtHalt) ∧
    (∀ fault, t.status = .faulted fault ↔ ∃ a ∈ log, a.cycle.1 = .error fault) ∧
    (∀ fault, t.status = .faulted fault →
      ∃ w, (Table.opcode w = 0xD ∧ fault = .undecodable .reserved w) ∨
        (Table.opcode w = 0x8 ∧ fault = .unprivileged .rti w)) ∧
    ∀ later u, t.Reaches later u →
      (u.status = .idle → t.status = .idle) ∧ (t.status = .halted → u.status = .halted) ∧
        ∀ fault, t.status = .faulted fault → u.status = .faulted fault := by
  have ha := Accounts.of_reaches h
  have hcount : t.completed = (completing log).length % 2 ^ 64 := by
    rw [completed, ha.count, UInt64.toNat_ofNat']
  refine ⟨hcount, ha.idle_iff, ha.running_iff, ha.halted_iff, fun _ => ha.exists_error_iff,
    ?_, ?_⟩
  · intro fault hs
    obtain ⟨⟨a, -, -, hf⟩, -⟩ := ha.faulted fault hs
    rcases hf with ⟨hd, hfault⟩ | ⟨hp, -, hfault⟩
    · exact ⟨_, .inl ⟨hd, hfault⟩⟩
    · exact ⟨_, .inr ⟨hp, hfault⟩⟩
  · intro later u hu
    have hstop : ∀ status, status.isRunning = false → t.status = status → u.status = status := by
      rintro status hr rfl
      exact hu.status_of_not_isRunning hr
    exact ⟨hu.idle_of_idle, hstop .halted rfl, fun fault => hstop (.faulted fault) rfl⟩

/-- A step, a write of another halting trap over the one in memory, and a run to it. -/
theorem accounts_for_addThenHalt :
    let s := ofMachine addThenHalt
    let t := s.step.2.mapMachine (·.writeMemory 1 0xFF25)
    let log := [s] ++ t.stages 3
    s.Reaches log (t.advance 3) ∧ (t.advance 3).completed = 2 ∧
      (t.advance 3).status = .halted ∧
      ∃ a, (completing log).getLast? = some a ∧ a.machine.AtHalt := by
  intro s t log
  have hstop : (t.advance 3).isRunning = false := by decide
  have hrun : t.run 3 = some ((t.advance 3).verdict, t.advance 3) := by
    simp only [run, hstop, Bool.false_eq_true, if_false]
  have hreaches : s.Reaches log (t.advance 3) := (Reaches.start.step.change _).run hrun
  obtain ⟨hcount, -, -, hhalted, -⟩ := status_accounts_for_log hreaches
  have hs : (t.advance 3).status = .halted := by decide
  exact ⟨hreaches, hcount.trans (by decide), hs, hhalted.1 hs⟩

end Simulator
end Lc3
