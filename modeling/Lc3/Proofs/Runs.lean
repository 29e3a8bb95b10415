import Lc3.Proofs.InstructionTable
import Lc3.Simulator.Run
import Mathlib.Data.Nat.Find
import Mathlib.Logic.Function.Iterate

/-! # Where a run stops

A run is a number of cycles, each made from where the one before it ended. `after` counts them
without regard to whether the machine still runs, since a cycle does nothing to a machine that has
stopped, and `run_eq_some_iff` finds in a run the first count after which it has.

`run_stops_iff` says what that first stop is: a word that cannot run, before which everything stays
as the completed cycles left it, or a halting trap, after which no word is run. -/

namespace Lc3

namespace Machine

def fetched (m : Machine) : Word :=
  m.readMemory m.pc

/-- The next word cannot run, which is the fault `fault`. -/
def Refuses (m : Machine) (fault : Fault) : Prop :=
  (Table.opcode m.fetched = 0xD ∧ fault = .undecodable .reserved m.fetched) ∨
    (Table.opcode m.fetched = 0x8 ∧ m.supervisor = false ∧ fault = .unprivileged .rti m.fetched)

def AtHalt (m : Machine) : Prop :=
  Table.opcode m.fetched = 0xF ∧ m.fetched.toNat % 0x100 = 0x25

variable {m : Machine} {fault : Fault}

theorem refuses_iff : m.Refuses fault ↔ Table.fault? m m.fetched = some fault := by
  unfold Refuses Table.fault?
  by_cases hd : Table.opcode m.fetched = 0xD
  · simpa [hd] using eq_comm
  · by_cases hp : Table.opcode m.fetched = 0x8 ∧ m.supervisor = false
    · simpa [hp] using eq_comm
    · simp only [hd, false_and, false_or, if_false, if_neg hp, reduceCtorEq, iff_false]
      exact fun h => hp ⟨h.1, h.2.1⟩

theorem atHalt_iff : m.AtHalt ↔ Table.signal m.fetched = .halt := by
  rw [AtHalt, Table.signal, Table.unsigned_vector, BitVec.toNat_setWidth]
  split_ifs with h
  · simpa using h
  · simpa using h

theorem AtHalt.fault? (h : m.AtHalt) : Table.fault? m m.fetched = none := by
  simp [Table.fault?, h.1]

end Machine

namespace Simulator

/-- The simulator after `k` cycles. -/
def after (s : Simulator) (k : Nat) : Simulator :=
  (fun s => s.cycle.2)^[k] s

/-- The first `k` cycles complete an instruction each, and none of them halts. -/
def GoesOn (s : Simulator) (k : Nat) : Prop :=
  ∀ j < k, (∃ c, (s.after j).cycle.1 = .ok (some c)) ∧ (s.after (j + 1)).status ≠ .halted

/-- The machine runs until `k` cycles are made, and no longer. -/
def StopsAfter (s : Simulator) (k : Nat) : Prop :=
  (∀ j < k, (s.after j).isRunning = true) ∧ (s.after k).isRunning = false

section
variable (s : Simulator)

@[simp]
theorem after_zero : s.after 0 = s := rfl

theorem after_succ (k : Nat) : s.after (k + 1) = (s.after k).cycle.2 :=
  Function.iterate_succ_apply' ..

theorem after_succ' (k : Nat) : s.after (k + 1) = s.cycle.2.after k :=
  Function.iterate_succ_apply ..

theorem after_add (n k : Nat) : s.after (n + k) = (s.after n).after k := by
  rw [Nat.add_comm]
  exact Function.iterate_add_apply ..

end

section
variable {s : Simulator} {fault : Fault}

theorem after_of_not_isRunning (h : s.isRunning = false) (k : Nat) : s.after k = s :=
  Function.iterate_fixed (cycle_of_not_isRunning h) k

theorem after_of_le {k n : Nat} (h : (s.after k).isRunning = false) (hle : k ≤ n) :
    s.after n = s.after k := by
  obtain ⟨d, rfl⟩ := Nat.exists_eq_add_of_le hle
  rw [after_add, after_of_not_isRunning h]

theorem isRunning_of_le {k n : Nat} (h : (s.after n).isRunning = true) (hle : k ≤ n) :
    (s.after k).isRunning = true := by
  by_contra hk
  have hk := Bool.eq_false_of_not_eq_true hk
  rw [after_of_le hk hle, hk] at h
  cases h

theorem advance_eq_after (n : Nat) (s : Simulator) : s.advance n = s.after n := by
  induction n generalizing s with
  | zero => rfl
  | succ n ih =>
    cases h : s.isRunning
    · rw [advance_of_not_isRunning _ h, after_of_not_isRunning h]
    · rw [advance, if_pos h, ih, after_succ']

/-! ### Runs -/

theorem exists_stopsAfter {n : Nat} (h : (s.after n).isRunning = false) :
    ∃ k ≤ n, s.StopsAfter k := by
  have hex : ∃ k, (s.after k).isRunning = false := ⟨n, h⟩
  refine ⟨Nat.find hex, Nat.find_min' hex h, fun j hj => ?_, Nat.find_spec hex⟩
  exact Bool.eq_true_of_not_eq_false (Nat.find_min hex hj)

theorem run_eq (fuel : Nat) (s : Simulator) : s.run fuel =
    if (s.after fuel).isRunning then none else some ((s.after fuel).verdict, s.after fuel) := by
  rw [run, advance_eq_after]

theorem run_eq_none_iff {fuel : Nat} : s.run fuel = none ↔ (s.after fuel).isRunning = true := by
  rw [run_eq]
  split <;> simp [*]

theorem run_of_stopsAfter {k fuel : Nat} (hk : s.StopsAfter k) (hle : k ≤ fuel) :
    s.run fuel = some ((s.after k).verdict, s.after k) := by
  rw [run_eq, after_of_le hk.2 hle, if_neg (by simp [hk.2])]

/-- A run has an answer if the machine stops in time, and it is what the first stop has left. -/
theorem run_eq_some_iff {fuel : Nat} {r : Except Fault Unit × Simulator} :
    s.run fuel = some r ↔
      ∃ k ≤ fuel, s.StopsAfter k ∧ r = ((s.after k).verdict, s.after k) := by
  constructor
  · intro h
    have hfuel : (s.after fuel).isRunning = false := by
      by_contra hr
      rw [run_eq_none_iff.2 (Bool.eq_true_of_not_eq_false hr)] at h
      cases h
    obtain ⟨k, hle, hk⟩ := exists_stopsAfter hfuel
    rw [run_of_stopsAfter hk hle] at h
    exact ⟨k, hle, hk, (Option.some.inj h).symm⟩
  · rintro ⟨k, hle, hk, rfl⟩
    exact run_of_stopsAfter hk hle

/-! ### Cycles -/

/-- All that a cycle can do: nothing, fail, or run the instruction that it has fetched. -/
theorem cycle_eq_cases (s : Simulator) :
    (s.isRunning = false ∧ s.cycle.2 = s) ∨
    (s.isRunning = true ∧ ∃ fault,
      Instruction.decodeFor s.machine s.machine.fetched = .error fault ∧
      s.cycle = (.error fault, ⟨s.machine, s.count, .faulted fault⟩)) ∨
    (s.isRunning = true ∧ ∃ i, Instruction.decodeFor s.machine s.machine.fetched = .ok i ∧
      s.cycle = (.ok (some ⟨s.machine.pc, s.machine.fetched, i⟩),
        ⟨i.effect (s.machine.jumpRelative 1), s.count + 1, .afterSignal i.signal⟩)) := by
  cases hr : s.isRunning with
  | false => exact .inl ⟨rfl, cycle_of_not_isRunning hr⟩
  | true =>
    cases hi : Instruction.decodeFor s.machine s.machine.fetched with
    | error fault => exact .inr (.inl ⟨rfl, fault, rfl, cycle_of_decodeFor_error hr hi⟩)
    | ok i => exact .inr (.inr ⟨rfl, i, rfl, cycle_of_decodeFor_ok hr hi⟩)

theorem cycle_of_refuses (h : s.isRunning = true) (hf : s.machine.Refuses fault) :
    s.cycle = (.error fault, ⟨s.machine, s.count, .faulted fault⟩) :=
  cycle_of_decodeFor_error h (Table.decodeFor_of_fault? (Machine.refuses_iff.1 hf))

theorem exists_cycle (h : s.isRunning = true) (hf : ∀ fault, ¬ s.machine.Refuses fault) :
    ∃ c n, s.cycle = (.ok (some c),
      ⟨n, s.count + 1, .afterSignal (Table.signal s.machine.fetched)⟩) := by
  have hnone : Table.fault? s.machine s.machine.fetched = none :=
    Option.eq_none_iff_forall_ne_some.2 fun fault => mt Machine.refuses_iff.2 (hf fault)
  obtain ⟨i, hi⟩ := Table.exists_decodeFor hnone
  rw [Table.signal_eq (Instruction.decodeFor_eq_ok_iff.1 hi).1]
  exact ⟨_, _, cycle_of_decodeFor_ok h hi⟩

theorem cycle_cases (h : s.isRunning = true) :
    (∃ fault, s.machine.Refuses fault ∧
      s.cycle = (.error fault, ⟨s.machine, s.count, .faulted fault⟩)) ∨
    (s.machine.AtHalt ∧ ∃ c n, s.cycle = (.ok (some c), ⟨n, s.count + 1, .halted⟩)) ∨
    ((∀ fault, ¬ s.machine.Refuses fault) ∧ ¬ s.machine.AtHalt ∧
      ∃ c n, s.cycle = (.ok (some c), ⟨n, s.count + 1, .running⟩)) := by
  by_cases hf : ∃ fault, s.machine.Refuses fault
  · obtain ⟨fault, hf⟩ := hf
    exact .inl ⟨fault, hf, cycle_of_refuses h hf⟩
  · have hf := not_exists.1 hf
    obtain ⟨c, n, hc⟩ := exists_cycle h hf
    by_cases hh : s.machine.AtHalt
    · rw [Machine.atHalt_iff.1 hh] at hc
      exact .inr (.inl ⟨hh, c, n, hc⟩)
    · have hp : Table.signal s.machine.fetched = .proceed := by
        cases hs : Table.signal s.machine.fetched with
        | proceed => rfl
        | halt => exact absurd (Machine.atHalt_iff.2 hs) hh
      rw [hp] at hc
      exact .inr (.inr ⟨hf, hh, c, n, hc⟩)

theorem goesOn_succ {k : Nat} : s.GoesOn (k + 1) ↔ s.GoesOn k ∧
    (∃ c, (s.after k).cycle.1 = .ok (some c)) ∧ (s.after (k + 1)).status ≠ .halted :=
  Nat.forall_lt_succ_right

/-- A machine has gone on for `k` cycles just if it still runs after them. -/
theorem goesOn_iff (h : s.isRunning = true) {k : Nat} :
    s.GoesOn k ↔ (s.after k).isRunning = true := by
  induction k with
  | zero => simp [GoesOn, h]
  | succ k ih =>
    rw [goesOn_succ, ih]
    constructor
    · rintro ⟨hr, ⟨c, hc⟩, hh⟩
      rw [after_succ] at hh ⊢
      rcases cycle_cases hr with ⟨fault, -, he⟩ | ⟨-, c', n, he⟩ | ⟨-, -, c', n, he⟩
      · rw [he] at hc
        cases hc
      · rw [he] at hh
        exact absurd rfl hh
      · rw [he]
        rfl
    · intro hr'
      have hr := isRunning_of_le hr' k.le_succ
      rw [after_succ] at hr' ⊢
      rcases cycle_cases hr with ⟨fault, -, he⟩ | ⟨-, c, n, he⟩ | ⟨-, -, c, n, he⟩
      · rw [he] at hr'
        cases hr'
      · rw [he] at hr'
        cases hr'
      · rw [he]
        exact ⟨hr, ⟨c, rfl⟩, Status.noConfusion⟩

theorem completed_of_count {s t : Simulator} {k : Nat} (h : t.count = s.count + .ofNat k) :
    t.completed = (s.completed + k) % 2 ^ 64 := by
  rw [completed, h, UInt64.toNat_add, UInt64.toNat_ofNat', Nat.add_mod_mod, completed]

theorem add_ofNat_succ (count : UInt64) (k : Nat) :
    count + .ofNat (k + 1) = count + .ofNat k + 1 := by
  rw [UInt64.ofNat_add, ← UInt64.add_assoc]
  rfl

theorem count_after {k : Nat} (hk : (s.after k).isRunning = true) :
    (s.after k).count = s.count + .ofNat k := by
  induction k with
  | zero => exact (UInt64.add_zero s.count).symm
  | succ k ih =>
    have hr := isRunning_of_le hk k.le_succ
    rw [after_succ] at hk ⊢
    rcases cycle_cases hr with ⟨fault, -, he⟩ | ⟨-, c, n, he⟩ | ⟨-, -, c, n, he⟩ <;>
      rw [he] at hk ⊢
    · cases hk
    · cases hk
    · rw [ih hr, add_ofNat_succ]

theorem after_succ_cases {k : Nat} (hk : (s.after k).isRunning = true) :
    (∃ fault, (s.after k).machine.Refuses fault ∧
      s.after (k + 1) = ⟨(s.after k).machine, s.count + .ofNat k, .faulted fault⟩) ∨
    ((s.after k).machine.AtHalt ∧ ∃ n, s.after (k + 1) = ⟨n, s.count + .ofNat (k + 1), .halted⟩) ∨
    ((∀ fault, ¬ (s.after k).machine.Refuses fault) ∧ ¬ (s.after k).machine.AtHalt ∧
      ∃ n, s.after (k + 1) = ⟨n, s.count + .ofNat (k + 1), .running⟩) := by
  rw [after_succ, add_ofNat_succ, ← count_after hk]
  rcases cycle_cases hk with ⟨fault, hf, he⟩ | ⟨hh, c, n, he⟩ | ⟨hf, hh, c, n, he⟩ <;> rw [he]
  · exact .inl ⟨fault, hf, rfl⟩
  · exact .inr (.inl ⟨hh, n, rfl⟩)
  · exact .inr (.inr ⟨hf, hh, n, rfl⟩)

theorem isRunning_after_succ {k : Nat} (hk : (s.after k).isRunning = true) :
    (s.after (k + 1)).isRunning = true ↔
      (∀ fault, ¬ (s.after k).machine.Refuses fault) ∧ ¬ (s.after k).machine.AtHalt := by
  rcases after_succ_cases hk with ⟨fault, hf, he⟩ | ⟨hh, n, he⟩ | ⟨hf, hh, n, he⟩ <;> rw [he]
  · exact ⟨fun h => (by cases h), fun h => absurd hf (h.1 fault)⟩
  · exact ⟨fun h => (by cases h), fun h => absurd hh h.2⟩
  · exact ⟨fun _ => ⟨hf, hh⟩, fun _ => rfl⟩

/-! ### The first stop -/

theorem stopsAfter_succ {k : Nat} (hk : (s.after k).isRunning = true)
    (hstop : (s.after (k + 1)).isRunning = false) : s.StopsAfter (k + 1) :=
  ⟨fun _ hj => isRunning_of_le hk (Nat.le_of_lt_succ hj), hstop⟩

theorem StopsAfter.exists_succ (h : s.isRunning = true) {n : Nat} (hn : s.StopsAfter n) :
    ∃ k, n = k + 1 ∧ (s.after k).isRunning = true := by
  cases n with
  | zero =>
    have := hn.2
    rw [after_zero, h] at this
    cases this
  | succ k => exact ⟨k, rfl, hn.1 k k.lt_succ_self⟩

theorem after_succ_of_refuses {k : Nat} (hk : (s.after k).isRunning = true)
    (hf : (s.after k).machine.Refuses fault) :
    s.after (k + 1) = ⟨(s.after k).machine, s.count + .ofNat k, .faulted fault⟩ := by
  rw [after_succ, cycle_of_refuses hk hf, count_after hk]

theorem run_error_iff (h : s.isRunning = true) {t : Simulator} :
    (∃ fuel, s.run fuel = some (.error fault, t)) ↔
      ∃ k, s.GoesOn k ∧ (s.after k).machine.Refuses fault ∧
        t = ⟨(s.after k).machine, s.count + .ofNat k, .faulted fault⟩ ∧
        t.completed = (s.completed + k) % 2 ^ 64 := by
  constructor
  · rintro ⟨fuel, hrun⟩
    obtain ⟨n, -, hn, hr⟩ := run_eq_some_iff.1 hrun
    obtain ⟨k, rfl, hk⟩ := hn.exists_succ h
    have hstop := hn.2
    rcases after_succ_cases hk with ⟨fault', hf, he⟩ | ⟨-, n, he⟩ | ⟨-, -, n, he⟩ <;>
      rw [he] at hr hstop
    · cases hr
      exact ⟨k, (goesOn_iff h).2 hk, hf, rfl, completed_of_count rfl⟩
    · cases hr
    · cases hstop
  · rintro ⟨k, hgo, hf, rfl, -⟩
    have hk := (goesOn_iff h).1 hgo
    have he := after_succ_of_refuses hk hf
    refine ⟨k + 1, run_eq_some_iff.2 ⟨k + 1, le_rfl, stopsAfter_succ hk ?_, ?_⟩⟩ <;> rw [he] <;> rfl

theorem run_ok_iff (h : s.isRunning = true) {t : Simulator} :
    (∃ fuel, s.run fuel = some (.ok (), t)) ↔
      ∃ k, s.GoesOn k ∧ (s.after k).machine.AtHalt ∧ t = s.after (k + 1) ∧
        t.completed = (s.completed + (k + 1)) % 2 ^ 64 ∧ t.status = .halted := by
  constructor
  · rintro ⟨fuel, hrun⟩
    obtain ⟨n, -, hn, hr⟩ := run_eq_some_iff.1 hrun
    obtain ⟨k, rfl, hk⟩ := hn.exists_succ h
    have hstop := hn.2
    obtain rfl := (Prod.mk.inj hr).2
    rcases after_succ_cases hk with ⟨fault', -, he⟩ | ⟨hh, n, he⟩ | ⟨-, -, n, he⟩ <;>
      rw [he] at hr hstop
    · cases hr
    · exact ⟨k, (goesOn_iff h).2 hk, hh, rfl, completed_of_count (by rw [he]), by rw [he]⟩
    · cases hstop
  · rintro ⟨k, hgo, -, rfl, -, hs⟩
    refine ⟨k + 1, run_eq_some_iff.2 ⟨k + 1, le_rfl, stopsAfter_succ ((goesOn_iff h).1 hgo) ?_, ?_⟩⟩
    · rw [isRunning, hs]
      rfl
    · rw [verdict, hs]

theorem run_none_iff (h : s.isRunning = true) :
    (∀ fuel, s.run fuel = none) ↔
      ∀ k, s.GoesOn k → (∀ fault, ¬ (s.after k).machine.Refuses fault) ∧
        ¬ (s.after k).machine.AtHalt := by
  simp only [run_eq_none_iff, goesOn_iff h]
  refine ⟨fun hall k hk => (isRunning_after_succ hk).1 (hall (k + 1)), fun hall k => ?_⟩
  induction k with
  | zero => exact h
  | succ k ih => exact (isRunning_after_succ ih).2 (hall k ih)

end

/-- A run of a machine that has not stopped fails at the first word that cannot run and succeeds
with the first halting trap, whichever it meets first, and else has no answer. -/
theorem run_stops_iff (s : Simulator) (h : s.status = .idle ∨ s.status = .running) :
    (∀ fault t, (∃ fuel, s.run fuel = some (.error fault, t)) ↔
      ∃ k, s.GoesOn k ∧ (s.after k).machine.Refuses fault ∧
        t = ⟨(s.after k).machine, s.count + .ofNat k, .faulted fault⟩ ∧
        t.completed = (s.completed + k) % 2 ^ 64) ∧
    (∀ t, (∃ fuel, s.run fuel = some (.ok (), t)) ↔
      ∃ k, s.GoesOn k ∧ (s.after k).machine.AtHalt ∧ t = s.after (k + 1) ∧
        t.completed = (s.completed + (k + 1)) % 2 ^ 64 ∧ t.status = .halted) ∧
    ((∀ fuel, s.run fuel = none) ↔
      ∀ k, s.GoesOn k → (∀ fault, ¬ (s.after k).machine.Refuses fault) ∧
        ¬ (s.after k).machine.AtHalt) := by
  have hr := isRunning_iff.2 h
  exact ⟨fun _ _ => run_error_iff hr, fun _ => run_ok_iff hr, run_none_iff hr⟩

/-- A program that adds one and then tries to return from an interrupt it is not in. -/
def addThenReturn : Machine :=
  (Machine.initial.writeMemory 0 0x1021).writeMemory 1 0x8000

theorem run_addThenReturn :
    let s := ofMachine addThenReturn
    (s.status = .idle ∨ s.status = .running) ∧
      ∃ fuel t, s.run fuel = some (.error (.unprivileged .rti 0x8000), t) ∧
        t.machine.pc = 1 ∧ t.completed = 1 ∧ t.status = .faulted (.unprivileged .rti 0x8000) := by
  intro s
  have h : s.status = .idle ∨ s.status = .running := .inl rfl
  have hgo : s.GoesOn 1 := (goesOn_iff rfl).2 (by decide)
  have hf : (s.after 1).machine.Refuses (.unprivileged .rti 0x8000) := .inr (by decide)
  obtain ⟨fuel, hrun⟩ := ((run_stops_iff s h).1 _ _).2 ⟨1, hgo, hf, rfl, by decide⟩
  exact ⟨h, fuel, _, hrun, by decide, rfl, rfl⟩

end Simulator
end Lc3
