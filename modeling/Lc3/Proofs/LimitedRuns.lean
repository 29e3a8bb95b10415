import Lc3.Proofs.Runs
import Lc3.Simulator.Progress

/-! # Runs with a limit

Without a limit and a record a program simply runs; with either it goes a cycle at a time, and the
limit is looked at before each cycle. `runWithin_eq` shows both ways to be one: the cycles that
there are, cut off at the limit. So a program that halts with the last instruction of its limit
succeeds, and one that would fault right after it fails for the limit (`runWithin_ofMachine`). -/

namespace Lc3
namespace Simulator

/-- The instruction that the next cycle completes. -/
def completes? (s : Simulator) : Option Cycle :=
  match s.cycle.1 with
  | .ok c => c
  | .error _ => none

def completedCycles (s : Simulator) (n : Nat) : List Cycle :=
  (List.range n).filterMap fun j => (s.after j).completes?

def recorded (s : Simulator) (trace : Bool) (n : Nat) : List Cycle :=
  if trace then s.completedCycles n else []

section
variable {s : Simulator}

theorem completes?_of_not_isRunning (h : s.isRunning = false) : s.completes? = none := by
  obtain ⟨machine, count, status⟩ := s
  cases status with
  | idle | running => cases h
  | halted | faulted _ => rfl

theorem completedCycles_succ (s : Simulator) (n : Nat) :
    s.completedCycles (n + 1) = s.completes?.toList ++ s.cycle.2.completedCycles n := by
  rw [completedCycles, List.range_succ_eq_map, List.filterMap_cons, List.filterMap_map]
  have hrest : (fun j => (s.after j).completes?) ∘ Nat.succ =
      fun j => (s.cycle.2.after j).completes? :=
    funext fun j => by rw [Function.comp, Nat.succ_eq_add_one, after_succ']
  rw [hrest, after_zero]
  cases s.completes? <;> rfl

theorem completedCycles_of_not_isRunning (h : s.isRunning = false) (n : Nat) :
    s.completedCycles n = [] := by
  induction n with
  | zero => rfl
  | succ n ih =>
    rw [completedCycles_succ, completes?_of_not_isRunning h, cycle_of_not_isRunning h, ih]
    rfl

theorem completedCycles_add (s : Simulator) (n k : Nat) :
    s.completedCycles (n + k) = s.completedCycles n ++ (s.after n).completedCycles k := by
  simp only [completedCycles, List.range_add, List.filterMap_append, List.filterMap_map]
  congr 2
  funext j
  rw [Function.comp, after_add]

theorem completedCycles_of_le {k n : Nat} (h : (s.after k).isRunning = false) (hle : k ≤ n) :
    s.completedCycles n = s.completedCycles k := by
  obtain ⟨d, rfl⟩ := Nat.exists_eq_add_of_le hle
  rw [completedCycles_add, completedCycles_of_not_isRunning h, List.append_nil]

theorem completes?_of_cycle {r : Except Fault (Option Cycle)} {t : Simulator}
    (h : s.cycle = (r, t)) : s.completes? = r.toOption.join := by
  rw [completes?, h]
  cases r <;> rfl

theorem record_eq (trace : Bool) (n : Nat) (done : List Cycle) (s : Simulator) :
    s.record trace n done = ((s.recorded trace n).reverse ++ done, s.after n) := by
  induction n generalizing s done with
  | zero => cases trace <;> rfl
  | succ n ih =>
    cases h : s.isRunning
    · rw [record, if_neg (by simp [h]), after_of_not_isRunning h, recorded,
        completedCycles_of_not_isRunning h]
      cases trace <;> rfl
    · rw [record, if_pos h, after_succ', recorded, completedCycles_succ]
      by_cases hf : ∃ fault, s.machine.Refuses fault
      · obtain ⟨fault, hf⟩ := hf
        have hc := cycle_of_refuses h hf
        have hstop : s.cycle.2.isRunning = false := by rw [hc]; rfl
        rw [after_of_not_isRunning hstop, completedCycles_of_not_isRunning hstop,
          completes?_of_cycle hc, hc]
        cases trace <;> rfl
      · obtain ⟨c, m, hc⟩ := exists_cycle h (not_exists.1 hf)
        rw [completes?_of_cycle hc, hc]
        simp only [ih, recorded]
        cases trace <;> simp [Except.toOption]

theorem failure_of_verdict_ok (h : s.verdict = .ok ()) : s.failure = none := by
  unfold verdict at h
  unfold failure
  split <;> simp_all

theorem failure_of_verdict_error {fault : Fault} (h : s.verdict = .error fault) :
    s.failure = some (.faulted fault s.machine.pc) := by
  unfold verdict at h
  unfold failure
  split <;> simp_all

/-- How a program ends under a limit: as without, if it stops within the limit. -/
theorem runWithin_eq (hs : s.isRunning = true) (fuel : Nat) (trace : Bool) (limit : Option Nat) :
    s.runWithin fuel trace limit =
      if (s.after (limit.getD fuel)).isRunning then
        limit.map fun l => ⟨s.recorded trace l, some (.limitReached l), s.after l⟩
      else
        some ⟨s.recorded trace (limit.getD fuel), (s.after (limit.getD fuel)).failure,
          s.after (limit.getD fuel)⟩ := by
  cases trace with
  | true => cases limit <;> simp only [runWithin, record_eq, hs] <;> simp
  | false =>
    cases limit with
    | some l => simp only [runWithin, record_eq, hs]; simp
    | none =>
      rw [runWithin, run_eq, Option.getD_none]
      split
      · rfl
      · cases hv : (s.after fuel).verdict with
        | ok => rw [failure_of_verdict_ok hv]; rfl
        | error fault => rw [failure_of_verdict_error hv]; rfl

/-- Without a record the program makes the same progress, of which only the record is missing. -/
theorem runWithin_eq_map (hs : s.isRunning = true) (fuel : Nat) (trace : Bool)
    (limit : Option Nat) :
    s.runWithin fuel trace limit = (s.runWithin fuel true limit).map fun p =>
      { p with cycles := if trace then p.cycles else [] } := by
  rw [runWithin_eq hs, runWithin_eq hs]
  split
  · cases limit <;> rfl
  · rfl

theorem runWithin_of_stopsAfter (hs : s.isRunning = true) {k fuel : Nat} {limit : Option Nat}
    (hk : s.StopsAfter k) (hle : k ≤ limit.getD fuel) (trace : Bool) :
    s.runWithin fuel trace limit = some ⟨s.recorded trace k, (s.after k).failure, s.after k⟩ := by
  rw [runWithin_eq hs, after_of_le hk.2 hle, if_neg (by simp [hk.2]), recorded,
    completedCycles_of_le hk.2 hle]
  rfl

end

/-! ### Stepping -/

def stepped (s : Simulator) (k : Nat) : Simulator :=
  (fun s => s.step.2)^[k] s

/-- The `k`th step is the first after which the machine has halted. -/
def HaltsWith (s : Simulator) (k : Nat) : Prop :=
  (∀ j < k, (s.stepped j).isRunning = true) ∧ (s.stepped k).status = .halted

/-- The machine runs through `k` steps, and the step after them faults. -/
def FaultsAfter (s : Simulator) (k : Nat) (fault : Fault) : Prop :=
  (∀ j ≤ k, (s.stepped j).isRunning = true) ∧ (s.stepped k).step.1 = .error fault

section
variable {s : Simulator} {k : Nat} {fault : Fault}

theorem stepped_eq_after : s.stepped k = s.after k := rfl

theorem HaltsWith.stopsAfter (h : s.HaltsWith k) : s.StopsAfter k :=
  ⟨h.1, by rw [isRunning, ← stepped_eq_after, h.2]; rfl⟩

theorem HaltsWith.count_eq (hs : s.isRunning = true) (h : s.HaltsWith k) :
    (s.stepped k).count = s.count + .ofNat k := by
  obtain ⟨j, rfl, hj⟩ := h.stopsAfter.exists_succ hs
  have hstatus : (s.after (j + 1)).status = .halted := h.2
  rw [stepped_eq_after]
  rcases after_succ_cases hj with ⟨_, -, he⟩ | ⟨-, n, he⟩ | ⟨-, -, n, he⟩
  · rw [he] at hstatus
    cases hstatus
  · rw [he]
  · rw [he]

theorem completed_of_count_ofMachine {m : Machine} (h : s.count = (ofMachine m).count + .ofNat k) :
    s.completed = k % 2 ^ 64 := by
  rw [completed_of_count h]
  exact congrArg (· % 2 ^ 64) (Nat.zero_add k)

theorem HaltsWith.completed_ofMachine {m : Machine} (h : (ofMachine m).HaltsWith k) :
    ((ofMachine m).stepped k).completed = k % 2 ^ 64 :=
  completed_of_count_ofMachine (h.count_eq rfl)

theorem FaultsAfter.refuses (h : s.FaultsAfter k fault) : (s.after k).machine.Refuses fault := by
  have hk : (s.after k).isRunning = true := h.1 k le_rfl
  have hstep : (s.after k).cycle.1.map (fun _ => ()) = .error fault := h.2
  rcases cycle_cases hk with ⟨fault', hf, he⟩ | ⟨-, c, n, he⟩ | ⟨-, -, c, n, he⟩ <;>
    rw [he] at hstep <;> cases hstep
  exact hf

theorem FaultsAfter.after_succ (h : s.FaultsAfter k fault) :
    s.after (k + 1) = ⟨(s.after k).machine, s.count + .ofNat k, .faulted fault⟩ :=
  after_succ_of_refuses (h.1 k le_rfl) h.refuses

theorem FaultsAfter.count_eq (h : s.FaultsAfter k fault) :
    (s.stepped (k + 1)).count = s.count + .ofNat k := by
  rw [stepped_eq_after, h.after_succ]

theorem FaultsAfter.stopsAfter (h : s.FaultsAfter k fault) : s.StopsAfter (k + 1) :=
  stopsAfter_succ (h.1 k le_rfl) (by rw [h.after_succ]; rfl)

theorem StopsAfter.halts_or_faults (h : s.isRunning = true) {n : Nat} (hn : s.StopsAfter n) :
    s.HaltsWith n ∨ ∃ k < n, ∃ fault, s.FaultsAfter k fault := by
  obtain ⟨k, rfl, hk⟩ := hn.exists_succ h
  have hstop := hn.2
  rcases after_succ_cases hk with ⟨fault, hf, -⟩ | ⟨-, n, he⟩ | ⟨-, -, n, he⟩
  · refine .inr ⟨k, k.lt_succ_self, fault, fun j hj => hn.1 j (Nat.lt_succ_of_le hj), ?_⟩
    show (s.after k).cycle.1.map (fun _ => ()) = .error fault
    rw [cycle_of_refuses hk hf]
    rfl
  · exact .inl ⟨hn.1, by rw [stepped_eq_after, he]⟩
  · rw [he] at hstop
    cases hstop

theorem isRunning_after (h : s.isRunning = true) {n : Nat} (hhalt : ∀ k ≤ n, ¬ s.HaltsWith k)
    (hfault : ∀ k < n, ∀ fault, ¬ s.FaultsAfter k fault) : (s.after n).isRunning = true := by
  by_contra hr
  obtain ⟨k, hle, hk⟩ := exists_stopsAfter (Bool.eq_false_of_not_eq_true hr)
  rcases hk.halts_or_faults h with hh | ⟨j, hj, fault, hf⟩
  · exact hhalt k hle hh
  · exact hfault j (Nat.lt_of_lt_of_le hj hle) fault hf

theorem status_after (hk : (s.after (k + 1)).isRunning = true) :
    (s.after (k + 1)).status = .running := by
  have hr := isRunning_of_le hk k.le_succ
  rcases after_succ_cases hr with ⟨_, -, he⟩ | ⟨-, n, he⟩ | ⟨-, -, n, he⟩ <;>
    rw [he] at hk ⊢ <;> cases hk

/-! ### Ends of a run -/

theorem le_getD {limit : Option Nat} {n fuel : Nat} (hl : ∀ l ∈ limit, n ≤ l) (hfuel : n ≤ fuel) :
    n ≤ limit.getD fuel := by
  cases limit with
  | none => exact hfuel
  | some l => exact hl l rfl

theorem runWithin_of_halts (hs : s.isRunning = true) (h : s.HaltsWith k) {limit : Option Nat}
    (hl : ∀ l ∈ limit, k ≤ l) (trace : Bool) {fuel : Nat} (hfuel : k ≤ fuel) :
    s.runWithin fuel trace limit = some ⟨s.recorded trace k, none, s.stepped k⟩ ∧
      s.run fuel = some (.ok (), s.stepped k) := by
  have hle := le_getD hl hfuel
  have hv : (s.after k).verdict = .ok () := by rw [verdict, ← stepped_eq_after, h.2]
  constructor
  · rw [runWithin_of_stopsAfter hs h.stopsAfter hle, failure_of_verdict_ok hv, stepped_eq_after]
  · rw [run_of_stopsAfter h.stopsAfter hfuel, hv, stepped_eq_after]

theorem FaultsAfter.recorded_succ (h : s.FaultsAfter k fault) (trace : Bool) :
    s.recorded trace (k + 1) = s.recorded trace k := by
  have hk : (s.after k).isRunning = true := h.1 k le_rfl
  have hc := cycle_of_refuses hk h.refuses
  have hnone : (s.after k).completedCycles 1 = [] := by
    rw [completedCycles_succ, completes?_of_cycle hc]
    rfl
  rw [recorded, recorded, completedCycles_add, hnone, List.append_nil]

theorem runWithin_of_faults (hs : s.isRunning = true) (h : s.FaultsAfter k fault)
    {limit : Option Nat} (hl : ∀ l ∈ limit, k < l) (trace : Bool) {fuel : Nat} (hfuel : k < fuel) :
    s.runWithin fuel trace limit =
        some ⟨s.recorded trace k, some (.faulted fault (s.stepped k).machine.pc),
          s.stepped (k + 1)⟩ ∧
      s.run fuel = some (.error fault, s.stepped (k + 1)) := by
  have hle : k + 1 ≤ limit.getD fuel := le_getD hl hfuel
  have hv : (s.after (k + 1)).verdict = .error fault := by rw [h.after_succ]; rfl
  constructor
  · rw [runWithin_of_stopsAfter hs h.stopsAfter hle, failure_of_verdict_error hv, h.recorded_succ,
      stepped_eq_after, stepped_eq_after, h.after_succ]
  · rw [run_of_stopsAfter h.stopsAfter hfuel, hv, stepped_eq_after]

theorem runWithin_of_isRunning {l : Nat} (h : (s.after l).isRunning = true) (trace : Bool)
    (fuel : Nat) : s.runWithin fuel trace (some l) =
      some ⟨s.recorded trace l, some (.limitReached l), s.stepped l⟩ := by
  have hs : s.isRunning = true := isRunning_of_le h l.zero_le
  rw [runWithin_eq hs, Option.getD_some, if_pos h]
  rfl

/-- The ways in which a program that runs can end, each with the progress made. -/
theorem runWithin_cases (hs : s.isRunning = true) {fuel : Nat} {trace : Bool} {limit : Option Nat}
    {p : Progress} (h : s.runWithin fuel trace limit = some p) :
    (∃ k, s.HaltsWith k ∧ (∀ l ∈ limit, k ≤ l) ∧
      p = ⟨s.recorded trace k, none, s.stepped k⟩) ∨
    (∃ k fault, s.FaultsAfter k fault ∧ (∀ l ∈ limit, k < l) ∧
      p = ⟨s.recorded trace k, some (.faulted fault (s.stepped k).machine.pc),
        s.stepped (k + 1)⟩) ∨
    ∃ l, limit = some l ∧ (s.stepped l).isRunning = true ∧
      p = ⟨s.recorded trace l, some (.limitReached l), s.stepped l⟩ := by
  have hlimit : ∀ n ≤ limit.getD fuel, ∀ l ∈ limit, n ≤ l := by
    rintro n hn l rfl
    exact hn
  by_cases hrun : (s.after (limit.getD fuel)).isRunning = true
  · cases limit with
    | none => rw [runWithin_eq hs, if_pos hrun] at h; cases h
    | some l =>
      rw [runWithin_of_isRunning (l := l) hrun] at h
      exact .inr (.inr ⟨l, rfl, hrun, (Option.some.inj h).symm⟩)
  · obtain ⟨n, hn, hstop⟩ := exists_stopsAfter (Bool.eq_false_of_not_eq_true hrun)
    rcases hstop.halts_or_faults hs with hhalt | ⟨k, hk, fault, hfault⟩
    · have hnone : (s.after n).failure = none := by rw [failure, ← stepped_eq_after, hhalt.2]
      rw [runWithin_of_stopsAfter hs hstop hn, hnone] at h
      exact .inl ⟨n, hhalt, hlimit n hn, (Option.some.inj h).symm⟩
    · have hle : k + 1 ≤ limit.getD fuel := Nat.lt_of_lt_of_le hk hn
      have hsome : (s.after (k + 1)).failure = some (.faulted fault (s.stepped k).machine.pc) := by
        rw [hfault.after_succ]
        rfl
      rw [runWithin_of_stopsAfter hs hfault.stopsAfter hle, hsome, hfault.recorded_succ] at h
      exact .inr (.inl ⟨k, fault, hfault, hlimit _ hle, (Option.some.inj h).symm⟩)

end

/-- A fresh machine is driven to the same end with or without a record, and as without a limit if it
halts within the limit or faults before it. In every other case it has run as many instructions as
the limit allows. -/
theorem runWithin_ofMachine (m : Machine) (trace : Bool) (limit : Option Nat) :
    let s := ofMachine m
    (∀ k, s.HaltsWith k → (∀ l ∈ limit, k ≤ l) → ∀ fuel ≥ k,
      s.runWithin fuel trace limit = some ⟨s.recorded trace k, none, s.stepped k⟩ ∧
        s.run fuel = some (.ok (), s.stepped k) ∧ (s.stepped k).completed = k % 2 ^ 64) ∧
    (∀ k fault, s.FaultsAfter k fault → (∀ l ∈ limit, k < l) → ∀ fuel > k,
      s.runWithin fuel trace limit =
          some ⟨s.recorded trace k, some (.faulted fault (s.stepped k).machine.pc),
            s.stepped (k + 1)⟩ ∧
        s.run fuel = some (.error fault, s.stepped (k + 1)) ∧
        (s.stepped (k + 1)).completed = k % 2 ^ 64) ∧
    (∀ l ∈ limit, (∀ k ≤ l, ¬ s.HaltsWith k) → (∀ k < l, ∀ fault, ¬ s.FaultsAfter k fault) →
      ∀ fuel, s.runWithin fuel trace limit =
          some ⟨s.recorded trace l, some (.limitReached l), s.stepped l⟩ ∧
        (s.stepped l).completed = l % 2 ^ 64 ∧
        (s.stepped l).status = if l = 0 then .idle else .running) ∧
    (limit = none → (∀ k, ¬ s.HaltsWith k) → (∀ k fault, ¬ s.FaultsAfter k fault) →
      ∀ fuel, s.runWithin fuel trace limit = none ∧ s.run fuel = none) := by
  intro s
  have hs : s.isRunning = true := rfl
  refine ⟨?_, ?_, ?_, ?_⟩
  · intro k h hl fuel hfuel
    obtain ⟨hlimited, hrun⟩ := runWithin_of_halts hs h hl trace hfuel
    exact ⟨hlimited, hrun, h.completed_ofMachine⟩
  · intro k fault h hl fuel hfuel
    obtain ⟨hlimited, hrun⟩ := runWithin_of_faults hs h hl trace hfuel
    exact ⟨hlimited, hrun, completed_of_count_ofMachine h.count_eq⟩
  · rintro l rfl hhalt hfault fuel
    have hrun := isRunning_after hs hhalt hfault
    refine ⟨runWithin_of_isRunning hrun trace fuel, ?_, ?_⟩
    · exact completed_of_count_ofMachine (count_after hrun)
    · cases l with
      | zero => rfl
      | succ k => exact status_after hrun
  · rintro rfl hhalt hfault fuel
    have hrun := isRunning_after hs (fun k _ => hhalt k) (n := fuel) fun k _ => hfault k
    exact ⟨by rw [runWithin_eq hs, Option.getD_none, if_pos hrun]; rfl, run_eq_none_iff.2 hrun⟩

/-- A program that adds one and halts. -/
def addThenHalt : Machine :=
  (Machine.initial.writeMemory 0 0x1021).writeMemory 1 0xF025

/-- Halting with the last instruction of a limit, and a limit reached before a fault. -/
theorem runWithin_at_limit :
    let s := ofMachine addThenHalt
    let t := ofMachine addThenReturn
    (s.HaltsWith 2 ∧ (∀ l ∈ some 2, 2 ≤ l) ∧ ∀ fuel ≥ 2,
      s.runWithin fuel true (some 2) = some ⟨s.recorded true 2, none, s.stepped 2⟩) ∧
    (t.FaultsAfter 1 (.unprivileged .rti 0x8000) ∧ (∀ l ∈ some 2, 1 < l) ∧ ∀ fuel > 1,
      t.runWithin fuel true (some 2) = some ⟨t.recorded true 1,
        some (.faulted (.unprivileged .rti 0x8000) (t.stepped 1).machine.pc), t.stepped 2⟩) ∧
    ((∀ k ≤ 1, ¬ t.HaltsWith k) ∧ (∀ k < 1, ∀ fault, ¬ t.FaultsAfter k fault) ∧ ∀ fuel,
      t.runWithin fuel true (some 1) =
        some ⟨t.recorded true 1, some (.limitReached 1), t.stepped 1⟩) := by
  intro s t
  have hhalt : s.HaltsWith 2 := ⟨by decide, by decide⟩
  have hfault : t.FaultsAfter 1 (.unprivileged .rti 0x8000) := ⟨by decide, rfl⟩
  have hgoes : ∀ k ≤ 1, (t.stepped k).status ≠ .halted := by decide
  have hnot : ∀ k ≤ 1, ¬ t.HaltsWith k := fun k hk h => hgoes k hk h.2
  have hgood : ∀ k < 1, ∀ fault, ¬ t.FaultsAfter k fault := by
    rintro k hk fault ⟨-, h⟩
    obtain rfl : k = 0 := by omega
    cases h
  obtain ⟨hs, -⟩ := runWithin_ofMachine addThenHalt true (some 2)
  obtain ⟨-, ht, -⟩ := runWithin_ofMachine addThenReturn true (some 2)
  obtain ⟨-, -, hl, -⟩ := runWithin_ofMachine addThenReturn true (some 1)
  refine ⟨⟨hhalt, by decide, fun fuel hfuel => ?_⟩, ⟨hfault, by decide, fun fuel hfuel => ?_⟩,
    hnot, hgood, fun fuel => ?_⟩
  · exact (hs 2 hhalt (by decide) fuel hfuel).1
  · exact (ht 1 _ hfault (by decide) fuel hfuel).1
  · exact (hl 1 rfl hnot hgood fuel).1

end Simulator
end Lc3
