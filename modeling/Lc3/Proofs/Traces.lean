import Lc3.Proofs.Transcripts

/-! # Traces

A run with a trace shows a line for each instruction that it completes. `Machine.traceLine` writes
the line from the machine as it is before the instruction, so that a word that overwrites itself is
still shown as it was run. `Simulator.EndsAfter` tells with how many instructions completed a
program ends, and `trace_lists_completed_instructions` that the trace has just their lines, in
order, and that nothing else of a run changes when it is traced. -/

namespace Lc3
open Terminal

/-- The names of the opcodes in the order of their numbers. -/
def Table.opcodeNames : List String :=
  ["BR", "ADD", "LD", "ST", "JSR", "AND", "LDR", "STR", "RTI", "NOT", "LDI", "STI", "JMP",
    "INVALID", "LEA", "TRAP"]

theorem Table.getD_opcodeNames (w : Word) :
    Table.opcodeNames.getD (Table.opcode w) "" = (Opcode.ofWord w).name := by
  rw [opcode_eq_ctorIdx]
  cases Opcode.ofWord w <;> rfl

namespace Machine

/-- The line that shows the next instruction of the machine. -/
def traceLine (m : Machine) : String :=
  "x" ++ numeral hexSymbols 4 m.pc.toNat ++ "  " ++ numeral binarySymbols 16 m.fetched.toNat ++
    "  " ++ Table.opcodeNames.getD (Table.opcode m.fetched) "" ++ "\n"

variable (m : Machine)

theorem escape_notMem_traceLine : escape ∉ m.traceLine.toList := by
  have hpc : escape ∉ (numeral hexSymbols 4 m.pc.toNat).toList :=
    fun h => absurd (mem_symbols_of_mem_numeral (by decide) h) (by decide)
  have hword : escape ∉ (numeral binarySymbols 16 m.fetched.toNat).toList :=
    fun h => absurd (mem_symbols_of_mem_numeral (by decide) h) (by decide)
  rw [traceLine, Table.getD_opcodeNames]
  exact escape_notMem_around
    (escape_notMem_around (escape_notMem_around (by decide) hpc (by decide)) hword
      (by decide)) (Dump.escape_notMem_name _) (by decide)

theorem count_newline_traceLine : m.traceLine.toList.count '\n' = 1 := by
  have hpc : '\n' ∉ (numeral hexSymbols 4 m.pc.toNat).toList :=
    fun h => absurd (mem_symbols_of_mem_numeral (by decide) h) (by decide)
  have hword : '\n' ∉ (numeral binarySymbols 16 m.fetched.toNat).toList :=
    fun h => absurd (mem_symbols_of_mem_numeral (by decide) h) (by decide)
  have hname : ∀ o : Opcode, '\n' ∉ o.name.toList := by
    intro o
    cases o <;> decide
  rw [traceLine, Table.getD_opcodeNames]
  simp only [String.toList_append, List.count_append, List.count_eq_zero_of_not_mem hpc,
    List.count_eq_zero_of_not_mem hword, List.count_eq_zero_of_not_mem (hname _)]
  decide

end Machine

namespace Simulator

/-- The ways in which a program ends under a limit, with the number of instructions that it has
completed, and its failure if there is one. The last of them may be the halting trap, or the next
may be the word that faults or the one that the limit refuses. -/
inductive EndsAfter (s : Simulator) (limit : Option Nat) : Nat → Option Failure → Prop
  | halted {k : Nat} : s.HaltsWith (k + 1) → (s.stepped k).machine.AtHalt →
    (∀ l ∈ limit, k + 1 ≤ l) → s.EndsAfter limit (k + 1) none
  | faulted {n : Nat} {fault : Fault} : s.FaultsAfter n fault →
    (s.stepped n).machine.Refuses fault → (∀ l ∈ limit, n < l) →
    s.EndsAfter limit n (some (.faulted fault (s.stepped n).machine.pc))
  | reached {n : Nat} : limit = some n → (s.stepped n).isRunning = true →
    s.EndsAfter limit n (some (.limitReached n))

section
variable {s : Simulator}

theorem exists_completed (h : s.isRunning = true)
    (hnext : s.cycle.2.isRunning = true ∨ s.cycle.2.status = .halted) :
    ∃ c, s.cycle.1 = .ok (some c) := by
  rcases cycle_cases h with ⟨fault, -, he⟩ | ⟨-, c, _, he⟩ | ⟨-, -, c, _, he⟩
  · rw [he] at hnext
    rcases hnext with hr | hh
    · cases hr
    · cases hh
  · exact ⟨c, by rw [he]⟩
  · exact ⟨c, by rw [he]⟩

theorem HaltsWith.exists_atHalt (hs : s.isRunning = true) {n : Nat} (h : s.HaltsWith n) :
    ∃ k, n = k + 1 ∧ (s.stepped k).machine.AtHalt := by
  obtain ⟨k, rfl, hk⟩ := h.stopsAfter.exists_succ hs
  have hstatus : (s.after (k + 1)).status = .halted := h.2
  rcases after_succ_cases hk with ⟨_, -, he⟩ | ⟨hh, -⟩ | ⟨-, -, _, he⟩
  · rw [he] at hstatus
    cases hstatus
  · exact ⟨k, rfl, hh⟩
  · rw [he] at hstatus
    cases hstatus

theorem exists_endsAfter (hs : s.isRunning = true) {fuel : Nat} {trace : Bool}
    {limit : Option Nat} {p : Progress} (h : s.runWithin fuel trace limit = some p) :
    ∃ n, s.EndsAfter limit n p.failure ∧ p.cycles = s.recorded trace n := by
  rcases runWithin_cases hs h with ⟨n, hn, hl, rfl⟩ | ⟨n, fault, hn, hl, rfl⟩ | ⟨n, hl, hn, rfl⟩
  · obtain ⟨k, rfl, hk⟩ := hn.exists_atHalt hs
    exact ⟨k + 1, .halted hn hk hl, rfl⟩
  · exact ⟨n, .faulted hn hn.refuses hl, rfl⟩
  · exact ⟨n, .reached hl hn, rfl⟩

namespace EndsAfter
variable {limit : Option Nat} {n : Nat} {failure? : Option Failure}

theorem count_eq (hs : s.isRunning = true) (h : s.EndsAfter limit n failure?) :
    (s.stepped n).count = s.count + .ofNat n := by
  cases h with
  | halted hn _ _ => exact hn.count_eq hs
  | faulted hn _ _ => exact count_after (hn.1 n le_rfl)
  | reached _ hn => exact count_after hn

theorem ends (h : s.EndsAfter limit n failure?) : s.Ends limit failure? := by
  cases h with
  | halted hn _ hl => exact .halted hn hl
  | faulted hn _ hl => exact .faulted hn hl
  | reached hl hn =>
    refine .reached hl (fun k hk hhalt => ?_) (fun k hk fault hfault => ?_)
    · have hr : (s.stepped k).isRunning = true := isRunning_of_le hn hk
      rw [isRunning, hhalt.2] at hr
      cases hr
    · have hr : (s.after (k + 1)).isRunning = true := isRunning_of_le hn hk
      rw [hfault.after_succ] at hr
      cases hr

theorem exists_completed (h : s.EndsAfter limit n failure?) {i : Nat} (hi : i < n) :
    ∃ c, (s.stepped i).cycle.1 = .ok (some c) := by
  have hnext : (s.stepped i).cycle.2 = s.after (i + 1) := (after_succ s i).symm
  cases h with
  | @halted k hk _ _ =>
    refine Simulator.exists_completed (hk.1 i hi) ?_
    rw [hnext]
    rcases Nat.lt_succ_iff_lt_or_eq.1 hi with hlt | rfl
    · exact .inl (hk.1 (i + 1) (Nat.succ_lt_succ hlt))
    · exact .inr hk.2
  | faulted hn _ _ =>
    refine Simulator.exists_completed (hn.1 i hi.le) (.inl ?_)
    rw [hnext]
    exact hn.1 (i + 1) hi
  | reached _ hn =>
    refine Simulator.exists_completed (isRunning_of_le hn hi.le) (.inl ?_)
    rw [hnext]
    exact isRunning_of_le hn hi

end EndsAfter

/-! ### Lines -/

theorem dump_cycle {c : Cycle} (h : s.cycle.1 = .ok (some c)) :
    Dump.cycle c = s.machine.traceLine := by
  rcases cycle_eq_cases s with ⟨hr, -⟩ | ⟨-, fault, -, he⟩ | ⟨-, i, hi, he⟩
  · have hnone := completes?_of_not_isRunning hr
    rw [completes?, h] at hnone
    cases hnone
  · rw [he] at h
    cases h
  · rw [he] at h
    cases h
    have ho : i.opcode = Opcode.ofWord s.machine.fetched :=
      Instruction.opcode_of_decode (Instruction.decodeFor_eq_ok_iff.1 hi).1
    rw [Machine.traceLine, Table.getD_opcodeNames, ← ho, ← Word.toUpperHex_eq_numeral,
      ← Word.toBinary_eq_numeral]
    rfl

/-- The lines of the first `n` instructions. -/
def traceLines (s : Simulator) (n : Nat) : List String :=
  (List.range n).map fun i => (s.stepped i).machine.traceLine

theorem map_dump_completedCycles {n : Nat}
    (h : ∀ i < n, ∃ c, (s.stepped i).cycle.1 = .ok (some c)) :
    (s.completedCycles n).map Dump.cycle = s.traceLines n := by
  -- Each of the cycles is in the list, so that the `i`th line is that of the `i`th cycle.
  rw [completedCycles, List.map_filterMap, traceLines, ← List.filterMap_eq_map]
  refine List.filterMap_congr fun i hi => ?_
  obtain ⟨c, hc⟩ := h i (List.mem_range.1 hi)
  have hsome : (s.after i).completes? = some c := by
    rw [completes?, ← stepped_eq_after, hc]
  rw [hsome, Option.map_some, dump_cycle hc]
  rfl

theorem stripEscapes_traceLines (s : Simulator) (n : Nat) :
    (s.traceLines n).map stripEscapes = s.traceLines n := by
  rw [traceLines, List.map_map]
  exact List.map_congr_left fun i _ =>
    stripEscapes_of_notMem (s.stepped i).machine.escape_notMem_traceLine

theorem count_newline_traceLines (s : Simulator) (n : Nat) :
    (String.join (s.traceLines n)).toList.count '\n' = n := by
  induction n with
  | zero => rfl
  | succ n ih =>
    rw [traceLines, List.range_succ, List.map_append, String.join_append, String.toList_append,
      List.count_append]
    have hlast := (s.stepped n).machine.count_newline_traceLine
    rw [List.map_singleton, String.join_cons, String.join_nil, String.append_empty, hlast]
    exact congrArg (· + 1) ih

end

end Simulator

namespace CommandLine

theorem tracing_changes_trace_only {trace : Option String} (htrace : trace ≠ some "1") (fuel : Nat)
    (environment : Environment) (files : Files) (path : String) (options : RunOptions) :
    (Command.run path options).perform fuel { environment with trace := trace } files =
      ((Command.run path options).perform fuel { environment with trace := some "1" } files).map
        (Outcome.mapTranscript Transcript.withoutTrace) := by
  cases hstart : Start.ofOptions files path options with
  | error failure =>
    rw [Command.perform_run_of_error _ _ hstart, Command.perform_run_of_error _ _ hstart,
      Option.map_some, Outcome.mapTranscript_of]
    rfl
  | ok start =>
    have hoff : ({ environment with trace := trace } : Environment).settings.trace = false :=
      beq_eq_false_iff_ne.2 htrace
    rw [Command.perform_run_of_ok _ _ hstart, Command.perform_run_of_ok _ _ hstart, hoff,
      Simulator.runWithin_eq_map (Start.isRunning_simulator hstart), Option.map_map, Option.map_map]
    congr 1
    funext p
    rw [Function.comp, Function.comp, Outcome.mapTranscript_of]
    rfl

/-- The trace of a run that ends has lines for the instructions that were completed. -/
theorem exists_endsAfter_of_perform {start : Start} {files : Files} {path : String}
    {options : RunOptions}
    (hstart : Start.ofOptions files path options = .ok start) {environment : Environment}
    (htrace : environment.settings.trace = true) {fuel : Nat} {outcome : Outcome}
    (h : (Command.run path options).perform fuel environment files = some outcome) :
    ∃ n, start.simulator.EndsAfter options.limit n outcome.failure? ∧
      stripEscapes outcome.transcript.trace = String.join (start.simulator.traceLines n) := by
  rw [Command.perform_run_of_ok _ _ hstart, htrace] at h
  obtain ⟨p, hp, rfl⟩ := Option.map_eq_some_iff.1 h
  obtain ⟨n, hends, hcycles⟩ :=
    Simulator.exists_endsAfter (Start.isRunning_simulator hstart) hp
  have hpieces : p.cycles.map Dump.cycle = start.simulator.traceLines n := by
    rw [hcycles, Simulator.recorded, if_pos rfl]
    exact Simulator.map_dump_completedCycles fun i hi => hends.exists_completed hi
  have hclosed : ∀ piece ∈ p.cycles.map Dump.cycle, IsClosed piece :=
    List.forall_mem_map.2 fun c _ => Dump.isClosed_cycle c
  rw [Outcome.transcript_of, Outcome.failure?_of]
  refine ⟨n, hends, ?_⟩
  rw [Command.runTranscript, Display.stripEscapes_renderAll _ _ hclosed,
    Display.renderAll_of_isPlain _ _ (by simp [Display.withoutColor, Display.isPlain]), hpieces,
    Simulator.stripEscapes_traceLines]

/-- A run answers the same with a trace as without. The trace of a program that ends has a line for
each instruction that it has completed, in order, as it was before it was run. -/
theorem trace_lists_completed_instructions (environment : Environment) (files : Files)
    (path : String) (options : RunOptions) :
    let command := Command.run path options
    let traced := fun fuel =>
      command.perform fuel { environment with trace := some "1" } files
    (∀ trace, trace ≠ some "1" → ∀ fuel,
      command.perform fuel { environment with trace := trace } files =
        (traced fuel).map (Outcome.mapTranscript Transcript.withoutTrace)) ∧
    (∀ failure, Start.ofOptions files path options = .error failure → ∀ fuel, ∃ results,
      traced fuel = some (.failed ⟨results, ""⟩ failure)) ∧
    ∀ start, Start.ofOptions files path options = .ok start →
      let s := start.simulator
      (∀ n failure?, s.EndsAfter options.limit n failure? → ∃ least, ∀ fuel ≥ least,
        ∃ outcome, traced fuel = some outcome ∧ outcome.failure? = failure?) ∧
      ∀ fuel outcome, traced fuel = some outcome → ∃ n,
        let shown := stripEscapes outcome.transcript.trace
        s.EndsAfter options.limit n outcome.failure? ∧
        (∀ i < n, ∃ c, (s.stepped i).cycle.1 = .ok (some c)) ∧
        (s.stepped n).completed = n % 2 ^ 64 ∧
        shown = String.join ((List.range n).map fun i => (s.stepped i).machine.traceLine) ∧
        shown.toList.count '\n' = n := by
  intro command traced
  refine ⟨fun trace htrace fuel => ?_, fun failure hstart fuel => ?_, fun start hstart => ?_⟩
  · exact tracing_changes_trace_only htrace fuel environment files path options
  · exact ⟨_, Command.perform_run_of_error _ _ hstart⟩
  · obtain ⟨m, hm⟩ := Start.exists_simulator_eq hstart
    have hs := Start.isRunning_simulator hstart
    refine ⟨fun n failure? hends => ?_, fun fuel outcome houtcome => ?_⟩
    · obtain ⟨least, hleast⟩ := hends.ends.exists_runWithin hs true
      refine ⟨least, fun fuel hfuel => ?_⟩
      obtain ⟨p, hp, rfl⟩ := hleast fuel hfuel
      have houtcome := Command.perform_run_of_ok { environment with trace := some "1" } fuel hstart
      exact ⟨_, houtcome.trans (congrArg (Option.map _) hp), Outcome.failure?_of _ _⟩
    · obtain ⟨n, hends, hshown⟩ := exists_endsAfter_of_perform hstart rfl houtcome
      have hzero : start.simulator.count = (Simulator.ofMachine m).count := by rw [hm]
      have hcompleted := Simulator.completed_of_count_ofMachine (hzero ▸ hends.count_eq hs)
      refine ⟨n, hends, fun i hi => hends.exists_completed hi, hcompleted, hshown, ?_⟩
      rw [hshown, Simulator.count_newline_traceLines]

/-- The first instruction overwrites itself, the second halts, and the limit is one. -/
theorem trace_of_overwriting :
    let environment : Environment := { forceColor := some "1" }
    let files : Files := fun _ => .ok "0\n0011000111111111\n1111000000100101".toUTF8
    let command := Command.run "store.txt" { limit := some 1 }
    let results := "\x1b[32m     Loading\x1b[0m target store.txt\n" ++
      "\x1b[32m     Running\x1b[0m from x0000\n"
    let trace := "\x1b[34mx0000  0011000111111111  ST\n\x1b[0m"
    let s := Simulator.ofMachine (Start.machine false [] ⟨0, [0x31FF, 0xF025]⟩)
    command.perform 1 { environment with trace := some "1" } files =
        some (.failed ⟨results, trace⟩ (.limitReached 1)) ∧
      command.perform 1 { environment with trace := some "yes" } files =
        some (.failed ⟨results, ""⟩ (.limitReached 1)) ∧
      stripEscapes trace = s.machine.traceLine ∧ (s.stepped 1).machine.readMemory 0 = 0 := by
  intro environment files command results trace s
  have htraced : command.perform 1 { environment with trace := some "1" } files =
      some (.failed ⟨results, trace⟩ (.limitReached 1)) := by
    decide +kernel
  have hstart : Start.ofOptions files "store.txt" { limit := some 1 } = .ok ⟨0, s, []⟩ := rfl
  obtain ⟨huntraced, -, hlisted⟩ :=
    trace_lists_completed_instructions environment files "store.txt" { limit := some 1 }
  obtain ⟨n, -, -, -, hshown, hcount⟩ := (hlisted _ hstart).2 1 _ htraced
  have hn : n = 1 := hcount.symm.trans (by decide +kernel)
  subst hn
  refine ⟨htraced, ?_, hshown, by decide +kernel⟩
  rw [huntraced (some "yes") (by decide) 1]
  exact congrArg (Option.map _) htraced

end CommandLine
end Lc3
