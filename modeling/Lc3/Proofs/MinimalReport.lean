import Lc3.Proofs.Transcripts

/-! # Minimal reports

A run in minimal mode prints nothing before its program has halted, and then the number of
instructions and the machine that they have left, one value on a line. `minimalReport` writes these
lines from the count, the machine and the addresses that are asked for, and
`minimal_run_reports_machine` says that this is all that such a run prints. So the environment has
no influence on it, and neither has the name of the file. -/

namespace Lc3.CommandLine
open Terminal

def conditionDigits : Condition → String
  | .negative => "100"
  | .zero => "010"
  | .positive => "001"
  | .unset => "000"

/-- The lines that show a machine after `k` instructions, and its words at the addresses. -/
def minimalReport (k : Nat) (m : Machine) (addresses : List Word) : String :=
  "processed " ++ toString k ++ "\n" ++
    String.join ((List.finRange 8).map fun r =>
      "R" ++ toString r.val ++ " " ++ numeral binarySymbols 16 (m.readRegister r).toNat ++ "\n") ++
    ("PC " ++ numeral binarySymbols 16 m.pc.toNat ++ "\n") ++
    ("CC " ++ conditionDigits m.condition ++ "\n") ++
    String.join (addresses.map fun a =>
      "x" ++ numeral hexSymbols 4 a.toNat ++ " " ++
        numeral binarySymbols 16 (m.readMemory a).toNat ++ "\n")

theorem binaryText_mask (c : Condition) : binaryText c.mask = conditionDigits c := by
  cases c <;> rfl

theorem join_minimalRegisters (m : Machine) : String.join (Dump.minimalRegisters m) =
    String.join ((List.finRange 8).map fun r =>
      "R" ++ toString r.val ++ " " ++ numeral binarySymbols 16 (m.readRegister r).toNat ++ "\n") ++
    ("PC " ++ numeral binarySymbols 16 m.pc.toNat ++ "\n") ++
    ("CC " ++ conditionDigits m.condition ++ "\n") := by
  simp only [Dump.minimalRegisters, Word.toBinary_eq_numeral, binaryText_mask]
  rw [String.join_append, String.join_cons, String.join_cons, String.join_nil, String.append_empty,
    ← String.append_assoc]
  rfl

theorem join_minimalMemory (m : Machine) (addresses : List Word) :
    String.join (addresses.flatMap (Dump.memory true m)) =
      String.join (addresses.map fun a => "x" ++ numeral hexSymbols 4 a.toNat ++ " " ++
        numeral binarySymbols 16 (m.readMemory a).toNat ++ "\n") := by
  have hmemory : Dump.memory true m = fun a => ["x" ++ numeral hexSymbols 4 a.toNat ++ " " ++
      numeral binarySymbols 16 (m.readMemory a).toNat ++ "\n"] := by
    funext a
    rw [← Word.toUpperHex_eq_numeral, ← Word.toBinary_eq_numeral, Dump.minimalMemory_eq]
  rw [hmemory, ← List.map_eq_flatMap]

section
variable {d : Display} (hd : d.minimal = true)
include hd

theorem summary_of_minimal (s : Simulator) (dumps : List Word) :
    Command.summary d s dumps = minimalReport s.completed s.machine dumps := by
  have hpieces : ∀ p ∈ [s!"processed {s.completed}\n"] ++ Dump.minimalRegisters s.machine ++
      dumps.flatMap (Dump.memory true s.machine), escape ∉ p.toList := by
    simp only [List.forall_mem_append, List.forall_mem_flatMap, List.forall_mem_singleton]
    refine ⟨⟨?_, fun p hp => ?_⟩, fun a _ p hp => ?_⟩
    · exact escape_notMem_around (by decide) (escape_notMem_natRepr s.completed) (by decide)
    · exact Dump.escape_notMem_of_mem_minimalRegisters s.machine p hp
    · exact Dump.escape_notMem_of_mem_minimalMemory s.machine a p hp
  rw [Command.summary, d.statusLine_of_minimal .cyan hd, hd, String.empty_append, if_pos rfl,
    Dump.registers, if_pos rfl, d.renderAll_of_minimal .result hd hpieces, String.join_append,
    String.join_append, String.join_cons, String.join_nil, String.append_empty, join_minimalMemory,
    join_minimalRegisters, minimalReport]
  simp only [String.append_assoc]
  rfl

theorem runResults_of_minimal (path : String) (start : Start) (p : Progress) :
    Command.runResults d path start p =
      match p.failure with
      | some _ => ""
      | none => minimalReport p.simulator.completed p.simulator.machine start.dumps := by
  rw [Command.runResults, d.statusLine_of_minimal .green hd, d.statusLine_of_minimal .green hd,
    d.statusLine_of_minimal .green hd, summary_of_minimal hd]
  cases p.failure with
  | some _ => rfl
  | none => exact String.append_empty

end

theorem escape_notMem_minimalReport (s : Simulator) (dumps : List Word) :
    escape ∉ (minimalReport s.completed s.machine dumps).toList := by
  have hstrip := Command.stripEscapes_summary { minimal := true } s dumps
  rw [summary_of_minimal rfl, summary_of_minimal rfl] at hstrip
  rw [← hstrip]
  exact escape_notMem_stripEscapes _

section
variable {files : Files} {path : String} {options : RunOptions} (hmin : options.minimal = true)
  (environment : Environment) (fuel : Nat)
include hmin

theorem answer_of_minimal_error {failure : Failure}
    (h : Start.ofOptions files path options = .error failure) :
    ((Command.run path options).perform fuel environment files).map Outcome.answer =
      some ("", some failure) := by
  rw [Command.perform_run_of_error _ _ h, Option.map_some, Outcome.answer_of,
    Display.statusLine_of_minimal _ .green hmin]

theorem answer_of_minimal_ok {start : Start} (h : Start.ofOptions files path options = .ok start) :
    ((Command.run path options).perform fuel environment files).map Outcome.answer =
      (start.simulator.runWithin fuel true options.limit).map fun p =>
        (match p.failure with
          | some _ => ""
          | none => minimalReport p.simulator.completed p.simulator.machine start.dumps,
          p.failure) := by
  rw [Command.answer_perform_run_of_ok _ _ h]
  congr 1
  funext p
  rw [runResults_of_minimal (d := displayOf environment options.minimal) hmin]

/-- A run that finishes has halted, and its results are the report of the machine it has left. -/
theorem finishes_minimal_iff {results : String} :
    (∃ fuel trace, (Command.run path options).perform fuel environment files =
      some (.finished ⟨results, trace⟩)) ↔
    ∃ image pokes dumps k,
      let s := Simulator.ofMachine (Start.machine options.supervisor pokes image)
      readImage files path = .ok image ∧
      List.Forall₂ (fun text p => Poke.parse text = .ok p) options.pokes pokes ∧
      List.Forall₂ (fun text a => Address.parse text = .ok a) options.dumps dumps ∧
      s.HaltsWith k ∧ (∀ l ∈ options.limit, k ≤ l) ∧
      results = minimalReport (k % 2 ^ 64) (s.stepped k).machine dumps := by
  simp only [Outcome.exists_finished_iff]
  constructor
  · rintro ⟨fuel, hanswer⟩
    cases hstart : Start.ofOptions files path options with
    | error failure =>
      rw [answer_of_minimal_error hmin environment fuel hstart] at hanswer
      cases hanswer
    | ok start =>
      rw [answer_of_minimal_ok hmin environment fuel hstart] at hanswer
      obtain ⟨image, pokes, dumps, himage, hpokes, hdumps, rfl⟩ :=
        Start.ofOptions_eq_ok_iff.1 hstart
      obtain ⟨p, hp, heq⟩ := Option.map_eq_some_iff.1 hanswer
      rcases Simulator.runWithin_cases rfl hp with ⟨k, hk, hl, rfl⟩ | ⟨_, _, -, -, rfl⟩ |
        ⟨_, -, -, rfl⟩
      · refine ⟨image, pokes, dumps, k, himage, hpokes, hdumps, hk, hl, ?_⟩
        rw [← (Prod.mk.inj heq).1, hk.completed_ofMachine]
      · cases heq
      · cases heq
  · rintro ⟨image, pokes, dumps, k, himage, hpokes, hdumps, hk, hl, rfl⟩
    have hstart : Start.ofOptions files path options = .ok _ :=
      Start.ofOptions_eq_ok_iff.2 ⟨image, pokes, dumps, himage, hpokes, hdumps, rfl⟩
    obtain ⟨hrun, -⟩ := Simulator.runWithin_of_halts rfl hk hl true le_rfl
    refine ⟨k, ?_⟩
    rw [answer_of_minimal_ok hmin environment k hstart, hrun, Option.map_some,
      hk.completed_ofMachine]

theorem answer_of_minimal_congr (environment' : Environment) :
    ((Command.run path options).perform fuel environment files).map Outcome.answer =
      ((Command.run path options).perform fuel environment' files).map Outcome.answer := by
  cases hstart : Start.ofOptions files path options with
  | error failure =>
    rw [answer_of_minimal_error hmin environment fuel hstart,
      answer_of_minimal_error hmin environment' fuel hstart]
  | ok start =>
    rw [answer_of_minimal_ok hmin environment fuel hstart,
      answer_of_minimal_ok hmin environment' fuel hstart]

theorem escape_notMem_results_of_minimal {outcome : Outcome}
    (h : (Command.run path options).perform fuel environment files = some outcome) :
    escape ∉ outcome.transcript.results.toList := by
  have hanswer : ((Command.run path options).perform fuel environment files).map Outcome.answer =
      some outcome.answer := by
    rw [h, Option.map_some]
  show escape ∉ outcome.answer.1.toList
  cases hstart : Start.ofOptions files path options with
  | error failure =>
    rw [answer_of_minimal_error hmin environment fuel hstart] at hanswer
    rw [← Option.some.inj hanswer]
    exact List.not_mem_nil
  | ok start =>
    rw [answer_of_minimal_ok hmin environment fuel hstart] at hanswer
    obtain ⟨p, -, heq⟩ := Option.map_eq_some_iff.1 hanswer
    rw [← heq]
    cases p.failure with
    | some _ => exact List.not_mem_nil
    | none => exact escape_notMem_minimalReport p.simulator start.dumps

end

/-- A run in minimal mode that succeeds prints just the report of the machine that it leaves. In
every environment it answers the same, without any escape character. -/
theorem minimal_run_reports_machine (files : Files) (path : String) (options : RunOptions) :
    let command := Command.run path { options with minimal := true }
    (∀ environment results,
      (∃ fuel trace, command.perform fuel environment files = some (.finished ⟨results, trace⟩)) ↔
        ∃ image pokes dumps k,
          let s := Simulator.ofMachine (Start.machine options.supervisor pokes image)
          readImage files path = .ok image ∧
          List.Forall₂ (fun text p => Poke.parse text = .ok p) options.pokes pokes ∧
          List.Forall₂ (fun text a => Address.parse text = .ok a) options.dumps dumps ∧
          s.HaltsWith k ∧ (∀ l ∈ options.limit, k ≤ l) ∧
          results = minimalReport (k % 2 ^ 64) (s.stepped k).machine dumps) ∧
    (∀ environment environment' fuel,
      (command.perform fuel environment files).map Outcome.answer =
        (command.perform fuel environment' files).map Outcome.answer) ∧
    ∀ environment fuel outcome, command.perform fuel environment files = some outcome →
      escape ∉ outcome.transcript.results.toList := by
  exact ⟨fun environment _ => finishes_minimal_iff rfl environment,
    fun environment environment' fuel => answer_of_minimal_congr rfl environment fuel environment',
    fun environment fuel _ => escape_notMem_results_of_minimal rfl environment fuel⟩

/-- A program that adds five and halts, with a poked address that is asked for twice. -/
theorem minimal_report_of_halt :
    let files : Files := fun _ => .ok "0\n0001000000100101\n1111000000100101".toUTF8
    let options : RunOptions :=
      { minimal := true, limit := some 2, pokes := ["x2=0000000000000111"],
        dumps := ["2", "x0", "x2"] }
    let command := Command.run "add.txt" options
    let report := "processed 2\nR0 0000000000000101\nR1 0000000000000000\n" ++
      "R2 0000000000000000\nR3 0000000000000000\nR4 0000000000000000\nR5 0000000000000000\n" ++
      "R6 0000000000000000\nR7 0000000000000000\nPC 0000000000000010\nCC 001\n" ++
      "x0002 0000000000000111\nx0000 0001000000100101\nx0002 0000000000000111\n"
    (∀ environment, ∃ fuel trace,
      command.perform fuel environment files = some (.finished ⟨report, trace⟩)) ∧
      escape ∉ report.toList := by
  intro files options command report
  obtain ⟨hfinishes, -, hplain⟩ := minimal_run_reports_machine files "add.txt" options
  have himage : readImage files "add.txt" = .ok ⟨0, [0x1025, 0xF025]⟩ := rfl
  have hpokes : List.Forall₂ (fun text p => Poke.parse text = .ok p) options.pokes [⟨2, 7⟩] :=
    .cons rfl .nil
  have hdumps : List.Forall₂ (fun text a => Address.parse text = .ok a) options.dumps [2, 0, 2] :=
    .cons rfl (.cons rfl (.cons rfl .nil))
  let s := Simulator.ofMachine (Start.machine false [⟨2, 7⟩] ⟨0, [0x1025, 0xF025]⟩)
  have hhalts : s.HaltsWith 2 := ⟨by decide +kernel, by decide +kernel⟩
  have hlimit : ∀ l ∈ options.limit, 2 ≤ l := by simp [options]
  have hreport : report = minimalReport 2 (s.stepped 2).machine [2, 0, 2] := by decide +kernel
  have hfinished : ∀ environment, ∃ fuel trace,
      command.perform fuel environment files = some (.finished ⟨report, trace⟩) :=
    fun environment => (hfinishes environment report).2
      ⟨_, _, _, 2, himage, hpokes, hdumps, hhalts, hlimit, hreport⟩
  obtain ⟨fuel, trace, hperform⟩ := hfinished {}
  exact ⟨hfinished, hplain {} fuel (.finished ⟨report, trace⟩) hperform⟩

end Lc3.CommandLine
