import Lc3.Proofs.Dumps
import Lc3.Proofs.StagedFailure

/-! # Transcripts

What a command has shown and how it ends are looked at apart from each other here, so that two
outcomes can be compared in one of them: `Outcome.answer` leaves out the trace, and
`Outcome.mapTranscript` changes what was shown alone. A run that has started ends with the
transcript `Command.runTranscript` of the progress that its program makes, whatever that is.

All that a run or a check shows is made of closed pieces and lines of status, for each of which
stripping gives what is shown without color. `Command.plain_output_is_stripped_color` puts them
together. -/

namespace Lc3

/-! ### Lines of status -/

namespace Terminal.Display
variable (d : Display) (color : Color) {verb text : String}

theorem statusLine_of_minimal (hd : d.minimal = true) (verb text : String) :
    d.statusLine color verb text = "" :=
  if_pos hd

theorem isClosed_verb (hverb : escape ∉ verb.toList) : IsClosed
    (if d.painted then color.paint (Text.alignRight 12 verb) else Text.alignRight 12 verb) := by
  split
  · exact isClosed_paint color _
  · exact isClosed_of_notMem (escape_notMem_alignRight hverb 12)

theorem stripEscapes_verb (hverb : escape ∉ verb.toList) : stripEscapes
    (if d.painted then color.paint (Text.alignRight 12 verb) else Text.alignRight 12 verb) =
      Text.alignRight 12 verb := by
  have hpadded := stripEscapes_of_notMem (escape_notMem_alignRight hverb 12)
  split
  · rw [stripEscapes_paint, hpadded]
  · exact hpadded

theorem isClosed_statusLine (hverb : escape ∉ verb.toList) (htext : escape ∉ text.toList) :
    IsClosed (d.statusLine color verb text) := by
  unfold statusLine
  split
  · decide
  · exact isClosed_around ((d.isClosed_verb color hverb).append (by decide)) htext (by decide)

theorem stripEscapes_statusLine (hverb : escape ∉ verb.toList) (htext : escape ∉ text.toList) :
    stripEscapes (d.statusLine color verb text) = d.withoutColor.statusLine color verb text := by
  by_cases hd : d.minimal = true
  · rw [statusLine_of_minimal d color hd, statusLine_of_minimal d.withoutColor color hd]
    rfl
  · have hverb' := d.isClosed_verb color hverb
    have hblank := hverb'.append (show IsClosed " " by decide)
    have htext' := hblank.append (isClosed_of_notMem htext)
    rw [statusLine, statusLine, if_neg hd, if_neg (show ¬ d.withoutColor.minimal = true from hd)]
    dsimp only
    rw [stripEscapes_append htext', stripEscapes_append hblank, stripEscapes_append hverb',
      stripEscapes_verb d color hverb, stripEscapes_of_notMem htext]
    rfl

end Terminal.Display

/-! ### Commands -/

namespace CommandLine
open Terminal

namespace Transcript

def stripped (t : Transcript) : Transcript where
  results := stripEscapes t.results
  trace := stripEscapes t.trace

def withoutTrace (t : Transcript) : Transcript where
  results := t.results

end Transcript

namespace Outcome

def of (t : Transcript) : Option Failure → Outcome
  | none => finished t
  | some failure => failed t failure

def transcript : Outcome → Transcript
  | finished t | failed t _ => t

def failure? : Outcome → Option Failure
  | finished _ => none
  | failed _ failure => some failure

def mapTranscript (f : Transcript → Transcript) (o : Outcome) : Outcome :=
  of (f o.transcript) o.failure?

/-- What a command answers: its results, and how it fails if it does. -/
def answer (o : Outcome) : String × Option Failure :=
  (o.transcript.results, o.failure?)

section
variable (t : Transcript) (failure? : Option Failure) (f : Transcript → Transcript)

@[simp]
theorem transcript_of : (of t failure?).transcript = t := by
  cases failure? <;> rfl

@[simp]
theorem failure?_of : (of t failure?).failure? = failure? := by
  cases failure? <;> rfl

@[simp]
theorem mapTranscript_of : (of t failure?).mapTranscript f = of (f t) failure? := by
  rw [mapTranscript, transcript_of, failure?_of]

@[simp]
theorem answer_of : (of t failure?).answer = (t.results, failure?) := by
  rw [answer, transcript_of, failure?_of]

end

/-- Whether a command finishes, and with which results, is to be seen in its answer. -/
theorem exists_finished_iff {outcome? : Option Outcome} {results : String} :
    (∃ trace, outcome? = some (finished ⟨results, trace⟩)) ↔
      outcome?.map answer = some (results, none) := by
  constructor
  · rintro ⟨trace, rfl⟩
    rfl
  · intro h
    obtain ⟨o, rfl, hanswer⟩ := Option.map_eq_some_iff.1 h
    cases o with
    | finished t =>
      obtain rfl := (Prod.mk.inj hanswer).1
      exact ⟨t.trace, rfl⟩
    | failed t failure => cases hanswer

end Outcome

namespace Command

/-- The results of a run that has started and made the progress `p`. -/
def runResults (d : Display) (path : String) (start : Start) (p : Progress) : String :=
  d.statusLine .green "Loading" s!"target {path}" ++
    d.statusLine .green "Running" s!"from x{start.origin.toUpperHex}" ++
    match p.failure with
    | some _ => ""
    | none =>
      summary d p.simulator start.dumps ++ d.statusLine .green "Completed" s!"target {path}"

def runTranscript (d : Display) (path : String) (start : Start) (p : Progress) : Transcript where
  results := runResults d path start p
  trace := d.renderAll .trace (p.cycles.map Dump.cycle)

section
variable {files : Files} {path : String} {options : RunOptions} (environment : Environment)
  (fuel : Nat)

theorem perform_run_of_error {failure : Failure}
    (h : Start.ofOptions files path options = .error failure) :
    (run path options).perform fuel environment files =
      some (.of ⟨(displayOf environment options.minimal).statusLine .green "Loading"
        s!"target {path}", ""⟩ (some failure)) := by
  rw [perform, performRun, h]
  rfl

theorem perform_run_of_ok {start : Start} (h : Start.ofOptions files path options = .ok start) :
    (run path options).perform fuel environment files =
      (start.simulator.runWithin fuel environment.settings.trace options.limit).map fun p =>
        .of (runTranscript (displayOf environment options.minimal) path start p) p.failure := by
  rw [perform, performRun, h]
  dsimp only
  congr 1
  funext p
  cases hp : p.failure with
  | some failure => simp only [runTranscript, runResults, hp, String.append_empty]; rfl
  | none => simp only [runTranscript, runResults, hp, String.append_assoc]; rfl

theorem answer_perform_run_of_ok {start : Start}
    (h : Start.ofOptions files path options = .ok start) :
    ((run path options).perform fuel environment files).map Outcome.answer =
      (start.simulator.runWithin fuel true options.limit).map fun p =>
        (runResults (displayOf environment options.minimal) path start p, p.failure) := by
  rw [perform_run_of_ok _ _ h, Simulator.runWithin_eq_map (Start.isRunning_simulator h),
    Option.map_map, Option.map_map]
  congr 1
  funext p
  rw [Function.comp, Function.comp, Outcome.answer_of]
  rfl

end

/-! ### Stripping what is shown -/

section
variable (d : Display)

theorem isClosed_of_mem_summary (s : Simulator) (dumps : List Word) :
    ∀ p ∈ (if d.minimal then [s!"processed {s.completed}\n"] else []) ++
      Dump.registers d.minimal s.machine ++ dumps.flatMap (Dump.memory d.minimal s.machine),
      IsClosed p := by
  simp only [List.forall_mem_append, List.forall_mem_flatMap]
  refine ⟨⟨?_, Dump.isClosed_of_mem_registers s.machine d.minimal⟩, fun a _ =>
    Dump.isClosed_of_mem_memory s.machine d.minimal a⟩
  split
  · exact List.forall_mem_singleton.2
      (isClosed_around (by decide) (escape_notMem_natRepr s.completed) (by decide))
  · exact List.forall_mem_nil _

theorem escape_notMem_halted (n : Nat) : escape ∉ s!"after {n} instruction(s)".toList :=
  escape_notMem_around (by decide) (escape_notMem_natRepr n) (by decide)

theorem isClosed_summary (s : Simulator) (dumps : List Word) : IsClosed (summary d s dumps) :=
  (d.isClosed_statusLine .cyan (by decide) (escape_notMem_halted s.completed)).append
    (d.isClosed_renderAll .result (isClosed_of_mem_summary d s dumps))

theorem stripEscapes_summary (s : Simulator) (dumps : List Word) :
    stripEscapes (summary d s dumps) = summary d.withoutColor s dumps := by
  have hhalted := escape_notMem_halted s.completed
  rw [summary, stripEscapes_append (d.isClosed_statusLine .cyan (by decide) hhalted),
    d.stripEscapes_statusLine .cyan (by decide) hhalted,
    d.stripEscapes_renderAll .result (isClosed_of_mem_summary d s dumps)]
  rfl

variable {path : String} (hpath : escape ∉ path.toList)
include hpath

theorem escape_notMem_target : escape ∉ s!"target {path}".toList :=
  escape_notMem_append (by decide) hpath

theorem stripEscapes_runResults (start : Start) (p : Progress) :
    stripEscapes (runResults d path start p) = runResults d.withoutColor path start p := by
  have htarget := escape_notMem_target hpath
  have horigin : escape ∉ s!"from x{start.origin.toUpperHex}".toList :=
    escape_notMem_append (by decide) (escape_notMem_toUpperHex start.origin)
  have hloading : IsClosed (d.statusLine .green "Loading" s!"target {path}") :=
    d.isClosed_statusLine .green (by decide) htarget
  have hrunning : IsClosed (d.statusLine .green "Running" s!"from x{start.origin.toUpperHex}") :=
    d.isClosed_statusLine .green (by decide) horigin
  rw [runResults, stripEscapes_append (hloading.append hrunning), stripEscapes_append hloading,
    d.stripEscapes_statusLine .green (by decide) htarget,
    d.stripEscapes_statusLine .green (by decide) horigin, runResults]
  cases p.failure with
  | some _ => rfl
  | none =>
    dsimp only
    rw [stripEscapes_append (isClosed_summary d _ _), stripEscapes_summary,
      d.stripEscapes_statusLine .green (by decide) htarget]

theorem stripped_runTranscript (start : Start) (p : Progress) :
    (runTranscript d path start p).stripped = runTranscript d.withoutColor path start p := by
  have hcycles : ∀ piece ∈ p.cycles.map Dump.cycle, IsClosed piece :=
    List.forall_mem_map.2 fun c _ => Dump.isClosed_cycle c
  rw [Transcript.stripped, runTranscript, stripEscapes_runResults d hpath,
    d.stripEscapes_renderAll .trace hcycles]
  rfl

theorem stripped_performCheck (files : Files) :
    (performCheck d files path).mapTranscript Transcript.stripped =
      performCheck d.withoutColor files path := by
  have htarget := escape_notMem_target hpath
  unfold performCheck
  cases readImage files path with
  | error failure =>
    dsimp only
    rw [← d.stripEscapes_statusLine .green (by decide) htarget]
    rfl
  | ok image =>
    have hlength : escape ∉ s!"{image.words.length} word(s) from x".toList :=
      escape_notMem_append (escape_notMem_natRepr image.words.length) (by decide)
    have himage : escape ∉
        s!"{image.words.length} word(s) from x{image.origin.toUpperHex}".toList :=
      escape_notMem_append hlength (escape_notMem_toUpperHex image.origin)
    dsimp only
    rw [← d.stripEscapes_statusLine .green (by decide) htarget,
      ← d.stripEscapes_statusLine .green (by decide) himage,
      ← stripEscapes_append (d.isClosed_statusLine .green (by decide) htarget)]
    rfl

/-- A run without color is the run with color, stripped. -/
theorem perform_run_noColor (options : RunOptions) (environment : Environment) (noColor : String)
    (files : Files) (fuel : Nat) :
    (run path options).perform fuel { environment with noColor := some noColor } files =
      ((run path options).perform fuel
        { environment with noColor := none, forceColor := some "1" } files).map
          (Outcome.mapTranscript Transcript.stripped) := by
  cases hstart : Start.ofOptions files path options with
  | error failure =>
    rw [perform_run_of_error _ _ hstart, perform_run_of_error _ _ hstart, Option.map_some,
      Outcome.mapTranscript_of, Transcript.stripped,
      Display.stripEscapes_statusLine _ .green (by decide) (escape_notMem_target hpath)]
    rfl
  | ok start =>
    rw [perform_run_of_ok _ _ hstart, perform_run_of_ok _ _ hstart, Option.map_map]
    congr 1
    funext p
    rw [Function.comp, Outcome.mapTranscript_of, stripped_runTranscript _ hpath]
    rfl

end

/-- A run or a check ends in the same way with and without color, and what it prints without is what
stripping leaves of all that it prints in color. -/
theorem plain_output_is_stripped_color {command : Command} {path : String}
    (hcommand : command.path? = some path) (hpath : escape ∉ path.toList)
    (environment : Environment) (noColor : String) (files : Files) (fuel : Nat) :
    let plain := command.perform fuel { environment with noColor := some noColor } files
    let colored :=
      command.perform fuel { environment with noColor := none, forceColor := some "1" } files
    plain = colored.map (Outcome.mapTranscript Transcript.stripped) ∧
      ∀ outcome, plain = some outcome → escape ∉ outcome.transcript.results.toList ∧
        escape ∉ outcome.transcript.trace.toList := by
  intro plain colored
  have hstripped : plain = colored.map (Outcome.mapTranscript Transcript.stripped) := by
    cases command with
    | welcome | version | help => cases hcommand
    | check _ =>
      cases hcommand
      have hcheck := stripped_performCheck
        (displayOf { environment with noColor := none, forceColor := some "1" } false) hpath files
      exact congrArg some hcheck.symm
    | run _ options =>
      cases hcommand
      exact perform_run_noColor hpath options environment noColor files fuel
  refine ⟨hstripped, fun outcome houtcome => ?_⟩
  rw [hstripped] at houtcome
  obtain ⟨o, -, rfl⟩ := Option.map_eq_some_iff.1 houtcome
  rw [Outcome.mapTranscript, Outcome.transcript_of]
  exact ⟨escape_notMem_stripEscapes _, escape_notMem_stripEscapes _⟩

/-- A program that adds one and goes on into data, run with a trace. -/
theorem plain_output_of_fault :
    let environment : Environment := { trace := some "1" }
    let files : Files := fun _ => .ok "0\n0001000000100001\n1101000000000000".toUTF8
    let command := run "add.txt" {}
    let failure : Failure := .faulted (.undecodable .reserved 0xD000) 1
    command.path? = some "add.txt" ∧ escape ∉ "add.txt".toList ∧
      command.perform 2 { environment with noColor := none, forceColor := some "1" } files =
        some (.failed ⟨"\x1b[32m     Loading\x1b[0m target add.txt\n" ++
          "\x1b[32m     Running\x1b[0m from x0000\n",
          "\x1b[34mx0000  0001000000100001  ADD\n\x1b[0m"⟩ failure) ∧
      command.perform 2 { environment with noColor := some "" } files =
        some (.failed ⟨"     Loading target add.txt\n     Running from x0000\n",
          "x0000  0001000000100001  ADD\n"⟩ failure) := by
  intro environment files command failure
  have hpath : escape ∉ "add.txt".toList := by decide
  have hcolored : command.perform 2
      { environment with noColor := none, forceColor := some "1" } files =
        some (.failed ⟨"\x1b[32m     Loading\x1b[0m target add.txt\n" ++
          "\x1b[32m     Running\x1b[0m from x0000\n",
          "\x1b[34mx0000  0001000000100001  ADD\n\x1b[0m"⟩ failure) := by
    decide +kernel
  have hcommand : command.path? = some "add.txt" := rfl
  obtain ⟨hplain, -⟩ := plain_output_is_stripped_color hcommand hpath environment "" files 2
  refine ⟨hcommand, hpath, hcolored, hplain.trans ?_⟩
  rw [hcolored]
  decide +kernel

end Command
end CommandLine
end Lc3
