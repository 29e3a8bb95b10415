import Lc3.Proofs.LimitedRuns
import Lc3.Proofs.StartState

/-! # How a run fails

A run reads its file and its image, its pokes and its dumps, each from left to right, and then
starts the program. `mistakes` lists all that is wrong with what it reads in this order, and
`error?_ofOptions` says that the first of it is what the run fails with; nothing that comes later
shows. A run without mistakes fails as its program does, by a fault or by its limit (`Ends`).
`run_fails_at_first_mistake` puts the stages together with what is shown before each failure, and
compares them with checking the same file. -/

namespace Lc3

/-- How a program ends under a limit: with a failure, or without one. -/
inductive Simulator.Ends (s : Simulator) (limit : Option Nat) : Option Failure → Prop
  | halted {k : Nat} : s.HaltsWith k → (∀ l ∈ limit, k ≤ l) → s.Ends limit none
  | faulted {k : Nat} {fault : Fault} : s.FaultsAfter k fault → (∀ l ∈ limit, k < l) →
    s.Ends limit (some (.faulted fault (s.stepped k).machine.pc))
  | reached {l : Nat} : limit = some l → (∀ k ≤ l, ¬ s.HaltsWith k) →
    (∀ k < l, ∀ fault, ¬ s.FaultsAfter k fault) → s.Ends limit (some (.limitReached l))

namespace Simulator
variable {s : Simulator} {limit : Option Nat}

theorem Ends.exists_runWithin {failure? : Option Failure} (hs : s.isRunning = true)
    (h : s.Ends limit failure?) (trace : Bool) :
    ∃ n, ∀ fuel ≥ n, ∃ p, s.runWithin fuel trace limit = some p ∧ p.failure = failure? := by
  cases h with
  | @halted k hk hl =>
    exact ⟨k, fun fuel hfuel => ⟨_, (runWithin_of_halts hs hk hl trace hfuel).1, rfl⟩⟩
  | @faulted k fault hk hl =>
    exact ⟨k + 1, fun fuel hfuel => ⟨_, (runWithin_of_faults hs hk hl trace hfuel).1, rfl⟩⟩
  | @reached l hl hhalt hfault =>
    subst hl
    have hrun := isRunning_after hs hhalt hfault
    exact ⟨0, fun fuel _ => ⟨_, runWithin_of_isRunning hrun trace fuel, rfl⟩⟩

theorem runWithin_eq_none (hs : s.isRunning = true) (h : ∀ failure?, ¬ s.Ends limit failure?)
    (trace : Bool) (fuel : Nat) : s.runWithin fuel trace limit = none := by
  cases limit with
  | some l =>
    have hhalt : ∀ k ≤ l, ¬ s.HaltsWith k := by
      intro k hk hh
      exact h none (.halted hh (by simpa using hk))
    have hfault : ∀ k < l, ∀ fault, ¬ s.FaultsAfter k fault := by
      intro k hk fault hf
      exact h _ (.faulted hf (by simpa using hk))
    exact absurd (.reached rfl hhalt hfault) (h _)
  | none =>
    have hhalt : ∀ k ≤ fuel, ¬ s.HaltsWith k := by
      intro k _ hh
      exact h none (.halted hh (by simp))
    have hfault : ∀ k < fuel, ∀ fault, ¬ s.FaultsAfter k fault := by
      intro k _ fault hf
      exact h _ (.faulted hf (by simp))
    rw [runWithin_eq hs, Option.getD_none, if_pos (isRunning_after hs hhalt hfault)]
    rfl

end Simulator

namespace CommandLine
open Terminal (Color Display)

/-! ### Mistakes -/

def fileMistakes (files : Files) (path : String) : List Failure :=
  match files.readText path with
  | .error cause => [.unreadable cause]
  | .ok source => (Image.parse source).error?.toList

/-- All that is wrong with what a run reads, in the order in which it is read. -/
def mistakes (files : Files) (path : String) (options : RunOptions) : List Failure :=
  fileMistakes files path ++ options.pokes.filterMap (fun text => (Poke.parse text).error?) ++
    options.dumps.filterMap fun text => (Address.parse text).error?

section
variable (files : Files) (path : String) (options : RunOptions)

theorem error?_readImage : (readImage files path).error? = (fileMistakes files path).head? := by
  rw [readImage, fileMistakes]
  cases files.readText path with
  | error cause => rfl
  | ok source =>
    show (Image.parse source).error? = (Image.parse source).error?.toList.head?
    cases (Image.parse source).error? <;> rfl

theorem error?_ofOptions :
    (Start.ofOptions files path options).error? = (mistakes files path options).head? := by
  rw [mistakes, List.head?_append, List.head?_append, ← error?_readImage, ← Except.error?_mapM,
    ← Except.error?_mapM, Option.or_assoc, Start.ofOptions]
  refine Except.error?_bind fun image _ => Except.error?_bind fun pokes _ => ?_
  exact Except.error?_bind_pure _

end

/-! ### Lines -/

/-- A line of status, whose verb stands in a column of twelve and is green if it is painted. -/
def statusText (painted : Bool) (verb text : String) : String :=
  (if painted then "\x1b[32m" ++ verb ++ "\x1b[0m" else verb) ++ " " ++ text ++ "\n"

/-- Whether the environment asks for painted status lines. -/
def asksForPaint (environment : Environment) : Bool :=
  environment.noColor.isNone && environment.forceColor.any (· != "0")

/-- What a run shows before it starts a program, or before the program ends. -/
def runLines (environment : Environment) (path : String) (minimal : Bool) (origin? : Option Word) :
    String :=
  if minimal then ""
  else
    statusText (asksForPaint environment) "     Loading" ("target " ++ path) ++
      match origin? with
      | none => ""
      | some origin =>
        statusText (asksForPaint environment) "     Running" ("from x" ++ origin.toUpperHex)

def checkLines (environment : Environment) (path : String) (image? : Option Image) : String :=
  statusText (asksForPaint environment) "    Checking" ("target " ++ path) ++
    match image? with
    | none => ""
    | some image => statusText (asksForPaint environment) "     Success"
      (toString image.words.length ++ " word(s) from x" ++ image.origin.toUpperHex)

section
variable (environment : Environment) (minimal : Bool)

def displayOf : Display :=
  { environment.display.apply environment.settings with minimal := minimal }

theorem painted_displayOf : (displayOf environment minimal).painted = asksForPaint environment := by
  obtain ⟨trace, noColor, forceColor⟩ := environment
  cases noColor <;> rfl

theorem statusLine_displayOf (verb padded text : String) (hverb : Text.alignRight 12 verb = padded)
    (hpaint : Color.green.paint padded = "\x1b[32m" ++ padded ++ "\x1b[0m") :
    (displayOf environment minimal).statusLine .green verb text =
      if minimal then "" else statusText (asksForPaint environment) padded text := by
  rw [Display.statusLine, painted_displayOf, hverb, statusText, ← hpaint]
  rfl

theorem loading_eq (path : String) :
    (displayOf environment minimal).statusLine .green "Loading" s!"target {path}" =
      runLines environment path minimal none := by
  rw [statusLine_displayOf _ _ "Loading" "     Loading" _ rfl rfl, runLines, String.append_empty]
  rfl

theorem loading_append_running (path : String) (origin : Word) :
    (displayOf environment minimal).statusLine .green "Loading" s!"target {path}" ++
        (displayOf environment minimal).statusLine .green "Running"
          s!"from x{origin.toUpperHex}" =
      runLines environment path minimal (some origin) := by
  rw [statusLine_displayOf _ _ "Loading" "     Loading" _ rfl rfl,
    statusLine_displayOf _ _ "Running" "     Running" _ rfl rfl, runLines]
  cases minimal <;> rfl

theorem checking_eq (path : String) :
    (displayOf environment false).statusLine .green "Checking" s!"target {path}" =
      checkLines environment path none := by
  rw [statusLine_displayOf _ _ "Checking" "    Checking" _ rfl rfl, checkLines, String.append_empty]
  rfl

theorem checking_append_success (path : String) (image : Image) :
    (displayOf environment false).statusLine .green "Checking" s!"target {path}" ++
        (displayOf environment false).statusLine .green "Success"
          s!"{image.words.length} word(s) from x{image.origin.toUpperHex}" =
      checkLines environment path (some image) := by
  rw [statusLine_displayOf _ _ "Checking" "    Checking" _ rfl rfl,
    statusLine_displayOf _ _ "Success" "     Success" _ rfl rfl, checkLines]
  rfl

theorem displayOf_false :
    environment.display.apply environment.settings = displayOf environment false := by
  obtain ⟨trace, noColor, forceColor⟩ := environment
  cases noColor <;> rfl

end

/-! ### Outcomes -/

section
variable {files : Files} {path : String} {options : RunOptions} (environment : Environment)

theorem perform_run_of_mistake {failure : Failure}
    (h : (mistakes files path options).head? = some failure) (fuel : Nat) :
    (Command.run path options).perform fuel environment files =
      some (.failed ⟨runLines environment path options.minimal none, ""⟩ failure) := by
  have hstart : Start.ofOptions files path options = .error failure :=
    Except.error?_eq_some_iff.1 ((error?_ofOptions files path options).trans h)
  rw [Command.perform, Command.performRun, hstart, ← loading_eq]
  rfl

theorem perform_run_of_ends {start : Start} {failure? : Option Failure}
    (h : Start.ofOptions files path options = .ok start) (hs : start.simulator.isRunning = true)
    (hends : start.simulator.Ends options.limit failure?) : ∃ n, ∀ fuel ≥ n,
    match failure? with
    | some failure => ∃ trace, (Command.run path options).perform fuel environment files =
      some (.failed ⟨runLines environment path options.minimal (some start.origin), trace⟩ failure)
    | none => ∃ transcript, (Command.run path options).perform fuel environment files =
      some (.finished transcript) := by
  obtain ⟨n, hn⟩ := hends.exists_runWithin hs environment.settings.trace
  refine ⟨n, fun fuel hfuel => ?_⟩
  obtain ⟨p, hp, rfl⟩ := hn fuel hfuel
  rw [Command.perform, Command.performRun, h, ← loading_append_running]
  simp only [hp, Option.map_some]
  cases p.failure with
  | some failure => exact ⟨_, rfl⟩
  | none => exact ⟨_, rfl⟩

theorem perform_run_eq_none {start : Start} {fuel : Nat}
    (h : Start.ofOptions files path options = .ok start)
    (hp : start.simulator.runWithin fuel environment.settings.trace options.limit = none) :
    (Command.run path options).perform fuel environment files = none := by
  rw [Command.perform, Command.performRun, h]
  simp only [hp, Option.map_none]

theorem perform_check (fuel : Nat) : (Command.check path).perform fuel environment files =
    match readImage files path with
    | .error failure => some (.failed ⟨checkLines environment path none, ""⟩ failure)
    | .ok image => some (.finished ⟨checkLines environment path (some image), ""⟩) := by
  rw [Command.perform, displayOf_false, Command.performCheck]
  cases readImage files path with
  | error failure => rw [← checking_eq]
  | ok image =>
    exact congrArg (fun shown => some (Outcome.finished ⟨shown, ""⟩))
      (checking_append_success environment path image)

end

/-- A run fails with the first mistake in its file, its image, its pokes and its dumps, having shown
nothing that comes after it, and without a mistake just if its program ends with a failure. Checking
a file fails with the mistakes of the file alone. -/
theorem run_fails_at_first_mistake (environment : Environment) (files : Files) (path : String)
    (options : RunOptions) :
    (∀ failure, (mistakes files path options).head? = some failure → ∀ fuel,
      (Command.run path options).perform fuel environment files =
        some (.failed ⟨runLines environment path options.minimal none, ""⟩ failure)) ∧
    (mistakes files path options = [] → ∃ image pokes dumps,
      let s := Simulator.ofMachine (Start.machine options.supervisor pokes image)
      readImage files path = .ok image ∧
      Start.ofOptions files path options = .ok ⟨image.origin, s, dumps⟩ ∧
      (∀ failure, s.Ends options.limit (some failure) → ∃ n, ∀ fuel ≥ n, ∃ trace,
        (Command.run path options).perform fuel environment files =
          some (.failed ⟨runLines environment path options.minimal (some image.origin), trace⟩
            failure)) ∧
      (s.Ends options.limit none → ∃ n, ∀ fuel ≥ n, ∃ transcript,
        (Command.run path options).perform fuel environment files =
          some (.finished transcript)) ∧
      ((∀ failure?, ¬ s.Ends options.limit failure?) → ∀ fuel,
        (Command.run path options).perform fuel environment files = none)) ∧
    (∀ failure, (fileMistakes files path).head? = some failure → ∀ fuel,
      (Command.check path).perform fuel environment files =
        some (.failed ⟨checkLines environment path none, ""⟩ failure)) ∧
    (fileMistakes files path = [] → ∃ image, readImage files path = .ok image ∧ ∀ fuel,
      (Command.check path).perform fuel environment files =
        some (.finished ⟨checkLines environment path (some image), ""⟩)) := by
  refine ⟨fun failure h fuel => perform_run_of_mistake environment h fuel, fun h => ?_,
    fun failure h fuel => ?_, fun h => ?_⟩
  · have hnone : (Start.ofOptions files path options).error? = none := by
      rw [error?_ofOptions, h]
      rfl
    obtain ⟨start, hstart⟩ := Except.error?_eq_none_iff.1 hnone
    obtain ⟨image, pokes, dumps, himage, -, -, rfl⟩ := Start.ofOptions_eq_ok_iff.1 hstart
    refine ⟨image, pokes, dumps, himage, hstart, fun failure hends => ?_, fun hends => ?_,
      fun hends fuel => ?_⟩
    · exact perform_run_of_ends environment hstart rfl hends
    · exact perform_run_of_ends environment hstart rfl hends
    · exact perform_run_eq_none environment hstart
        (Simulator.runWithin_eq_none rfl hends environment.settings.trace fuel)
  · have himage : readImage files path = .error failure :=
      Except.error?_eq_some_iff.1 ((error?_readImage files path).trans h)
    rw [perform_check, himage]
  · have hnone : (readImage files path).error? = none := by
      rw [error?_readImage, h]
      rfl
    obtain ⟨image, himage⟩ := Except.error?_eq_none_iff.1 hnone
    exact ⟨image, himage, fun fuel => by rw [perform_check, himage]⟩

/-- An image without mistakes, under a mistaken dump and a second poke without its word. -/
theorem second_poke_of_run :
    let environment : Environment := { trace := some "1", forceColor := some "1" }
    let files : Files := fun _ => .ok "0011000000000000\n1111000000100101".toUTF8
    let options : RunOptions :=
      { limit := some 0, pokes := ["x3001=0000000000000001", "x3001"], dumps := ["3G"] }
    mistakes files "halt.txt" options = [.badPoke "x3001", .badAddress "3G"] ∧
      (∀ fuel, (Command.run "halt.txt" options).perform fuel environment files =
        some (.failed ⟨"\x1b[32m     Loading\x1b[0m target halt.txt\n", ""⟩ (.badPoke "x3001"))) ∧
      ∀ fuel, (Command.check "halt.txt").perform fuel environment files =
        some (.finished ⟨"\x1b[32m    Checking\x1b[0m target halt.txt\n" ++
          "\x1b[32m     Success\x1b[0m 1 word(s) from x3000\n", ""⟩) := by
  intro environment files options
  have hmistakes : mistakes files "halt.txt" options = [.badPoke "x3001", .badAddress "3G"] := rfl
  obtain ⟨hrun, -, -, hcheck⟩ := run_fails_at_first_mistake environment files "halt.txt" options
  obtain ⟨image, himage, hcheck⟩ := hcheck rfl
  obtain rfl : image = ⟨0x3000, [0xF025]⟩ := by
    have hread : readImage files "halt.txt" = .ok ⟨0x3000, [0xF025]⟩ := rfl
    exact (Except.ok.inj (hread.symm.trans himage)).symm
  exact ⟨hmistakes, hrun _ (by rw [hmistakes]; rfl), hcheck⟩

end CommandLine
end Lc3
