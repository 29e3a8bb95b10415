import Lc3.Proofs.CheckedEngine
import Lc3.Proofs.Runs
import Lc3.Proofs.TextStore

/-! # What can be misused

The engine that checks is driven here as a simulator is, cycle by cycle and by the operations of a
session, and an operation that fails is given up where it has failed. `run_run` and the lemmas
before it say of each way to drive it that nothing fails, since `run_apply` and `run_prepare` say so
of the one instruction that a cycle runs. `engine_meets_preconditions` adds the sessions: what fails
there are the reads and writes of registers that are asked for by a number which is none, and they
change nothing. -/

namespace Lc3

namespace Simulator
variable {s : Simulator}

theorem step_cases (h : s.isRunning = true) :
    (∃ fault, s.step = (.error fault, s.cycle.2) ∧ s.cycle.2.isRunning = false ∧
      s.cycle.2.verdict = .error fault) ∨
    (s.step = (.ok (), s.cycle.2) ∧ s.cycle.2.verdict = .ok ()) := by
  rcases s.cycle_eq_cases with ⟨hr, -⟩ | ⟨-, fault, -, hc⟩ | ⟨-, i, -, hc⟩
  · rw [h] at hr
    cases hr
  · exact .inl ⟨fault, by rw [step, hc]; rfl, by rw [hc]; rfl, by rw [hc]; rfl⟩
  · refine .inr ⟨by rw [step, hc]; rfl, ?_⟩
    rw [hc]
    cases i.signal <;> rfl

theorem stepMany_of_verdict (h : s.verdict = .ok ()) (n : Nat) :
    s.stepMany n = ((s.advance n).verdict, s.advance n) := by
  cases hr : s.isRunning with
  | true => rw [stepMany, if_pos hr]
  | false => simp [stepMany, hr, advance_of_not_isRunning n hr, h]

end Simulator

namespace Checked

/-! ### Simulators -/

def onMachine {α : Type} (x : EStateM Misuse Machine α) : EStateM Misuse Simulator α := fun s =>
  match x.run s.machine with
  | .ok a m => .ok a (s.mapMachine fun _ => m)
  | .error cause m => .error cause (s.mapMachine fun _ => m)

/-- Runs the next word of a machine that has not stopped. -/
def runNext : EStateM Misuse Simulator (Except Fault (Option RawCycle)) := do
  let m := (← get).machine
  let word := m.readMemory m.pc
  match ← onMachine (prepare word) with
  | .error fault =>
    modify fun s => { s with status := .faulted fault }
    return .error fault
  | .ok i =>
    onMachine (modify (·.jumpRelative 1))
    let signal ← onMachine (apply i)
    modify fun s => { s with count := s.count + 1, status := .afterSignal signal }
    return .ok (some ⟨m.pc, word, i⟩)

def cycle : EStateM Misuse Simulator (Except Fault (Option RawCycle)) := do
  match (← get).status with
  | .halted => return .ok none
  | .faulted fault => return .error fault
  | .idle | .running => runNext

def step : EStateM Misuse Simulator (Except Fault Unit) := do
  return (← cycle).map fun _ => ()

/-- Steps until the machine stops. There is no answer if that takes more than `fuel` steps. -/
def run : (fuel : Nat) → EStateM Misuse Simulator (Option (Except Fault Unit))
  | 0 => do
    let s ← get
    return if s.isRunning then none else some s.verdict
  | fuel + 1 => do
    let s ← get
    if s.isRunning then
      match ← step with
      | .error fault => return some (.error fault)
      | .ok () => run fuel
    else
      return some s.verdict

/-- Up to `n` steps, of which the first that fails is the last. -/
def stepMany : (n : Nat) → EStateM Misuse Simulator (Except Fault Unit)
  | 0 => return .ok ()
  | n + 1 => do
    if (← get).isRunning then
      match ← step with
      | .error fault => return .error fault
      | .ok () => stepMany n
    else
      return .ok ()

section
variable {s : Simulator}

theorem run_onMachine {α : Type} {x : EStateM Misuse Machine α} {a : α} {m : Machine}
    (h : x.run s.machine = .ok a m) : (onMachine x).run s = .ok a (s.mapMachine fun _ => m) := by
  simp only [EStateM.run, onMachine] at h ⊢
  rw [h]

theorem run_runNext (h : s.isRunning = true) :
    runNext.run s = .ok (s.cycle.1.map (·.map Cycle.raw)) s.cycle.2 := by
  rw [runNext, run_get_bind, run_bind_of_ok (run_onMachine (run_prepare s.machine _))]
  cases hi : Instruction.decodeFor s.machine (s.machine.readMemory s.machine.pc) with
  | error fault =>
    rw [Simulator.cycle_of_decodeFor_error h hi]
    rfl
  | ok i =>
    have happly := run_apply (s.machine.jumpRelative 1) i
    have hjump : (onMachine (modify (·.jumpRelative 1))).run (s.mapMachine fun _ => s.machine) =
      .ok () ⟨s.machine.jumpRelative 1, s.count, s.status⟩ := rfl
    rw [Simulator.cycle_of_decodeFor_ok h hi]
    refine (run_bind_of_ok hjump _).trans ((run_bind_of_ok (run_onMachine happly) _).trans ?_)
    rfl

theorem run_cycle (s : Simulator) :
    cycle.run s = .ok (s.cycle.1.map (·.map Cycle.raw)) s.cycle.2 := by
  have hnext := run_runNext (s := s)
  obtain ⟨m, count, status⟩ := s
  cases status with
  | halted | faulted => rfl
  | idle | running => exact hnext rfl

theorem run_step (s : Simulator) : step.run s = .ok s.step.1 s.step.2 := by
  rw [step, run_bind_of_ok (run_cycle s), Simulator.step]
  rcases s.cycle with ⟨result, t⟩
  cases result <;> rfl

end

theorem run_run (fuel : Nat) (s : Simulator) :
    (run fuel).run s = .ok ((s.run fuel).map (·.1)) (s.advance fuel) := by
  induction fuel generalizing s with
  | zero =>
    rw [run, run_get_bind, Simulator.run, Simulator.advance_zero]
    cases s.isRunning <;> rfl
  | succ fuel ih =>
    rw [run, run_get_bind]
    cases hr : s.isRunning with
    | false =>
      rw [Simulator.run_of_not_isRunning hr, Simulator.advance_of_not_isRunning _ hr]
      rfl
    | true =>
      have hrun : s.run (fuel + 1) = s.cycle.2.run fuel := by
        rw [Simulator.run, Simulator.advance, if_pos hr, Simulator.run]
      rw [if_pos rfl, run_bind_of_ok (run_step s), hrun, Simulator.advance, if_pos hr]
      rcases Simulator.step_cases hr with ⟨fault, hs, hstop, hv⟩ | ⟨hs, -⟩
      · rw [hs, Simulator.run_of_not_isRunning hstop, Simulator.advance_of_not_isRunning _ hstop,
          hv]
        rfl
      · rw [hs]
        exact ih s.cycle.2

theorem run_stepMany (n : Nat) (s : Simulator) :
    (stepMany n).run s = .ok (s.stepMany n).1 (s.stepMany n).2 := by
  induction n generalizing s with
  | zero =>
    obtain ⟨m, count, status⟩ := s
    cases status <;> rfl
  | succ n ih =>
    rw [stepMany, run_get_bind, Simulator.stepMany]
    cases hr : s.isRunning with
    | false => rfl
    | true =>
      rw [if_pos rfl, if_pos rfl, run_bind_of_ok (run_step s), Simulator.advance, if_pos hr]
      rcases Simulator.step_cases hr with ⟨fault, hs, hstop, hv⟩ | ⟨hs, hv⟩
      · rw [hs, Simulator.advance_of_not_isRunning _ hstop]
        dsimp only
        rw [hv]
        rfl
      · rw [hs]
        refine (ih s.cycle.2).trans ?_
        rw [Simulator.stepMany_of_verdict hv]

/-! ### Images -/

def ofSignedDigits (cs : List Char) : Except Misuse (Except BinaryError Word) := do
  if 0 < cs.length ∧ cs.length ≤ 16 then
    match Word.readDigits cs 0 0 with
    | .error e => return .error e
    | .ok w => return .ok (← w.signExtendLow? cs.length)
  else
    return .error (.wrongLength cs.length)

def parse (source : String) : Except Misuse (Except Failure Image) := do
  match Image.entries source with
  | [] => return .error .emptyImage
  | head :: rest =>
    match ← ofSignedDigits head.text with
    | .error e => return .error (.badOrigin head.span source e)
    | .ok origin =>
      return (rest.mapM fun l => (Word.ofDigits l.text).mapError (.badWord l.span source)).map
        (⟨origin, ·⟩)

theorem ofSignedDigits_eq (cs : List Char) : ofSignedDigits cs = .ok (Word.ofSignedDigits cs) := by
  rw [ofSignedDigits, Word.ofSignedDigits]
  by_cases hlen : 0 < cs.length ∧ cs.length ≤ 16
  · rw [if_pos hlen, if_pos hlen]
    cases Word.readDigits cs 0 0 with
    | error e => rfl
    | ok w =>
      simp only [signExtendLow?_eq_ok w hlen]
      rfl
  · rw [if_neg hlen, if_neg hlen]
    rfl

theorem parse_eq (source : String) : parse source = .ok (Image.parse source) := by
  rw [parse, Image.parse]
  cases Image.entries source with
  | nil => rfl
  | cons head rest =>
    simp only [ofSignedDigits_eq]
    cases Word.ofSignedDigits head.text with
    | error e => rfl
    | ok origin =>
      have hmap (words : Except Failure (List Word)) : words.map (Image.mk origin) =
          words >>= fun words => pure ⟨origin, words⟩ := by
        cases words <;> rfl
      exact congrArg Except.ok (hmap _)

/-! ### Sessions -/

/-- Goes on to the simulator that `f` makes of an image, unless the source is rejected. -/
def withImage (source : String) (f : Image → Simulator → Simulator) :
    EStateM Misuse Simulator Unit := do
  match ← require (parse source) with
  | .error _ => return
  | .ok image => modify (f image)

/-- Does the operation, whatever its reply is. A run takes `fuel` cycles at most. -/
def perform (fuel : Nat) : Operation → EStateM Misuse Simulator Unit
  | .load image => modify (·.load image)
  | .loadText source => withImage source fun image s => s.load image
  | .startOver source => withImage source fun image _ => .ofImage image
  | .renew => modify (·.renew)
  | .readMemoryText _ | .readMemory _ => return
  | .writeMemoryText a text =>
    match Word.ofBinary text with
    | .error _ => return
    | .ok v => modify (·.mapMachine (·.writeMemory a v))
  | .readRegisterText index | .readRegister index => discard (onMachine (readRegister index))
  | .writeRegisterText index text =>
    match Word.ofBinary text with
    | .error _ => return
    | .ok v => onMachine (writeRegister index v)
  | .writeMemory a v => modify (·.mapMachine (·.writeMemory a v))
  | .writeRegister index v => onMachine (writeRegister index v)
  | .jump target => modify (·.mapMachine (·.jump target))
  | .jumpRelative offset => modify (·.mapMachine (·.jumpRelative offset))
  | .setSupervisor supervisor => modify (·.mapMachine (·.setSupervisor supervisor))
  | .decode w => discard (onMachine (prepare w))
  | .execute w => discard (onMachine (execute w))
  | .step => discard step
  | .cycle => discard cycle
  | .run => discard (run fuel)
  | .stepMany n => discard (stepMany n)

/-- Does the operations in order and goes on after those that fail. Tells of each what it has failed
with, if it has. -/
def performAll (fuel : Nat) : List Operation → Simulator → List (Option Misuse) × Simulator
  | [], s => ([], s)
  | op :: ops, s =>
    match (perform fuel op).run s with
    | .ok () t =>
      match performAll fuel ops t with
      | (causes, u) => (none :: causes, u)
    | .error cause t =>
      match performAll fuel ops t with
      | (causes, u) => (some cause :: causes, u)

end Checked

namespace Operation

/-- What it is to name a register by a number that is too large. -/
def outOfRange? (index : Nat) : Option Misuse :=
  if index < 8 then none else some (.registerOutOfRange index)

/-- What is wrong with asking for the operation. A text that is no word is refused before the number
of its register is looked at. -/
def misuse? : Operation → Option Misuse
  | readRegister index | readRegisterText index | writeRegister index _ => outOfRange? index
  | writeRegisterText index text => if Image.IsWord text.toList then outOfRange? index else none
  | _ => none

/-- The simulator after the operation, and after its fuel if it is a run that takes more. -/
def result (fuel : Nat) (s : Simulator) (op : Operation) : Simulator :=
  match op.perform fuel s with
  | some (_, t) => t
  | none => s.advance fuel

theorem outOfRange?_of_lt {index : Nat} (h : index < 8) : outOfRange? index = none :=
  if_pos h

theorem outOfRange?_of_le {index : Nat} (h : 8 ≤ index) :
    outOfRange? index = some (.registerOutOfRange index) :=
  if_neg (Nat.not_lt.2 h)

theorem outOfRange?_eq_some_iff {index : Nat} {cause : Misuse} :
    outOfRange? index = some cause ↔ 8 ≤ index ∧ cause = .registerOutOfRange index := by
  rcases Nat.lt_or_ge index 8 with h | h
  · simp [outOfRange?_of_lt h, Nat.not_le.2 h]
  · simp [outOfRange?_of_le h, h, eq_comm]

theorem outOfRange?_eq_none_iff {index : Nat} : outOfRange? index = none ↔ index < 8 := by
  simp [outOfRange?]

theorem perform_of_misuse? {op : Operation} {cause : Misuse} (h : op.misuse? = some cause)
    (fuel : Nat) (s : Simulator) : perform fuel s op = some (.misuse cause, s) := by
  cases op with
  | readRegister index | writeRegister index _ =>
    obtain ⟨hge, rfl⟩ := outOfRange?_eq_some_iff.1 h
    exact congrArg some (withRegister_of_le hge _ _)
  | readRegisterText index =>
    obtain ⟨hge, rfl⟩ := outOfRange?_eq_some_iff.1 h
    rw [perform_readRegisterText, withRegister_of_le hge]
  | writeRegisterText index text =>
    rw [misuse?, Option.ite_none_right_eq_some, outOfRange?_eq_some_iff] at h
    obtain ⟨hword, hge, rfl⟩ := h
    obtain ⟨v, hv⟩ := Image.isWord_iff.1 hword
    rw [perform_writeRegisterText_of_ok fuel s hv]
    exact congrArg some (withRegister_of_le hge _ _)
  | _ => cases h

theorem ne_misuse_of_perform {op : Operation} (h : op.misuse? = none) {fuel : Nat}
    {s t : Simulator} {reply : Reply} (hp : perform fuel s op = some (reply, t)) (cause : Misuse) :
    reply ≠ .misuse cause := by
  intro hreply
  subst hreply
  cases op with
  | load | renew | readMemoryText | readMemory | writeMemory | jump | jumpRelative
  | setSupervisor => cases hp
  | loadText source | startOver source =>
    simp only [perform, withImage, Option.some.injEq] at hp
    split at hp <;> cases hp
  | writeMemoryText a text =>
    simp only [perform] at hp
    split at hp <;> cases hp
  | decode w =>
    cases hd : Instruction.decodeFor s.machine w <;> simp [perform, hd, Reply.ofExcept] at hp
  | execute w =>
    cases he : Instruction.execute s.machine w <;> simp [perform, he] at hp
  | step => cases hs : s.step.1 <;> simp [perform, hs, Reply.ofExcept] at hp
  | cycle => cases hs : s.cycle.1 <;> simp [perform, hs, Reply.ofExcept] at hp
  | stepMany n => cases hs : (s.stepMany n).1 <;> simp [perform, hs, Reply.ofExcept] at hp
  | run =>
    simp only [perform] at hp
    split at hp
    · cases hp
    · next result _ _ => cases result <;> cases hp
  | readRegister index | writeRegister index _ =>
    have hlt : index < 8 := outOfRange?_eq_none_iff.1 h
    simp only [perform, withRegister_of_lt hlt] at hp
    cases hp
  | readRegisterText index =>
    have hlt : index < 8 := outOfRange?_eq_none_iff.1 h
    rw [perform_readRegisterText, withRegister_of_lt hlt] at hp
    cases hp
  | writeRegisterText index text =>
    cases ht : Word.ofBinary text with
    | error e =>
      rw [perform_writeRegisterText_of_error fuel s ht] at hp
      cases hp
    | ok v =>
      have hlt : index < 8 := by
        rw [misuse?, if_pos (Image.isWord_iff.2 ⟨v, ht⟩)] at h
        exact outOfRange?_eq_none_iff.1 h
      rw [perform_writeRegisterText_of_ok fuel s ht, perform, withRegister_of_lt hlt] at hp
      cases hp

theorem exists_of_performAll_cons {fuel : Nat} {s t : Simulator} {op : Operation}
    {ops : List Operation} {replies : List Reply}
    (h : performAll fuel s (op :: ops) = some (replies, t)) :
    ∃ reply u rest, replies = reply :: rest ∧ perform fuel s op = some (reply, u) ∧
      performAll fuel u ops = some (rest, t) := by
  rw [performAll] at h
  split at h
  · cases h
  · next hp =>
    split at h
    · cases h
    · next hrest =>
      cases h
      exact ⟨_, _, _, rfl, hp, hrest⟩

end Operation

namespace Checked
open Operation (outOfRange?)

section
variable {s t : Simulator} {m : Machine} {index : Nat}

theorem run_discard {α : Type} {x : EStateM Misuse Simulator α} {a : α} (h : x.run s = .ok a t) :
    (discard x).run s = .ok () t :=
  run_bind_of_ok h _

theorem run_discard_of_error {α : Type} {x : EStateM Misuse Simulator α} {cause : Misuse}
    (h : x.run s = .error cause t) : (discard x).run s = .error cause t := by
  simp only [EStateM.run, discard, Functor.mapConst, EStateM.map, Function.comp] at h ⊢
  rw [h]

theorem run_onMachine_of_error {α : Type} {x : EStateM Misuse Machine α} {cause : Misuse}
    (h : x.run s.machine = .error cause m) :
    (onMachine x).run s = .error cause (s.mapMachine fun _ => m) := by
  simp only [EStateM.run, onMachine] at h ⊢
  rw [h]

theorem run_readRegister_of_le (h : 8 ≤ index) (m : Machine) :
    (readRegister index).run m = .error (.registerOutOfRange index) m := by
  rw [readRegister, Machine.register?, dif_neg (Nat.not_lt.2 h)]
  rfl

theorem run_writeRegister_of_le (h : 8 ≤ index) (v : Word) (m : Machine) :
    (writeRegister index v).run m = .error (.registerOutOfRange index) m := by
  rw [writeRegister, Machine.register?, dif_neg (Nat.not_lt.2 h)]
  rfl

theorem run_onMachine_readRegister (s : Simulator) (index : Nat) :
    (discard (onMachine (readRegister index))).run s =
      match outOfRange? index with
      | some cause => .error cause s
      | none => .ok () s := by
  rcases Nat.lt_or_ge index 8 with h | h
  · rw [Operation.outOfRange?_of_lt h]
    exact run_discard (run_onMachine (run_readRegister s.machine ⟨index, h⟩))
  · rw [Operation.outOfRange?_of_le h]
    exact run_discard_of_error (run_onMachine_of_error (run_readRegister_of_le h s.machine))

theorem run_onMachine_writeRegister (s : Simulator) (fuel index : Nat) (v : Word) :
    (onMachine (writeRegister index v)).run s =
      match outOfRange? index with
      | some cause => .error cause s
      | none => .ok () (Operation.result fuel s (.writeRegister index v)) := by
  rcases Nat.lt_or_ge index 8 with h | h
  · rw [Operation.outOfRange?_of_lt h, Operation.result, Operation.perform,
      Operation.withRegister_of_lt h]
    exact run_onMachine (run_writeRegister s.machine ⟨index, h⟩ v)
  · rw [Operation.outOfRange?_of_le h]
    exact run_onMachine_of_error (run_writeRegister_of_le h v s.machine)

end

/-- An operation fails if it is misused, and changes nothing then. -/
theorem run_perform (fuel : Nat) (s : Simulator) (op : Operation) : (perform fuel op).run s =
    match op.misuse? with
    | some cause => .error cause s
    | none => .ok () (op.result fuel s) := by
  cases op with
  | load | renew | readMemoryText | readMemory | writeMemory | jump | jumpRelative
  | setSupervisor => rfl
  | step => exact run_discard (run_step s)
  | cycle => exact run_discard (run_cycle s)
  | stepMany n => exact run_discard (run_stepMany n s)
  | run =>
    refine (run_discard (run_run fuel s)).trans ?_
    simp only [Operation.misuse?, Operation.result, Operation.perform, Simulator.run]
    cases (s.advance fuel).isRunning <;> rfl
  | decode w => exact run_discard (run_onMachine (run_prepare s.machine w))
  | execute w =>
    have hexecute := run_execute s.machine w
    simp only [Operation.misuse?, Operation.result, Operation.perform]
    cases he : Instruction.execute s.machine w with
    | error fault =>
      rw [he] at hexecute
      exact run_discard (run_onMachine hexecute)
    | ok result =>
      rw [he] at hexecute
      exact run_discard (run_onMachine hexecute)
  | loadText source | startOver source =>
    simp only [perform, withImage, parse_eq, Operation.misuse?, Operation.result,
      Operation.perform, Operation.withImage]
    cases Image.parse source <;> rfl
  | writeMemoryText a text =>
    simp only [perform, Operation.misuse?, Operation.result, Operation.perform,
      Simulator.writeMemory]
    cases Word.ofBinary text <;> rfl
  | readRegisterText index =>
    have hresult : Operation.result fuel s (.readRegisterText index) = s := by
      simp only [Operation.result, Operation.perform]
      cases s.readRegister index <;> rfl
    rw [hresult]
    exact run_onMachine_readRegister s index
  | readRegister index =>
    have hresult : Operation.result fuel s (.readRegister index) = s := by
      simp only [Operation.result, Operation.perform, Operation.withRegister]
      cases Machine.register? index <;> rfl
    rw [hresult]
    exact run_onMachine_readRegister s index
  | writeRegister index v => exact run_onMachine_writeRegister s fuel index v
  | writeRegisterText index text =>
    cases ht : Word.ofBinary text with
    | error e =>
      have hnot : ¬ Image.IsWord text.toList := Image.not_isWord_iff.2 ⟨e, ht⟩
      simp only [perform, ht, Operation.misuse?, if_neg hnot, Operation.result, Operation.perform,
        Simulator.writeRegister]
      rfl
    | ok v =>
      have hword : Image.IsWord text.toList := Image.isWord_iff.2 ⟨v, ht⟩
      have hresult : Operation.result fuel s (.writeRegisterText index text) =
          Operation.result fuel s (.writeRegister index v) := by
        rw [Operation.result, Operation.perform_writeRegisterText_of_ok fuel s ht]
        rfl
      simp only [perform, ht, Operation.misuse?, if_pos hword, hresult]
      exact run_onMachine_writeRegister s fuel index v

theorem performAll_cons (fuel : Nat) (op : Operation) (ops : List Operation) (s : Simulator) :
    performAll fuel (op :: ops) s =
      match op.misuse? with
      | some cause => (some cause :: (performAll fuel ops s).1, (performAll fuel ops s).2)
      | none => (none :: (performAll fuel ops (op.result fuel s)).1,
          (performAll fuel ops (op.result fuel s)).2) := by
  rw [performAll, run_perform]
  cases op.misuse? <;> rfl

/-- A session goes on as if the operations that fail had not been asked for. -/
theorem performAll_eq (fuel : Nat) (ops : List Operation) (s : Simulator) :
    performAll fuel ops s = (ops.map Operation.misuse?,
      (performAll fuel (ops.filter (·.misuse?.isNone)) s).2) := by
  induction ops generalizing s with
  | nil => rfl
  | cons op ops ih =>
    rw [performAll_cons, List.map_cons]
    cases hop : op.misuse? with
    | some cause =>
      rw [List.filter_cons_of_neg (by simp [hop]), ih]
    | none =>
      rw [List.filter_cons_of_pos (by simp [hop]), performAll_cons, hop]
      dsimp only
      rw [ih]

theorem performAll_of_some {fuel : Nat} {ops : List Operation} {s t : Simulator}
    {replies : List Reply} (h : Operation.performAll fuel s ops = some (replies, t)) :
    (performAll fuel ops s).2 = t ∧
      List.Forall₂ (fun op reply => ∀ cause, reply = .misuse cause ↔ op.misuse? = some cause)
        ops replies := by
  induction ops generalizing s replies with
  | nil =>
    cases h
    exact ⟨rfl, .nil⟩
  | cons op ops ih =>
    obtain ⟨reply, u, replies, rfl, hp, hrest⟩ := Operation.exists_of_performAll_cons h
    obtain ⟨hlast, hreplies⟩ := ih hrest
    rw [performAll_cons]
    cases hop : op.misuse? with
    | some cause =>
      cases (Operation.perform_of_misuse? hop fuel s).symm.trans hp
      exact ⟨hlast, .cons (by simp [hop]) hreplies⟩
    | none =>
      have hresult : Operation.result fuel s op = u := by rw [Operation.result, hp]
      rw [hresult]
      exact ⟨hlast, .cons (by simp [hop, Operation.ne_misuse_of_perform hop hp]) hreplies⟩

end Checked

/-- No program makes a check fail, on any machine. In a session only those operations fail that ask
for a register by a number of eight or more, and they leave the simulator as it was. -/
theorem engine_meets_preconditions :
    (∀ w, Checked.decode w = .ok ((Instruction.decode w).map Instruction.raw) ∧
      ∀ i, Checked.decode w = .ok (some i) → i.InBounds) ∧
    (∀ m w, (Checked.prepare w).run m = .ok ((Instruction.decodeFor m w).map Instruction.raw) m ∧
      (Checked.execute w).run m =
        match Instruction.execute m w with
        | .error fault => .ok (.error fault) m
        | .ok (signal, n) => .ok (.ok signal) n) ∧
    (∀ s, Checked.cycle.run s = .ok (s.cycle.1.map (·.map Cycle.raw)) s.cycle.2 ∧
      Checked.step.run s = .ok s.step.1 s.step.2 ∧
      (∀ n, (Checked.stepMany n).run s = .ok (s.stepMany n).1 (s.stepMany n).2) ∧
      ∀ fuel, (Checked.run fuel).run s = .ok ((s.run fuel).map (·.1)) (s.advance fuel)) ∧
    ∀ fuel s ops,
      (∀ op : Operation, (Checked.perform fuel op).run s =
        match op.misuse? with
        | some cause => .error cause s
        | none => .ok () (op.result fuel s)) ∧
      Checked.performAll fuel ops s = (ops.map Operation.misuse?,
        (Checked.performAll fuel (ops.filter (·.misuse?.isNone)) s).2) ∧
      ∀ replies t, Operation.performAll fuel s ops = some (replies, t) →
        (Checked.performAll fuel ops s).2 = t ∧
        List.Forall₂ (fun op reply => ∀ cause, reply = .misuse cause ↔ op.misuse? = some cause)
          ops replies := by
  refine ⟨fun w => ⟨Checked.decode_eq w, fun i h => ?_⟩, fun m w => ⟨Checked.run_prepare m w,
    Checked.run_execute m w⟩, fun s => ⟨Checked.run_cycle s, Checked.run_step s,
    fun n => Checked.run_stepMany n s, fun fuel => Checked.run_run fuel s⟩, fun fuel s ops =>
    ⟨Checked.run_perform fuel s, Checked.performAll_eq fuel ops s,
      fun _ _ => Checked.performAll_of_some⟩⟩
  rw [Checked.decode_eq, Except.ok.injEq, Option.map_eq_some_iff] at h
  obtain ⟨j, -, rfl⟩ := h
  exact j.inBounds_raw

end Lc3
