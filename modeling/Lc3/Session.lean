import Lc3.Simulator.Boundary

/-! # Sessions

Everything that can be done to a simulator, as data, so that a session is a list of operations and
its replies. An operation that is refused leaves the simulator as it was, and the session goes on.
-/

namespace Lc3

inductive Operation where
  | load (image : Image)
  | loadText (source : String)
  /-- Go on with a fresh simulator that holds the image. -/
  | startOver (source : String)
  /-- Keep the machine, but count and run it as if nothing had been run. -/
  | renew
  | readMemoryText (address : Word)
  | writeMemoryText (address : Word) (text : String)
  | readRegisterText (index : Nat)
  | writeRegisterText (index : Nat) (text : String)
  | readMemory (address : Word)
  | writeMemory (address value : Word)
  | readRegister (index : Nat)
  | writeRegister (index : Nat) (value : Word)
  | jump (target : Word)
  | jumpRelative (offset : Word)
  | setSupervisor (supervisor : Bool)
  /-- Check whether a word could run, and run nothing. -/
  | decode (word : Word)
  /-- Run a word on the machine alone, outside of any cycle. -/
  | execute (word : Word)
  | step
  | cycle
  | run
  | stepMany (count : Nat)
deriving Repr, DecidableEq

inductive Reply where
  | done
  | text (text : String)
  | word (word : Word)
  | instruction (instruction : Instruction)
  | signal (signal : Signal)
  | cycle (cycle : Option Cycle)
  | faulted (fault : Fault)
  | malformed (cause : BinaryError)
  | misuse (cause : Misuse)
  | failed (failure : Failure)
deriving Repr, DecidableEq

namespace Reply

/-- The reply to something that a fault can end. -/
def ofExcept {α : Type} (reply : α → Reply) : Except Fault α → Reply
  | .ok a => reply a
  | .error fault => .faulted fault

end Reply

namespace Operation

/-- Goes on to the simulator that `f` makes of an image, unless the source is rejected. -/
def withImage (s : Simulator) (source : String) (f : Image → Simulator) : Reply × Simulator :=
  match Image.parse source with
  | .error failure => (.failed failure, s)
  | .ok image => (.done, f image)

/-- Goes on with the register of that number, if there is one. -/
def withRegister (s : Simulator) (index : Nat) (f : Register → Reply × Simulator) :
    Reply × Simulator :=
  match Machine.register? index with
  | .error misuse => (.misuse misuse, s)
  | .ok r => f r

/-- Does the operation. There is no reply if it is a run that takes more than `fuel` cycles. -/
def perform (fuel : Nat) (s : Simulator) : Operation → Option (Reply × Simulator)
  | load image => some (.done, s.load image)
  | loadText source => some (withImage s source s.load)
  | startOver source => some (withImage s source .ofImage)
  | renew => some (.done, s.renew)
  | readMemoryText a => some (.text (s.readMemory a), s)
  | writeMemoryText a text =>
    match s.writeMemory a text with
    | .error e => some (.malformed e, s)
    | .ok s => some (.done, s)
  | readRegisterText index =>
    match s.readRegister index with
    | .error e => some (.misuse e, s)
    | .ok text => some (.text text, s)
  | writeRegisterText index text =>
    match s.writeRegister index text with
    | .error (.malformed e) => some (.malformed e, s)
    | .error (.misuse e) => some (.misuse e, s)
    | .ok s => some (.done, s)
  | readMemory a => some (.word (s.machine.readMemory a), s)
  | writeMemory a v => some (.done, s.mapMachine (·.writeMemory a v))
  | readRegister index =>
    some (withRegister s index fun r => (.word (s.machine.readRegister r), s))
  | writeRegister index v =>
    some (withRegister s index fun r => (.done, s.mapMachine (·.writeRegister r v)))
  | jump target => some (.done, s.mapMachine (·.jump target))
  | jumpRelative offset => some (.done, s.mapMachine (·.jumpRelative offset))
  | setSupervisor supervisor => some (.done, s.mapMachine (·.setSupervisor supervisor))
  | decode w => some (.ofExcept .instruction (Instruction.decodeFor s.machine w), s)
  | execute w =>
    match Instruction.execute s.machine w with
    | .error fault => some (.faulted fault, s)
    | .ok (signal, machine) => some (.signal signal, s.mapMachine fun _ => machine)
  | step =>
    match s.step with
    | (result, s) => some (.ofExcept (fun _ => .done) result, s)
  | cycle =>
    match s.cycle with
    | (result, s) => some (.ofExcept .cycle result, s)
  | stepMany n =>
    match s.stepMany n with
    | (result, s) => some (.ofExcept (fun _ => .done) result, s)
  | run =>
    match s.run fuel with
    | none => none
    | some (result, s) => some (.ofExcept (fun _ => .done) result, s)

/-- Does the operations in order and collects the replies. -/
def performAll (fuel : Nat) (s : Simulator) : List Operation → Option (List Reply × Simulator)
  | [] => some ([], s)
  | op :: ops =>
    match perform fuel s op with
    | none => none
    | some (reply, s) =>
      match performAll fuel s ops with
      | none => none
      | some (replies, s) => some (reply :: replies, s)

theorem withImage_of_error {source : String} {failure : Failure}
    (h : Image.parse source = .error failure) (s : Simulator) (f : Image → Simulator) :
    withImage s source f = (.failed failure, s) := by
  simp [withImage, h]

theorem withImage_of_ok {source : String} {image : Image} (h : Image.parse source = .ok image)
    (s : Simulator) (f : Image → Simulator) : withImage s source f = (.done, f image) := by
  simp [withImage, h]

theorem withRegister_of_lt {index : Nat} (h : index < 8) (s : Simulator)
    (f : Register → Reply × Simulator) : withRegister s index f = f ⟨index, h⟩ := by
  simp [withRegister, Machine.register?, h]

theorem withRegister_of_le {index : Nat} (h : 8 ≤ index) (s : Simulator)
    (f : Register → Reply × Simulator) :
    withRegister s index f = (.misuse (.registerOutOfRange index), s) := by
  simp [withRegister, Machine.register?, Nat.not_lt.2 h]

section
variable {text : String} {v : Word} {e : BinaryError} (fuel : Nat) (s : Simulator)

theorem perform_writeMemoryText_of_error (h : Word.ofBinary text = .error e) (a : Word) :
    perform fuel s (.writeMemoryText a text) = some (.malformed e, s) := by
  simp only [perform, Simulator.writeMemory, h]

theorem perform_writeMemoryText_of_ok (h : Word.ofBinary text = .ok v) (a : Word) :
    perform fuel s (.writeMemoryText a text) = perform fuel s (.writeMemory a v) := by
  simp only [perform, Simulator.writeMemory, h]

theorem perform_writeRegisterText_of_error (h : Word.ofBinary text = .error e) (index : Nat) :
    perform fuel s (.writeRegisterText index text) = some (.malformed e, s) := by
  simp only [perform, Simulator.writeRegister, h]

theorem perform_writeRegisterText_of_ok (h : Word.ofBinary text = .ok v) (index : Nat) :
    perform fuel s (.writeRegisterText index text) = perform fuel s (.writeRegister index v) := by
  simp only [perform, Simulator.writeRegister, withRegister, h]
  cases Machine.register? index <;> rfl

theorem perform_readRegisterText (index : Nat) : perform fuel s (.readRegisterText index) =
    some (withRegister s index fun r => (.text (s.machine.readRegister r).toBinary, s)) := by
  simp only [perform, Simulator.readRegister, withRegister]
  cases Machine.register? index <;> rfl

end

end Operation
end Lc3
