import Lc3.Image
import Lc3.Simulator.Run

/-! # Words as text

A simulator seen from outside: memory and registers are read and written as binary text. A text that
is not a word, or a number that names no register, changes nothing. -/

namespace Lc3

/-- Why a register was not written. -/
inductive RegisterWriteError where
  | malformed (cause : BinaryError)
  | misuse (cause : Misuse)
deriving Repr, DecidableEq

namespace Simulator

def load (s : Simulator) (image : Image) : Simulator :=
  s.mapMachine image.load

def ofImage (image : Image) : Simulator :=
  initial.load image

def readMemory (s : Simulator) (a : Word) : String :=
  (s.machine.readMemory a).toBinary

def writeMemory (s : Simulator) (a : Word) (text : String) : Except BinaryError Simulator :=
  match Word.ofBinary text with
  | .error e => .error e
  | .ok v => .ok (s.mapMachine (·.writeMemory a v))

def readRegister (s : Simulator) (index : Nat) : Except Misuse String :=
  (Machine.register? index).map fun r => (s.machine.readRegister r).toBinary

/-- The text is looked at before the number of the register. -/
def writeRegister (s : Simulator) (index : Nat) (text : String) :
    Except RegisterWriteError Simulator :=
  match Word.ofBinary text with
  | .error e => .error (.malformed e)
  | .ok v =>
    match Machine.register? index with
    | .error e => .error (.misuse e)
    | .ok r => .ok (s.mapMachine (·.writeRegister r v))

end Simulator
end Lc3
