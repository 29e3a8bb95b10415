import Lc3.Opcode
import Lc3.Word.Binary

/-! # Faults

What stops a machine at a word that it cannot run. -/

namespace Lc3

inductive Fault where
  /-- The word encodes no instruction. -/
  | undecodable (opcode : Opcode) (word : Word)
  /-- The instruction needs supervisor mode. -/
  | unprivileged (opcode : Opcode) (word : Word)
deriving Repr, DecidableEq

def Fault.message : Fault → String
  | undecodable opcode word =>
    s!"Unknown opcode `{opcode.name}` in instruction {word.toBinary}"
  | unprivileged opcode _ => s!"`{opcode.name}` can only be executed in supervisor mode"

end Lc3
