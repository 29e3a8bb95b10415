import Lc3.Failure
import Lc3.Machine
import Lc3.Numeral

/-! # Addresses and pokes

On the command line an address is written in decimal, or in hexadecimal after one of four marks, and
a poke is an address and a word with an equals sign between them. -/

namespace Lc3

namespace Address

/-- What follows the mark of a hexadecimal address. -/
def hexPart? : List Char → Option (List Char)
  | '0' :: 'x' :: cs | '0' :: 'X' :: cs | 'x' :: cs | 'X' :: cs => some cs
  | _ => none

def read? (cs : List Char) : Option Nat :=
  match hexPart? cs with
  | some digits => Numeral.read? 16 65536 digits
  | none => Numeral.read? 10 65536 cs

def parse (text : String) : Except Failure Word :=
  match read? text.toList with
  | some n => .ok (BitVec.ofNat 16 n)
  | none => .error (.badAddress text)

end Address

/-- A word to write to memory before a program is loaded. -/
structure Poke where
  address : Word
  word : Word
deriving Repr, DecidableEq

namespace Poke

/-- Reads a poke. The address is what stands before the first equals sign, and is checked first. -/
def parse (text : String) : Except Failure Poke :=
  let cs := text.toList
  match cs.dropWhile (· ≠ '=') with
  | [] => .error (.badPoke text)
  | _ :: rest => do
    let address ← Address.parse (String.ofList (Text.trim (cs.takeWhile (· ≠ '='))))
    let word ← (Word.ofDigits (Text.trim rest)).mapError fun _ => .badPoke text
    return ⟨address, word⟩

def apply (m : Machine) (p : Poke) : Machine :=
  m.writeMemory p.address p.word

end Poke
end Lc3
