import Lc3.Word.Basic

/-! # Binary text

Words are exchanged as binary digits, the most significant first. A word is written with all of its
16 digits; an address at the head of a load image may be shorter, and is then a signed number that
its leading digit extends. -/

namespace Lc3

/-- The binary digits of `v`, the most significant first. -/
def binaryDigits {n : Nat} (v : BitVec n) : List Char :=
  (List.range n).map fun i => if v.getMsbD i then '1' else '0'

def binaryText {n : Nat} (v : BitVec n) : String :=
  String.ofList (binaryDigits v)

/-- Why a text is not a binary number. -/
inductive BinaryError where
  /-- The text has `found` characters, which is not an admitted number of digits. -/
  | wrongLength (found : Nat)
  /-- The first character that is no binary digit is `char`, after `index` digits. -/
  | invalidDigit (char : Char) (index : Nat)
deriving Repr, DecidableEq

def BinaryError.message : BinaryError → String
  | wrongLength found => s!"Expected 16 binary digits, found {found}"
  | invalidDigit char index => s!"Invalid binary digit `{char}` at position {index}"

namespace Word

/-- Reads digits into the low end of `high`, of which `index` digits have been read before. -/
def readDigits : List Char → (index : Nat) → (high : Word) → Except BinaryError Word
  | [], _, high => .ok high
  | c :: cs, index, high =>
    if c = '0' then readDigits cs (index + 1) (high <<< 1)
    else if c = '1' then readDigits cs (index + 1) (high <<< 1 ||| 1)
    else .error (.invalidDigit c index)

/-- Reads a word from exactly 16 binary digits. The length is checked before the digits. -/
def ofDigits (cs : List Char) : Except BinaryError Word :=
  if cs.length = 16 then readDigits cs 0 0 else .error (.wrongLength cs.length)

/-- Reads a signed number from 1 to 16 binary digits. The length is checked before the digits. -/
def ofSignedDigits (cs : List Char) : Except BinaryError Word :=
  if 0 < cs.length ∧ cs.length ≤ 16 then
    (readDigits cs 0 0).map (·.signExtendLow cs.length)
  else
    .error (.wrongLength cs.length)

def toBinary (w : Word) : String :=
  binaryText w

def ofBinary (text : String) : Except BinaryError Word :=
  ofDigits text.toList

def ofSignedBinary (text : String) : Except BinaryError Word :=
  ofSignedDigits text.toList

theorem length_binaryDigits {n : Nat} (v : BitVec n) : (binaryDigits v).length = n := by
  simp [binaryDigits]

end Word
end Lc3
