import Lc3.Word.Basic

/-! # Hexadecimal text

Words in dumps and messages are written as four hexadecimal digits, in lower case for values and in
upper case for the addresses that a user may type. -/

namespace Lc3.Word

def hexDigits (w : Word) : List Char :=
  [12, 8, 4, 0].map fun shift => Nat.digitChar (w.extractLsb' shift 4).toNat

def toHex (w : Word) : String :=
  String.ofList w.hexDigits

def toUpperHex (w : Word) : String :=
  String.ofList (w.hexDigits.map Char.toUpper)

end Lc3.Word
