import Lc3.Misuse

/-! # Words

A word is 16 bits. Memory cells, registers, addresses and offsets are all words, and arithmetic on
them wraps. A field of a word is a run of its bits, counted from the least significant one; short
fields that hold a signed number are extended from their top bit. -/

namespace Lc3

abbrev Word := BitVec 16

namespace Word

/-- The `width` bits of `w` from bit `shift` up, as a number. -/
def field (w : Word) (shift width : Nat) : Word :=
  (w.extractLsb' shift width).setWidth 16

/-- The low `width` bits of `w`, read as a signed number. -/
def signExtendLow (w : Word) (width : Nat) : Word :=
  (w.setWidth width).signExtend 16

/-- `field`, for a field that is not empty and lies within the word. -/
def field? (w : Word) (shift width : Nat) : Except Misuse Word :=
  if 0 < width ∧ shift + width ≤ 16 then .ok (w.field shift width) else .error .fieldOutsideWord

/-- `signExtendLow`, for a width that has a sign bit within the word. -/
def signExtendLow? (w : Word) (width : Nat) : Except Misuse Word :=
  if 0 < width ∧ width ≤ 16 then .ok (w.signExtendLow width) else .error .signOutsideWord

end Word
end Lc3
