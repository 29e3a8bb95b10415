import Lc3.Word.Basic

/-! # Condition code

The condition code holds the sign of the last word written to a register. A branch names the signs
it is taken on by a mask of three bits, `nzp` from the highest to the lowest. -/

namespace Lc3

inductive Condition where
  | negative
  | zero
  | positive
  /-- No register has been written yet, so that no branch is taken. -/
  | unset
deriving Repr, DecidableEq

namespace Condition

/-- The sign of `w` as a signed number. -/
def ofWord (w : Word) : Condition :=
  if w.msb then negative else if w = 0 then zero else positive

/-- The bit of a branch mask that names the sign. -/
def mask : Condition → BitVec 3
  | negative => 0b100
  | zero => 0b010
  | positive => 0b001
  | unset => 0b000

/-- Whether a branch on the signs in `nzp` is taken. -/
def meets (c : Condition) (nzp : BitVec 3) : Bool :=
  nzp &&& c.mask != 0

theorem ofWord_ne_unset (w : Word) : ofWord w ≠ unset := by
  unfold ofWord
  split
  · simp
  · split <;> simp

end Condition
end Lc3
