/-! # Broken preconditions

The few operations that are not defined on all of their arguments refuse the others with a `Misuse`
and leave the state they act on as it was. -/

namespace Lc3

/-- An argument outside what an operation is defined on. -/
inductive Misuse where
  /-- The bits asked for do not lie within a word. -/
  | fieldOutsideWord
  /-- There is no sign bit to extend from, or it lies above the word. -/
  | signOutsideWord
  | registerOutOfRange (index : Nat)
  /-- The environment was read a second time. -/
  | configuredTwice
  /-- The settings were asked for before the environment was read. -/
  | notConfigured
deriving Repr, DecidableEq

def Misuse.message : Misuse → String
  | fieldOutsideWord => "assertion failed: width > 0 && shift + width <= 16"
  | signOutsideWord => "assertion failed: bits > 0 && bits <= 16"
  | registerOutOfRange index => s!"register index {index} is out of range (R0..R7)"
  | configuredTwice => "tried to initialize environment state multiple times"
  | notConfigured => "tried to access environment state before initialization"

end Lc3
