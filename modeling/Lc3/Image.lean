import Lc3.Failure
import Lc3.Machine

/-! # Load images

A load image is a text with one entry on a line: first the address that the program starts at, then
the words to place from there on. Blanks around an entry and blank lines do not count. -/

namespace Lc3
open Text

structure Image where
  /-- The address of the first word, and where the program starts. -/
  origin : Word
  words : List Word
deriving Repr, DecidableEq

namespace Image

/-- The lines of the source that are not blank. -/
def entries (source : String) : List Line :=
  (lines source.toList).filter fun l => !l.text.isEmpty

/-- Reads an image, and fails at the first entry that is malformed. -/
def parse (source : String) : Except Failure Image :=
  match entries source with
  | [] => .error .emptyImage
  | head :: rest => do
    let origin ← (Word.ofSignedDigits head.text).mapError (.badOrigin head.span source)
    let words ← rest.mapM fun l => (Word.ofDigits l.text).mapError (.badWord l.span source)
    return ⟨origin, words⟩

/-- Places the words from the origin on, going on at zero after the last address, and points the
program counter at the origin. -/
def load (image : Image) (m : Machine) : Machine :=
  match m with
  | ⟨memory, registers, _, condition, supervisor⟩ =>
    ⟨memory.writeAll image.origin image.words, registers, image.origin, condition, supervisor⟩

section
variable (image : Image) (m : Machine)

@[simp] theorem memory_load :
    (image.load m).memory = m.memory.writeAll image.origin image.words := rfl

@[simp] theorem readRegister_load (r : Register) :
    (image.load m).readRegister r = m.readRegister r := rfl

@[simp] theorem pc_load : (image.load m).pc = image.origin := rfl

@[simp] theorem condition_load : (image.load m).condition = m.condition := rfl

@[simp] theorem supervisor_load : (image.load m).supervisor = m.supervisor := rfl

end

end Image
end Lc3
