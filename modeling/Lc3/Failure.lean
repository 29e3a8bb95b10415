import Lc3.Fault
import Lc3.Files
import Lc3.Text.Line
import Lc3.Word.Hex

/-! # Failures

Everything that a command can fail with, and what the user is told about it. -/

namespace Lc3
open Text (Span)

inductive Failure where
  | unreadable (cause : ReadError)
  | emptyImage
  /-- The head of the image, at `span` of the source, is not an address. -/
  | badOrigin (span : Span) (source : String) (cause : BinaryError)
  /-- A later entry of the image, at `span` of the source, is not a word. -/
  | badWord (span : Span) (source : String) (cause : BinaryError)
  | badAddress (text : String)
  | badPoke (text : String)
  /-- The word at `pc` could not be run. -/
  | faulted (fault : Fault) (pc : Word)
  | limitReached (limit : Nat)
deriving Repr, DecidableEq

/-- A part of the source that a failure points at. -/
structure Label where
  span : Span
  text : String
deriving Repr, DecidableEq

namespace Failure

/-- The severity of every failure, which `main` has no use for. -/
def severity : String := "Error"

def message : Failure → String
  | unreadable cause => cause.message
  | emptyImage => "Load image is empty"
  | badOrigin _ _ cause => s!"Encountered a malformed start address: {cause.message}"
  | badWord _ _ cause => s!"Encountered a malformed word: {cause.message}"
  | badAddress text => s!"Invalid address `{text}`"
  | badPoke text => s!"Invalid memory poke `{text}`"
  | faulted fault pc => s!"Machine faulted at address 0x{pc.toHex}: {fault.message}"
  | limitReached limit => s!"Program did not halt within {limit} instructions"

/-- The name of the kind of failure. -/
def code : Failure → Option String
  | unreadable _ => none
  | emptyImage => some "image::empty"
  | badOrigin .. => some "image::bad_orig"
  | badWord .. => some "image::bad_word"
  | badAddress _ => some "cli::address"
  | badPoke _ => some "cli::poke"
  | faulted (.undecodable ..) _ => some "run::decode"
  | faulted (.unprivileged ..) _ => some "run::privilege"
  | limitReached _ => some "run::limit"

def help : Failure → Option String
  | unreadable _ => none
  | emptyImage => some "a load image starts with a line holding the start address"
  | badOrigin .. => some "the first line gives the start address as up to 16 binary digits"
  | badWord .. => some "each line after the address must hold exactly 16 `0`/`1` characters"
  | badAddress _ => some "addresses are written as `x3000`, `0x3000` or decimal"
  | badPoke _ => some "write pokes as ADDR=WORD, eg. `x3100=0000000000001111`"
  | faulted (.undecodable ..) _ =>
    some "the program counter may have run into data or uninitialised memory"
  | faulted (.unprivileged ..) _ =>
    some "pass `--supervisor` to start the machine in supervisor mode"
  | limitReached _ => some "raise `--limit`, or check that the program reaches `TRAP x25`"

def labels : Failure → List Label
  | badOrigin span _ _ => [⟨span, "malformed address"⟩]
  | badWord span _ _ => [⟨span, "malformed word"⟩]
  | _ => []

/-- The source that the labels point into. -/
def source : Failure → Option String
  | badOrigin _ source _ | badWord _ source _ => some source
  | _ => none

end Failure
end Lc3
