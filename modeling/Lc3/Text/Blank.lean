/-! # Blanks

The characters that may surround an entry without being part of it are those with the Unicode
property `White_Space`. They are more than the white space of `Char`, which is ASCII only. -/

namespace Lc3.Text

/-- The characters with the property `White_Space`, as first and last code points of their ranges.
-/
def blankRanges : List (Nat × Nat) :=
  [(0x09, 0x0D), (0x20, 0x20), (0x85, 0x85), (0xA0, 0xA0), (0x1680, 0x1680), (0x2000, 0x200A),
    (0x2028, 0x2029), (0x202F, 0x202F), (0x205F, 0x205F), (0x3000, 0x3000)]

def isBlank (c : Char) : Bool :=
  blankRanges.any fun (first, last) => first ≤ c.toNat && c.toNat ≤ last

def trimStart (cs : List Char) : List Char :=
  cs.dropWhile isBlank

def trimEnd (cs : List Char) : List Char :=
  (cs.reverse.dropWhile isBlank).reverse

def trim (cs : List Char) : List Char :=
  trimEnd (trimStart cs)

theorem isBlank_newline : isBlank '\n' = true := by decide

@[simp]
theorem trim_nil : trim [] = [] := rfl

end Lc3.Text
