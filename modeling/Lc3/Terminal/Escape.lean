/-! # Escape sequences

Texts for a terminal carry escape sequences, each from an escape character to the next `m`. They set
the style of what follows, and are taken out where plain text is wanted. -/

namespace Lc3.Terminal

def escape : Char := '\x1b'

/-- The text without its escape sequences; `inside` tells whether it starts within one. A sequence
that has no end takes the rest of the text with it. -/
def stripFrom : (inside : Bool) → List Char → List Char
  | _, [] => []
  | false, c :: cs => if c = escape then stripFrom true cs else c :: stripFrom false cs
  | true, c :: cs => if c = 'm' then stripFrom false cs else stripFrom true cs

def stripEscapes (text : String) : String :=
  String.ofList (stripFrom false text.toList)

inductive Color where
  | green
  | cyan
  | blue
deriving Repr, DecidableEq

/-- The escape sequence that turns the color on. -/
def Color.start : Color → List Char
  | green => "\x1b[32m".toList
  | cyan => "\x1b[36m".toList
  | blue => "\x1b[34m".toList

/-- The escape sequence that turns all styles off. -/
def reset : List Char := "\x1b[0m".toList

/-- The text with the color turned on again after each point where styles are turned off. -/
def resume (color : Color) : List Char → List Char
  | '\x1b' :: '[' :: '0' :: 'm' :: cs => reset ++ color.start ++ resume color cs
  | c :: cs => c :: resume color cs
  | [] => []

def Color.paint (color : Color) (text : String) : String :=
  String.ofList (color.start ++ resume color text.toList ++ reset)

@[simp]
theorem stripFrom_nil (inside : Bool) : stripFrom inside [] = [] := by
  cases inside <;> rfl

/-- What is stripped has no escape character left. -/
theorem escape_notMem_stripFrom (inside : Bool) (cs : List Char) :
    escape ∉ stripFrom inside cs := by
  induction cs generalizing inside with
  | nil => simp
  | cons c cs ih =>
    cases inside
    · by_cases h : c = escape
      · simp [stripFrom, h, ih]
      · simp [stripFrom, h, ih, Ne.symm h]
    · by_cases h : c = 'm' <;> simp [stripFrom, h, ih]

end Lc3.Terminal
