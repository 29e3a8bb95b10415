import Lc3.Terminal.Escape
import Lc3.Text.Column

/-! # Display

How text is shown. The results of a program and the trace of its steps go to two channels. Text is
shown a piece at a time: what is done to a piece does not depend on the others. -/

namespace Lc3.Terminal

inductive Channel where
  | result
  | trace
deriving Repr, DecidableEq

structure Display where
  /-- Whether results are meant to be read by a program. -/
  minimal : Bool := false
  /-- Whether pieces keep their escape sequences. -/
  color : Bool := true
  /-- Whether status lines and traces are painted. -/
  painted : Bool := false
deriving Repr, DecidableEq

namespace Display

/-- Whether escape sequences are taken out of what is shown. -/
def isPlain (d : Display) : Bool :=
  d.minimal || !d.color

def render (d : Display) (channel : Channel) (piece : String) : String :=
  if d.isPlain then stripEscapes piece
  else match channel with
    | .result => piece
    | .trace => if d.painted then Color.blue.paint piece else piece

def renderAll (d : Display) (channel : Channel) (pieces : List String) : String :=
  String.join (pieces.map (d.render channel))

/-- A line that tells how far a command has come, after a verb in a column of its own. -/
def statusLine (d : Display) (color : Color) (verb text : String) : String :=
  if d.minimal then ""
  else
    let verb := Text.alignRight 12 verb
    (if d.painted then color.paint verb else verb) ++ " " ++ text ++ "\n"

end Display
end Lc3.Terminal
