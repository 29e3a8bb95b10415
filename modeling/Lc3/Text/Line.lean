import Lc3.Text.Blank

/-! # Lines

A source is cut at its newlines into pieces, and a line is a piece without the blanks around it. A
line remembers where it lies in the source, counted in bytes of UTF-8. What follows the last newline
is a piece if there is anything. -/

namespace Lc3.Text

def utf8Length (cs : List Char) : Nat :=
  cs.foldr (fun c n => c.utf8Size + n) 0

/-- The runs of characters between newlines. -/
def pieces (source : List Char) : List (List Char) :=
  source.foldr (fun c ps =>
    if c = '\n' then [] :: ps
    else match ps with
      | [] => [[c]]
      | p :: ps => (c :: p) :: ps) []

/-- A run of bytes. -/
structure Span where
  start : Nat
  length : Nat
deriving Repr, DecidableEq

structure Line where
  /-- The number of bytes before the line. -/
  start : Nat
  text : List Char
deriving Repr, DecidableEq

namespace Line

def span (l : Line) : Span where
  start := l.start
  length := utf8Length l.text

/-- The line of a piece that lies `offset` bytes into the source. A piece of blanks alone gives an
empty line at its end. -/
def ofPiece (offset : Nat) (piece : List Char) : Line where
  start := offset + (utf8Length piece - utf8Length (trimStart piece))
  text := trim piece

/-- The lines in `done`, which are in reverse, and after them those of pieces of which the first
lies `offset` bytes into the source. -/
def ofPieces (offset : Nat) (done : List Line) : List (List Char) → List Line
  | [] => done.reverse
  | p :: ps => ofPieces (offset + utf8Length p + 1) (ofPiece offset p :: done) ps

end Line

def lines (source : List Char) : List Line :=
  Line.ofPieces 0 [] (pieces source)

@[simp]
theorem utf8Length_nil : utf8Length [] = 0 := rfl

@[simp]
theorem utf8Length_cons (c : Char) (cs : List Char) :
    utf8Length (c :: cs) = c.utf8Size + utf8Length cs := rfl

@[simp]
theorem utf8Length_append (cs ds : List Char) :
    utf8Length (cs ++ ds) = utf8Length cs + utf8Length ds := by
  induction cs with
  | nil => simp
  | cons c cs ih => simp [ih, Nat.add_assoc]

theorem Line.ofPieces_eq_append (ps : List (List Char)) (offset : Nat) (done : List Line) :
    ofPieces offset done ps = done.reverse ++ ofPieces offset [] ps := by
  induction ps generalizing offset done with
  | nil => simp [ofPieces]
  | cons p ps ih => rw [ofPieces, ih, ofPieces, ih _ [_]]; simp

@[simp]
theorem Line.ofPieces_nil (offset : Nat) : ofPieces offset [] [] = [] := rfl

@[simp]
theorem Line.ofPieces_cons (offset : Nat) (p : List Char) (ps : List (List Char)) :
    ofPieces offset [] (p :: ps) =
      ofPiece offset p :: ofPieces (offset + utf8Length p + 1) [] ps := by
  rw [ofPieces, ofPieces_eq_append]; simp

@[simp]
theorem pieces_nil : pieces [] = [] := rfl

theorem pieces_newline (cs : List Char) : pieces ('\n' :: cs) = [] :: pieces cs := rfl

theorem pieces_cons_of_ne {c : Char} (h : c ≠ '\n') (cs : List Char) :
    pieces (c :: cs) = (c :: (pieces cs).headD []) :: (pieces cs).tail := by
  simp only [pieces, List.foldr_cons, h, if_false]
  split <;> simp_all

end Lc3.Text
