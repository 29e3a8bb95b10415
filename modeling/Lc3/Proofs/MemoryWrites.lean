import Lc3.Address
import Lc3.Image

/-! # The last write to an address

Memory holds at each address what the last write there has left, and what it held before if there
was none. Writes are pairs of an address and a word, in order; a load image is such a list, which
goes around the end of memory and can come back to where it started, and so is a list of pokes. -/

namespace Lc3

/-- The word that the last of the writes to `a` leaves there. -/
def lastTo (a : Word) (writes : List (Word × Word)) : Option Word :=
  (writes.filter (·.1 = a)).getLast?.map (·.2)

/-- The words of an image with their addresses, which wrap. -/
def Image.writes (image : Image) : List (Word × Word) :=
  image.words.mapIdx fun i w => (image.origin + BitVec.ofNat 16 i, w)

def Poke.write (p : Poke) : Word × Word :=
  (p.address, p.word)

section
variable (a : Word)

theorem lastTo_append (xs ys : List (Word × Word)) :
    lastTo a (xs ++ ys) = (lastTo a ys).or (lastTo a xs) := by
  rw [lastTo, List.filter_append, List.getLast?_append, Option.map_or]
  rfl

theorem lastTo_singleton (w : Word × Word) :
    lastTo a [w] = if w.1 = a then some w.2 else none := by
  by_cases h : w.1 = a <;> simp [lastTo, h]

theorem getD_lastTo_cons (w : Word × Word) (ws : List (Word × Word)) (v : Word) :
    (lastTo a (w :: ws)).getD v = (lastTo a ws).getD (if w.1 = a then w.2 else v) := by
  rw [← List.singleton_append, lastTo_append, Option.getD_or, lastTo_singleton]
  split <;> rfl

theorem exists_lastTo_of_mem {w : Word × Word} {ws : List (Word × Word)} (h : w ∈ ws) :
    ∃ v, lastTo w.1 ws = some v := by
  have hmem : w ∈ ws.filter (·.1 = w.1) := List.mem_filter.2 ⟨h, by simp⟩
  obtain ⟨u, hu⟩ := Option.isSome_iff_exists.1
    (List.getLast?_isSome.2 (List.ne_nil_of_mem hmem))
  exact ⟨u.2, by rw [lastTo, hu]; rfl⟩

end

theorem Image.writes_cons (origin w : Word) (words : List Word) :
    writes ⟨origin, w :: words⟩ = (origin, w) :: writes ⟨origin + 1, words⟩ := by
  have hhead : origin + BitVec.ofNat 16 0 = origin := by simp
  have htail : (fun i (w : Word) => (origin + BitVec.ofNat 16 (i + 1), w)) =
      fun i w => (origin + 1 + BitVec.ofNat 16 i, w) := by
    funext i w
    rw [BitVec.ofNat_add, BitVec.add_comm (BitVec.ofNat 16 i), ← BitVec.add_assoc]
    rfl
  rw [writes, List.mapIdx_cons, hhead, htail]
  rfl

theorem Memory.read_writeAll (m : Memory) (origin : Word) (words : List Word) (a : Word) :
    (m.writeAll origin words).read a =
      (lastTo a (Image.writes ⟨origin, words⟩)).getD (m.read a) := by
  induction words generalizing m origin with
  | nil => rfl
  | cons w words ih =>
    rw [writeAll_cons, ih, read_write, Image.writes_cons, getD_lastTo_cons]

theorem Image.readMemory_load (image : Image) (m : Machine) (a : Word) :
    (image.load m).readMemory a = (lastTo a image.writes).getD (m.readMemory a) :=
  m.memory.read_writeAll image.origin image.words a

theorem Poke.readMemory_foldl_apply (pokes : List Poke) (m : Machine) (a : Word) :
    (pokes.foldl Poke.apply m).readMemory a =
      (lastTo a (pokes.map Poke.write)).getD (m.readMemory a) := by
  induction pokes generalizing m with
  | nil => rfl
  | cons p pokes ih =>
    rw [List.foldl_cons, ih, List.map_cons, getD_lastTo_cons, apply,
      Machine.readMemory_writeMemory]
    rfl

end Lc3
