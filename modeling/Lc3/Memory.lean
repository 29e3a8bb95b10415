import Lc3.Word.Basic

/-! # Memory

One word at each of the 65536 addresses. The cells are seen through `read` only: `read_write` says
what a write does to it, and two memories with the same reads are equal. -/

namespace Lc3

structure Memory where
  cells : Vector Word 65536

namespace Memory

def zero : Memory :=
  ⟨Vector.replicate 65536 0⟩

def read (m : Memory) (a : Word) : Word :=
  m.cells[a.toNat]

def write (m : Memory) (a v : Word) : Memory :=
  match m with
  | ⟨cells⟩ => ⟨cells.set a.toNat v a.isLt⟩

/-- Writes `ws` at the addresses from `a` up, going on at zero after the last address. -/
def writeAll (m : Memory) (a : Word) : List Word → Memory
  | [] => m
  | w :: ws => writeAll (m.write a w) (a + 1) ws

/-- The addresses, in ascending order, at which `m` differs from `old`, with what `m` holds there.
No command needs them: they are for telling what an operation has changed. -/
def changesFrom (m old : Memory) : List (Word × Word) :=
  Nat.foldRev 65536 (fun i _ changes =>
    if m.cells[i] = old.cells[i] then changes
    else (BitVec.ofNat 16 i, m.cells[i]) :: changes) []

@[simp]
theorem read_zero (a : Word) : zero.read a = 0 := by
  simp [zero, read]

theorem read_write (m : Memory) (a v b : Word) :
    (m.write a v).read b = if a = b then v else m.read b := by
  simp [read, write, Vector.getElem_set, BitVec.toNat_inj]

@[simp]
theorem read_write_self (m : Memory) (a v : Word) : (m.write a v).read a = v := by
  simp [read_write]

@[ext]
theorem ext {m n : Memory} (h : ∀ a, m.read a = n.read a) : m = n := by
  obtain ⟨cells⟩ := m
  obtain ⟨cells'⟩ := n
  exact congrArg Memory.mk (Vector.ext fun i hi => h (BitVec.ofNatLT i hi))

theorem changesFrom_eq_map_filter (m old : Memory) :
    m.changesFrom old = ((List.finRange 65536).filter fun i => m.cells[i] ≠ old.cells[i]).map
      fun i => (BitVec.ofFin i, m.cells[i]) := by
  rw [changesFrom, Nat.foldRev_eq_finRange_foldr]
  induction List.finRange 65536 with
  | nil => rfl
  | cons i cells ih =>
    rw [List.foldr_cons, ih]
    by_cases h : m.cells[i.val] = old.cells[i.val]
    · simp [h]
    · simp [h]

@[simp]
theorem mem_changesFrom_iff {m old : Memory} {a v : Word} :
    (a, v) ∈ m.changesFrom old ↔ m.read a = v ∧ old.read a ≠ v := by
  simp only [changesFrom_eq_map_filter, List.mem_map, List.mem_filter, List.mem_finRange, true_and,
    decide_eq_true_eq, Prod.mk.injEq]
  constructor
  · rintro ⟨i, hi, rfl, rfl⟩
    exact ⟨rfl, Ne.symm hi⟩
  · rintro ⟨rfl, h⟩
    exact ⟨a.toFin, Ne.symm h, rfl, rfl⟩

@[simp]
theorem writeAll_nil (m : Memory) (a : Word) : m.writeAll a [] = m := rfl

@[simp]
theorem writeAll_cons (m : Memory) (a w : Word) (ws : List Word) :
    m.writeAll a (w :: ws) = (m.write a w).writeAll (a + 1) ws := rfl

end Memory
end Lc3
