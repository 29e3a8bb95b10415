import Lc3.Word.Basic
import Mathlib.Data.List.Induction
import Mathlib.Tactic.Ring

/-! # Bits read as numbers

A list of bits, the most significant first, writes an unsigned number; in two's complement its first
bit counts negatively instead. `Word.unsigned_slice_eq_field` and
`Word.signed_slice_eq_signExtendLow` compare what is said about the fields of a word by their bits
with `Word.field` and `Word.signExtendLow`, which cut them out of the word as a whole. -/

namespace Lc3

namespace Bits

def unsigned (bits : List Bool) : Nat :=
  bits.foldl (fun n b => 2 * n + b.toNat) 0

def signed : List Bool → Int
  | [] => 0
  | b :: bits => unsigned bits - b.toNat * 2 ^ bits.length

@[simp]
theorem unsigned_nil : unsigned [] = 0 := rfl

theorem unsigned_concat (bits : List Bool) (b : Bool) :
    unsigned (bits ++ [b]) = 2 * unsigned bits + b.toNat := by
  simp [unsigned]

theorem unsigned_cons (b : Bool) (bits : List Bool) :
    unsigned (b :: bits) = b.toNat * 2 ^ bits.length + unsigned bits := by
  induction bits using List.reverseRecOn with
  | nil => simp [unsigned]
  | append_singleton bits c ih =>
    rw [← List.cons_append, unsigned_concat, unsigned_concat, ih, List.length_append,
      List.length_singleton]
    ring

theorem unsigned_lt (bits : List Bool) : unsigned bits < 2 ^ bits.length := by
  induction bits with
  | nil => simp
  | cons b bits ih =>
    rw [unsigned_cons, List.length_cons, Nat.pow_succ]
    cases b <;> simp <;> omega

theorem eq_of_unsigned_eq {xs ys : List Bool} (hlen : xs.length = ys.length)
    (h : unsigned xs = unsigned ys) : xs = ys := by
  induction xs generalizing ys with
  | nil => exact (List.length_eq_zero_iff.1 hlen.symm).symm
  | cons b xs ih =>
    obtain ⟨c, ys, rfl⟩ := List.exists_cons_of_length_eq_add_one hlen.symm
    have hlen : xs.length = ys.length := Nat.succ.inj hlen
    have hxs := unsigned_lt xs
    have hys := unsigned_lt ys
    rw [unsigned_cons, unsigned_cons, hlen] at h
    rw [hlen] at hxs
    generalize 2 ^ ys.length = n at h hxs hys
    have hbc : b = c ∧ unsigned xs = unsigned ys := by
      cases b <;> cases c <;> simp at h ⊢ <;> omega
    rw [hbc.1, ih hlen hbc.2]

/-- In two's complement the first of `n` bits counts `2 ^ n` less than it does otherwise. -/
theorem signed_eq (bits : List Bool) :
    signed bits = unsigned bits - 2 ^ bits.length * (bits.headD false).toNat := by
  cases bits with
  | nil => simp [signed]
  | cons b bits =>
    rw [signed, unsigned_cons, List.length_cons, List.headD_cons]
    push_cast
    ring

/-- The signed number is the one nearest to zero of those congruent to the unsigned one. -/
theorem signed_eq_bmod (bits : List Bool) :
    signed bits = (unsigned bits : Int).bmod (2 ^ bits.length) := by
  have hmod : (unsigned bits : Int).bmod (2 ^ bits.length) =
      (signed bits).bmod (2 ^ bits.length) := by
    rw [signed_eq, show (2 : Int) ^ bits.length = (2 ^ bits.length : Nat) by simp,
      Int.sub_mul_bmod_self_left]
  rw [hmod]
  cases bits with
  | nil => simp [signed]
  | cons b bits =>
    have hlt : (unsigned bits : Int) < 2 ^ bits.length := by exact_mod_cast unsigned_lt bits
    rw [signed, List.length_cons, Nat.pow_succ]
    refine (Int.bmod_eq_of_le_mul_two ?_ ?_).symm <;> cases b <;> push_cast <;> simp <;> omega

end Bits

namespace Word
open Bits

/-- The bits of `w` from place `first` to before place `last`, counted from the most significant. -/
def slice (w : Word) (first last : Nat) : List Bool :=
  (List.range' first (last - first)).map w.getMsbD

theorem toNat_field {w : Word} {shift width : Nat} (h : shift + width ≤ 16) :
    (w.field shift width).toNat = w.toNat / 2 ^ shift % 2 ^ width := by
  have hw : 2 ^ width ≤ 2 ^ 16 := Nat.pow_le_pow_right (by decide) (by omega)
  have hlt : w.toNat / 2 ^ shift % 2 ^ width < 2 ^ width := Nat.mod_lt _ (Nat.two_pow_pos _)
  simp only [field, BitVec.toNat_setWidth, BitVec.extractLsb'_toNat, Nat.shiftRight_eq_div_pow]
  exact Nat.mod_eq_of_lt (Nat.lt_of_lt_of_le hlt hw)

theorem toInt_signExtendLow {w : Word} {width : Nat} (h : width ≤ 16) :
    (w.signExtendLow width).toInt = (w.toNat : Int).bmod (2 ^ width) := by
  rw [signExtendLow, BitVec.toInt_signExtend, Nat.min_eq_right h, BitVec.toInt_setWidth,
    Int.bmod_bmod]

variable (w : Word) {first last : Nat}

@[simp]
theorem length_slice (first last : Nat) : (w.slice first last).length = last - first := by
  simp [slice]

theorem toNat_getMsbD {i : Nat} (h : i < 16) :
    (w.getMsbD i).toNat = w.toNat / 2 ^ (15 - i) % 2 := by
  rw [BitVec.getMsbD_eq_getLsbD, decide_eq_true h, Bool.true_and, ← BitVec.testBit_toNat,
    Nat.toNat_testBit]

theorem unsigned_slice (hle : first ≤ last) (hlast : last ≤ 16) :
    unsigned (w.slice first last) = w.toNat / 2 ^ (16 - last) % 2 ^ (last - first) := by
  obtain ⟨n, rfl⟩ := Nat.exists_eq_add_of_le hle
  rw [slice, Nat.add_sub_cancel_left]
  induction n with
  | zero => simp [Nat.mod_one]
  | succ n ih =>
    have hstep : w.toNat / 2 ^ (16 - (first + n)) = w.toNat / 2 ^ (16 - (first + (n + 1))) / 2 := by
      rw [Nat.div_div_eq_div_mul, ← Nat.pow_succ]
      congr 2
      omega
    rw [List.range'_1_concat, List.map_append, List.map_singleton, unsigned_concat,
      ih (by omega) (by omega), toNat_getMsbD w (by omega), hstep, Nat.pow_succ',
      Nat.mod_mul, show 15 - (first + n) = 16 - (first + (n + 1)) by omega]
    omega

theorem unsigned_slice_eq_field {shift width : Nat} (h : shift + width ≤ 16) :
    unsigned (w.slice (16 - shift - width) (16 - shift)) = (w.field shift width).toNat := by
  rw [unsigned_slice w (by omega) (by omega), toNat_field h]
  congr 2 <;> congr 1 <;> omega

theorem signed_slice_eq_signExtendLow {width : Nat} (h : width ≤ 16) :
    signed (w.slice (16 - width) 16) = (w.signExtendLow width).toInt := by
  rw [signed_eq_bmod, unsigned_slice w (by omega) le_rfl, length_slice,
    show 16 - (16 - width) = width by omega, toInt_signExtendLow h, Nat.sub_self, Nat.pow_zero,
    Nat.div_one, Int.natCast_emod, Int.emod_bmod]

end Word
end Lc3
