import Lc3.Proofs.Escapes
import Lc3.Text.Column
import Lc3.Word.Binary
import Lc3.Word.Hex
import Mathlib.Algebra.Group.Nat.Defs

/-! # Numerals

`numeral` writes a number in a fixed number of places, for any choice of digits, by dividing it. The
binary and hexadecimal texts of words, which are made of fields of their bits, are numerals
(`binaryText_eq_numeral`, `Word.toUpperHex_eq_numeral`). No number has an escape character in its
text. -/

namespace Lc3

/-- The number `n` in `width` places, the most significant first. There are as many digits as
symbols. -/
def numeral (symbols : List Char) (width n : Nat) : String :=
  String.ofList ((List.range width).map fun i =>
    symbols.getD (n / symbols.length ^ (width - 1 - i) % symbols.length) ' ')

def binarySymbols : List Char :=
  ['0', '1']

def hexSymbols : List Char :=
  ['0', '1', '2', '3', '4', '5', '6', '7', '8', '9', 'A', 'B', 'C', 'D', 'E', 'F']

theorem binaryText_eq_numeral {n : Nat} (v : BitVec n) :
    binaryText v = numeral binarySymbols n v.toNat := by
  rw [binaryText, binaryDigits, numeral]
  congr 1
  refine List.map_congr_left fun i hi => ?_
  have hi : i < n := List.mem_range.1 hi
  have hbit : v.getMsbD i = decide (v.toNat / 2 ^ (n - 1 - i) % 2 = 1) := by
    rw [BitVec.getMsbD_eq_getLsbD, decide_eq_true hi, Bool.true_and, ← BitVec.testBit_toNat,
      Nat.testBit_eq_decide_div_mod_eq]
  rw [hbit]
  show _ = binarySymbols.getD (v.toNat / 2 ^ (n - 1 - i) % 2) ' '
  rcases Nat.mod_two_eq_zero_or_one (v.toNat / 2 ^ (n - 1 - i)) with h | h <;> rw [h] <;> rfl

theorem Word.toBinary_eq_numeral (w : Word) : w.toBinary = numeral binarySymbols 16 w.toNat :=
  binaryText_eq_numeral w

theorem Word.toUpperHex_eq_numeral (w : Word) :
    w.toUpperHex = numeral hexSymbols 4 w.toNat := by
  have hdigit : ∀ d < 16, (Nat.digitChar d).toUpper = hexSymbols.getD d ' ' := by decide
  have hplace : ∀ k, (Nat.digitChar (w.extractLsb' (4 * k) 4).toNat).toUpper =
      hexSymbols.getD (w.toNat / 16 ^ k % 16) ' ' := by
    intro k
    rw [hdigit _ (w.extractLsb' (4 * k) 4).isLt, BitVec.extractLsb'_toNat,
      Nat.shiftRight_eq_div_pow, Nat.pow_mul]
  have hshifts : [12, 8, 4, 0] = (List.range 4).map fun i => 4 * (3 - i) := rfl
  rw [Word.toUpperHex, Word.hexDigits, hshifts, List.map_map, List.map_map, numeral]
  exact congrArg String.ofList (List.map_congr_left fun i _ => hplace (3 - i))

/-! ### Characters -/

theorem mem_symbols_of_mem_numeral {symbols : List Char} (hs : symbols ≠ []) {width n : Nat}
    {c : Char} (h : c ∈ (numeral symbols width n).toList) : c ∈ symbols := by
  rw [numeral, String.toList_ofList] at h
  obtain ⟨i, -, rfl⟩ := List.mem_map.1 h
  have hlt : n / symbols.length ^ (width - 1 - i) % symbols.length < symbols.length :=
    Nat.mod_lt _ (List.length_pos_iff.2 hs)
  rw [List.getD_eq_getElem?_getD, List.getElem?_eq_getElem hlt, Option.getD_some]
  exact List.getElem_mem hlt

open Terminal (escape escape_notMem_append)

theorem escape_notMem_binaryText {n : Nat} (v : BitVec n) : escape ∉ (binaryText v).toList := by
  rw [binaryText_eq_numeral]
  exact fun h => absurd (mem_symbols_of_mem_numeral (by decide) h) (by decide)

theorem escape_notMem_toBinary (w : Word) : escape ∉ w.toBinary.toList :=
  escape_notMem_binaryText w

theorem escape_notMem_toUpperHex (w : Word) : escape ∉ w.toUpperHex.toList := by
  rw [Word.toUpperHex_eq_numeral]
  exact fun h => absurd (mem_symbols_of_mem_numeral (by decide) h) (by decide)

theorem escape_notMem_toHex (w : Word) : escape ∉ w.toHex.toList := by
  have hdigit : ∀ d < 16, Nat.digitChar d ≠ escape := by decide
  rw [Word.toHex, String.toList_ofList, Word.hexDigits]
  intro h
  obtain ⟨shift, -, hc⟩ := List.mem_map.1 h
  exact hdigit _ (w.extractLsb' shift 4).isLt hc

theorem escape_notMem_natRepr (n : Nat) : escape ∉ n.repr.toList := by
  rw [Nat.toList_repr]
  exact fun h => absurd (Nat.isDigit_of_mem_toDigits (by decide) (by decide) h) (by decide)

theorem escape_notMem_intRepr (n : Int) : escape ∉ n.repr.toList := by
  rw [Int.repr_eq_if]
  split
  · exact escape_notMem_natRepr _
  · exact escape_notMem_append (by decide) (escape_notMem_natRepr _)

theorem escape_notMem_alignRight {text : String} (h : escape ∉ text.toList) (width : Nat) :
    escape ∉ (Text.alignRight width text).toList := by
  rw [Text.alignRight, String.toList_ofList, List.leftpad, List.mem_append, not_or]
  exact ⟨fun hc => absurd (List.eq_of_mem_replicate hc) (by decide), h⟩

end Lc3
