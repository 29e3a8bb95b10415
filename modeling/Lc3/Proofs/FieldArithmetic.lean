import Lc3.Machine
import Lc3.Proofs.Bits
import Mathlib.Algebra.BigOperators.Fin
import Mathlib.Combinatorics.Enumerative.Composition
import Mathlib.Data.Int.ModEq

/-! # The arithmetic of fields

`maskedField` and `maskedSign` cut a word by shifts and masks, and fill what is above a negative
field with ones; bit by bit they are `Word.field` and `Word.signExtendLow`. As numbers, a field is a
quotient with a remainder, and a sign extension is the one signed number of its width that is
congruent to the word (`eq_toInt_signExtendLow_iff`), from which the rest is read off: it can be
extended again, and added to an address. Fields next to each other add up to the remainder that they
cover together (`sum_fields_eq_mod`), and so those of a `Composition` of 16 to the word. -/

namespace Lc3.Word

/-! ### Masks -/

/-- The field, shifted to the low end and masked. The mask has 32 bits, so that all bits of a word
can be asked for. -/
def maskedField (w : Word) (shift width : Nat) : Word :=
  ((w.setWidth 32 >>> shift) &&& (1#32 <<< width - 1#32)).setWidth 16

/-- The masked low bits, under ones if the highest of them is set. -/
def maskedSign (w : Word) (width : Nat) : Word :=
  if width = 16 then w
  else
    let low := w &&& (1#16 <<< width - 1#16)
    if low &&& 1#16 <<< (width - 1) = 0 then low else low ||| BitVec.allOnes 16 <<< width

theorem getLsbD_mask {n : Nat} (width i : Nat) :
    (1#n <<< width - 1#n).getLsbD i = (decide (i < n) && decide (i < width)) := by
  rw [← BitVec.not_neg, ← BitVec.shiftLeft_neg, BitVec.neg_one_eq_allOnes, BitVec.getLsbD_not,
    BitVec.getLsbD_shiftLeft, BitVec.getLsbD_allOnes]
  by_cases hi : i < n
  · simp [hi]
    omega
  · simp [hi]

variable (w : Word) {shift width : Nat}

theorem field_eq_maskedField : w.field shift width = w.maskedField shift width := by
  refine BitVec.eq_of_getLsbD_eq fun i hi => ?_
  rw [field, maskedField, BitVec.getLsbD_setWidth, BitVec.getLsbD_setWidth, BitVec.getLsbD_and,
    getLsbD_mask, BitVec.getLsbD_ushiftRight, BitVec.getLsbD_setWidth, BitVec.getLsbD_extractLsb']
  by_cases hshift : shift + i < 16
  · have h32 : shift + i < 32 := by omega
    have hi32 : i < 32 := by omega
    simp [hi, h32, hi32, Bool.and_comm]
  · simp [BitVec.getLsbD_of_ge w (shift + i) (by omega)]

/-- One bit of a word is cleared by all masks but those that have it. -/
theorem and_bit_eq_zero_iff {i : Nat} (hi : i < 16) (v : Word) :
    v &&& 1#16 <<< i = 0 ↔ v.getLsbD i = false := by
  constructor
  · intro h
    have hbit := congrArg (BitVec.getLsbD · i) h
    simpa [hi] using hbit
  · intro h
    refine BitVec.eq_of_getLsbD_eq fun j hj => ?_
    by_cases hij : j = i
    · simp [hij, h]
    · by_cases hlt : j < i
      · simp [hlt]
      · have hpos : j - i ≠ 0 := by omega
        simp [hpos]

theorem getLsbD_signExtendLow (h : 0 < width) {i : Nat} (hi : i < 16) :
    (w.signExtendLow width).getLsbD i = w.getLsbD (if i < width then i else width - 1) := by
  rw [signExtendLow, BitVec.getLsbD_signExtend, decide_eq_true hi, Bool.true_and]
  split
  next hlt => rw [BitVec.getLsbD_setWidth, decide_eq_true hlt, Bool.true_and]
  next => rw [BitVec.msb_setWidth, decide_eq_true h, Bool.true_and]

theorem signExtendLow_eq_maskedSign (h : 0 < width) (h' : width ≤ 16) :
    w.signExtendLow width = w.maskedSign width := by
  refine BitVec.eq_of_getLsbD_eq fun i hi => ?_
  rw [w.getLsbD_signExtendLow h hi]
  by_cases hall : width = 16
  · rw [maskedSign, if_pos hall, if_pos (by omega)]
  have hlow : ∀ j, (w &&& (1#16 <<< width - 1#16)).getLsbD j =
      (w.getLsbD j && decide (j < width)) := by
    intro j
    rw [BitVec.getLsbD_and, getLsbD_mask]
    by_cases hj : j < 16
    · simp [hj]
    · simp [BitVec.getLsbD_of_ge w j (by omega)]
  have htop : (w &&& (1#16 <<< width - 1#16)) &&& 1#16 <<< (width - 1) = 0 ↔
      w.getLsbD (width - 1) = false := by
    rw [and_bit_eq_zero_iff (by omega), hlow, decide_eq_true (by omega), Bool.and_true]
  rw [maskedSign, if_neg hall]
  dsimp only
  by_cases hsign : w.getLsbD (width - 1) = false
  · rw [if_pos (htop.2 hsign), hlow]
    by_cases hlt : i < width <;> simp [hlt, hsign]
  · rw [if_neg (mt htop.1 hsign), BitVec.getLsbD_or, hlow, BitVec.getLsbD_shiftLeft,
      BitVec.getLsbD_allOnes]
    rw [Bool.not_eq_false] at hsign
    by_cases hlt : i < width
    · simp [hlt]
    · have hup : i - width < 16 := by omega
      simp [hlt, hsign, hi, hup]

/-! ### Signed numbers -/

/-- The number has a sign and fits into `width` bits, and it is congruent to `n`. -/
structure IsSigned (width n : Nat) (z : Int) : Prop where
  le : -2 ^ (width - 1) ≤ z
  lt : z < 2 ^ (width - 1)
  modEq : z ≡ n [ZMOD 2 ^ width]

theorem two_pow_eq (h : 0 < width) : (2 : Int) ^ width = 2 * 2 ^ (width - 1) := by
  rw [← pow_succ', Nat.sub_add_cancel h]

theorem eq_toInt_signExtendLow_iff (h : 0 < width) (h' : width ≤ 16) {z : Int} :
    z = (w.signExtendLow width).toInt ↔ IsSigned width w.toNat z := by
  have hpow : ((2 ^ width : Nat) : Int) = 2 * 2 ^ (width - 1) := by
    push_cast
    exact two_pow_eq h
  have hpos : (0 : Int) < 2 ^ (width - 1) := Int.pow_pos (by decide)
  rw [toInt_signExtendLow h', eq_comm, Int.bmod_eq_iff (Nat.two_pow_pos width),
    ← Int.modEq_iff_dvd, hpow]
  have hhalf : (2 : Int) * 2 ^ (width - 1) / 2 = 2 ^ (width - 1) := by omega
  have hhalf' : ((2 : Int) * 2 ^ (width - 1) + 1) / 2 = 2 ^ (width - 1) := by omega
  rw [hhalf, hhalf', ← two_pow_eq h]
  constructor
  · rintro ⟨hle, hlt, hmod⟩
    exact ⟨hle, hlt, hmod.symm⟩
  · rintro ⟨hle, hlt, hmod⟩
    exact ⟨hle, hlt, hmod.symm⟩

theorem toInt_modEq_toNat : w.toInt ≡ w.toNat [ZMOD 2 ^ 16] := by
  rw [BitVec.toInt_eq_toNat_bmod]
  exact Int.bmod_emod

theorem signExtendLow_congr {v : Word} (h : ∀ i < width, v.getLsbD i = w.getLsbD i) :
    v.signExtendLow width = w.signExtendLow width := by
  have hlow : v.setWidth width = w.setWidth width := by
    refine BitVec.eq_of_getLsbD_eq fun i hi => ?_
    rw [BitVec.getLsbD_setWidth, BitVec.getLsbD_setWidth, h i hi]
  rw [signExtendLow, hlow, signExtendLow]

theorem signExtendLow_signExtendLow {wider : Nat} (h : 0 < width) (hle : width ≤ wider)
    (h' : wider ≤ 16) :
    (w.signExtendLow width).signExtendLow wider = w.signExtendLow width := by
  obtain ⟨hlow, hhigh, -⟩ := (w.eq_toInt_signExtendLow_iff h (hle.trans h')).1 rfl
  have hpow : (2 : Int) ^ (width - 1) ≤ 2 ^ (wider - 1) :=
    mod_cast Nat.pow_le_pow_right (by decide) (Nat.sub_le_sub_right hle 1)
  have hmod := (w.signExtendLow width).toInt_modEq_toNat.of_dvd (pow_dvd_pow 2 h')
  refine BitVec.eq_of_toInt_eq (((w.signExtendLow width).eq_toInt_signExtendLow_iff
    (h.trans_le hle) h').2 ⟨?_, ?_, hmod⟩).symm
  · omega
  · omega

theorem toNat_add_eq_emod (a e : Word) : ((a + e).toNat : Int) = (a.toNat + e.toInt) % 2 ^ 16 := by
  have hmod : (a.toNat : Int) + e.toInt ≡ a.toNat + e.toNat [ZMOD 2 ^ 16] :=
    Int.ModEq.rfl.add e.toInt_modEq_toNat
  rw [hmod, BitVec.toNat_add]
  push_cast
  rfl

/-! ### Fields next to each other -/

/-- Fields each of which begins where the one before it ends have all bits below that place. -/
theorem sum_fields_eq_mod (n : Nat) {start : Nat → Nat} (hzero : start 0 = 0)
    (hmono : Monotone start) (k : Nat) :
    ∑ i ∈ Finset.range k, n / 2 ^ start i % 2 ^ (start (i + 1) - start i) * 2 ^ start i =
      n % 2 ^ start k := by
  induction k with
  | zero => rw [Finset.sum_range_zero, hzero, Nat.pow_zero, Nat.mod_one]
  | succ k ih =>
    have hsplit : 2 ^ start (k + 1) = 2 ^ start k * 2 ^ (start (k + 1) - start k) := by
      rw [← Nat.pow_add, Nat.add_sub_cancel' (hmono k.le_succ)]
    rw [Finset.sum_range_succ, ih, hsplit, Nat.mod_mul, Nat.mul_comm]

theorem sum_field_composition (c : Composition 16) :
    ∑ i : Fin c.length, (w.field (c.sizeUpTo i) (c.blocksFun i)).toNat * 2 ^ c.sizeUpTo i =
      w.toNat := by
  have hfield : ∀ i : Fin c.length, (w.field (c.sizeUpTo i) (c.blocksFun i)).toNat =
      w.toNat / 2 ^ c.sizeUpTo i % 2 ^ (c.sizeUpTo (i + 1) - c.sizeUpTo i) := by
    intro i
    have hend : c.sizeUpTo i + c.blocksFun i = c.sizeUpTo (i + 1) := (c.sizeUpTo_succ' i).symm
    rw [toNat_field (hend ▸ c.sizeUpTo_le (i + 1)), ← hend, Nat.add_sub_cancel_left]
  simp only [hfield]
  rw [Fin.sum_univ_eq_sum_range (fun i => w.toNat / 2 ^ c.sizeUpTo i %
    2 ^ (c.sizeUpTo (i + 1) - c.sizeUpTo i) * 2 ^ c.sizeUpTo i) c.length,
    sum_fields_eq_mod _ c.sizeUpTo_zero c.monotone_sizeUpTo, c.sizeUpTo_length]
  exact Nat.mod_eq_of_lt w.isLt

/-- Sign extensions and fields are defined for all widths and places within the word. They are what
shifts and masks make of it and, as numbers, its remainders. Fields that take up all places of the
word add up to it. -/
theorem fields_are_integer_arithmetic (v : Word) :
    (∀ width, 0 < width → width ≤ 16 →
      v.signExtendLow? width = .ok (v.signExtendLow width) ∧
      v.signExtendLow width = v.maskedSign width ∧
      (∀ z, z = (v.signExtendLow width).toInt ↔ IsSigned width v.toNat z) ∧
      (∀ w : Word, (∀ i < width, w.getLsbD i = v.getLsbD i) →
        w.signExtendLow width = v.signExtendLow width) ∧
      (∀ wider, width ≤ wider → wider ≤ 16 →
        (v.signExtendLow width).signExtendLow wider = v.signExtendLow width) ∧
      (∀ a : Word, ((a + v.signExtendLow width).toNat : Int) =
        (a.toNat + (v.signExtendLow width).toInt) % 2 ^ 16) ∧
      ∀ m : Machine, ((m.jumpRelative (v.signExtendLow width)).pc.toNat : Int) =
        (m.pc.toNat + (v.signExtendLow width).toInt) % 2 ^ 16) ∧
    (∀ shift width, 0 < width → shift + width ≤ 16 →
      v.field? shift width = .ok (v.field shift width) ∧
      v.field shift width = v.maskedField shift width ∧
      (v.field shift width).toNat = v.toNat / 2 ^ shift % 2 ^ width) ∧
    ∀ c : Composition 16, v.toNat =
      ∑ i : Fin c.length, (v.field (c.sizeUpTo i) (c.blocksFun i)).toNat * 2 ^ c.sizeUpTo i := by
  refine ⟨fun width h h' => ?_, fun shift width h h' => ?_, fun c => ?_⟩
  · refine ⟨if_pos ⟨h, h'⟩, v.signExtendLow_eq_maskedSign h h',
      fun z => v.eq_toInt_signExtendLow_iff h h', fun w hw => v.signExtendLow_congr hw,
      fun wider hle hwider => v.signExtendLow_signExtendLow h hle hwider,
      fun a => toNat_add_eq_emod a _, fun m => ?_⟩
    rw [Machine.jumpRelative, Machine.pc_jump, Machine.relative]
    exact toNat_add_eq_emod m.pc _
  · exact ⟨if_pos ⟨h, h'⟩, v.field_eq_maskedField, toNat_field h'⟩
  · exact (v.sum_field_composition c).symm

/-- The word that adds -11 to R3 and puts the sum into R2. -/
theorem fields_of_add_immediate :
    let v : Word := 0x14F5
    ((0 < 5 ∧ 5 ≤ 9 ∧ 9 ≤ 16) ∧ (∀ i < 5, (0x15 : Word).getLsbD i = v.getLsbD i) ∧
      0 < 3 ∧ 6 + 3 ≤ 16) ∧
    IsSigned 5 v.toNat (-11) ∧ (0x15 : Word).signExtendLow 5 = v.signExtendLow 5 ∧
    (v.signExtendLow 5).signExtendLow 9 = v.signExtendLow 5 ∧
    ((3 + v.signExtendLow 5).toNat : Int) = (3 - 11) % 2 ^ 16 ∧
    (v.field 6 3).toNat = 3 ∧ v.toNat = (v.field 0 5).toNat + (v.field 5 1).toNat * 2 ^ 5 +
      (v.field 6 3).toNat * 2 ^ 6 + (v.field 9 3).toNat * 2 ^ 9 +
      (v.field 12 4).toNat * 2 ^ 12 := by
  intro v
  let c : Composition 16 := ⟨[5, 1, 3, 3, 4], by simp, rfl⟩
  have hlow : ∀ i < 5, (0x15 : Word).getLsbD i = v.getLsbD i := by decide
  obtain ⟨hsign, hfield, hsum⟩ := fields_are_integer_arithmetic v
  obtain ⟨-, -, hsigned, hcongr, hwider, hadd, -⟩ := hsign 5 (by decide) (by decide)
  obtain ⟨-, -, hvalue⟩ := hfield 6 3 (by decide) (by decide)
  exact ⟨⟨by decide, hlow, by decide⟩, (hsigned (-11)).1 (by decide), hcongr 0x15 hlow,
    hwider 9 (by decide) (by decide), (hadd 3).trans (by decide), hvalue.trans (by decide),
    (hsum c).trans (by decide)⟩

end Lc3.Word
