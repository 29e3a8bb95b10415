import Lc3.Proofs.Bits
import Lc3.Proofs.Outcomes
import Lc3.Word.Binary

/-! # Numbers written in binary

`IsBinary` and `bitsOf` say which texts are binary numbers and which bits they write, without
reading them digit by digit. `Word.ofDigits_eq_ok_iff` and `Word.ofSignedDigits_eq_ok_iff` then say
what a word and a signed number are read from: the digits that a text has to have, and the number
that `Bits` gives them. -/

namespace Lc3
open Bits

/-- All characters are binary digits. -/
def IsBinary (cs : List Char) : Prop :=
  ∀ c ∈ cs, c = '0' ∨ c = '1'

def bitsOf (cs : List Char) : List Bool :=
  cs.map (· == '1')

@[simp]
theorem length_bitsOf (cs : List Char) : (bitsOf cs).length = cs.length := by
  simp [bitsOf]

theorem isBinary_cons {c : Char} {cs : List Char} :
    IsBinary (c :: cs) ↔ (c = '0' ∨ c = '1') ∧ IsBinary cs := by
  simp [IsBinary]

theorem unsigned_bitsOf_lt {cs : List Char} (hlen : cs.length ≤ 16) :
    unsigned (bitsOf cs) < 2 ^ 16 := by
  have hlt : unsigned (bitsOf cs) < 2 ^ cs.length := by simpa using unsigned_lt (bitsOf cs)
  exact hlt.trans_le (Nat.pow_le_pow_right two_pos hlen)

namespace Word

/-- `high` with one more bit below its own, of which the first falls out. -/
def shiftIn (high : Word) (b : Bool) : Word :=
  BitVec.ofNat 16 (2 * high.toNat + b.toNat)

theorem shiftLeft_one_eq (high : Word) : high <<< 1 = high.shiftIn false := by
  apply BitVec.eq_of_toNat_eq
  simp [shiftIn, Nat.shiftLeft_eq, Nat.mul_comm]

theorem shiftLeft_one_or_one (high : Word) : high <<< 1 ||| 1 = high.shiftIn true := by
  have hdisjoint : high <<< 1 &&& (1 : Word) = 0 := by
    ext i hi
    cases i <;> simp
  rw [← BitVec.add_eq_or_of_and_eq_zero _ _ hdisjoint, shiftLeft_one_eq]
  simp [shiftIn, BitVec.ofNat_add]

variable {cs : List Char} {w : Word}

theorem readDigits_cons {c : Char} (hc : c = '0' ∨ c = '1') (cs : List Char) (index : Nat)
    (high : Word) :
    readDigits (c :: cs) index high = readDigits cs (index + 1) (high.shiftIn (c == '1')) := by
  rcases hc with rfl | rfl
  · rw [readDigits, if_pos rfl, shiftLeft_one_eq]; rfl
  · rw [readDigits, if_neg (by decide), if_pos rfl, shiftLeft_one_or_one]; rfl

theorem ofNat_shiftIn (high : Word) (b : Bool) (n u : Nat) :
    BitVec.ofNat 16 ((high.shiftIn b).toNat * 2 ^ n + u) =
      BitVec.ofNat 16 (high.toNat * 2 ^ (n + 1) + (b.toNat * 2 ^ n + u)) := by
  rw [BitVec.ofNat_add, BitVec.ofNat_mul, BitVec.ofNat_toNat, BitVec.setWidth_eq, shiftIn,
    ← BitVec.ofNat_mul, ← BitVec.ofNat_add]
  congr 1
  ring

theorem readDigits_eq_ok_iff {index : Nat} {high : Word} :
    readDigits cs index high = .ok w ↔
      IsBinary cs ∧ w = BitVec.ofNat 16 (high.toNat * 2 ^ cs.length + unsigned (bitsOf cs)) := by
  induction cs generalizing index high with
  | nil => simp [readDigits, IsBinary, bitsOf, eq_comm]
  | cons c cs ih =>
    by_cases hc : c = '0' ∨ c = '1'
    · have hbits : unsigned (bitsOf (c :: cs)) =
          (c == '1').toNat * 2 ^ cs.length + unsigned (bitsOf cs) := by
        simpa [bitsOf] using unsigned_cons (c == '1') (bitsOf cs)
      rw [readDigits_cons hc, ih, isBinary_cons, ofNat_shiftIn, ← hbits, and_iff_right hc]
      rfl
    · obtain ⟨h0, h1⟩ := not_or.1 hc
      rw [readDigits, if_neg h0, if_neg h1, isBinary_cons]
      simp [hc]

/-- Digits that fit into a word are read as the unsigned number that they write. -/
theorem readDigits_zero_eq_ok_iff (hlen : cs.length ≤ 16) :
    readDigits cs 0 0 = .ok w ↔ IsBinary cs ∧ w.toNat = unsigned (bitsOf cs) := by
  rw [readDigits_eq_ok_iff, ← BitVec.toNat_inj, BitVec.toNat_ofNat, BitVec.ofNat_eq_ofNat,
    BitVec.toNat_ofNat, Nat.zero_mod, Nat.zero_mul, Nat.zero_add,
    Nat.mod_eq_of_lt (unsigned_bitsOf_lt hlen)]

theorem exists_toNat_eq (hlen : cs.length ≤ 16) : ∃ w : Word, w.toNat = unsigned (bitsOf cs) :=
  ⟨BitVec.ofNatLT _ (unsigned_bitsOf_lt hlen), rfl⟩

theorem ofDigits_eq_ok_iff :
    ofDigits cs = .ok w ↔ cs.length = 16 ∧ IsBinary cs ∧ w.toNat = unsigned (bitsOf cs) := by
  by_cases hlen : cs.length = 16
  · rw [ofDigits, if_pos hlen, readDigits_zero_eq_ok_iff hlen.le]
    simp [hlen]
  · rw [ofDigits, if_neg hlen]
    simp [hlen]

theorem toInt_signExtendLow_eq_signed {v : Word} (hlen : cs.length ≤ 16)
    (hv : v.toNat = unsigned (bitsOf cs)) :
    (v.signExtendLow cs.length).toInt = signed (bitsOf cs) := by
  rw [toInt_signExtendLow hlen, hv, signed_eq_bmod, length_bitsOf]

theorem exists_toInt_eq (hlen : cs.length ≤ 16) : ∃ w : Word, w.toInt = signed (bitsOf cs) := by
  obtain ⟨v, hv⟩ := exists_toNat_eq hlen
  exact ⟨_, toInt_signExtendLow_eq_signed hlen hv⟩

theorem ofSignedDigits_eq_ok_iff :
    ofSignedDigits cs = .ok w ↔
      (0 < cs.length ∧ cs.length ≤ 16) ∧ IsBinary cs ∧ w.toInt = signed (bitsOf cs) := by
  by_cases hlen : 0 < cs.length ∧ cs.length ≤ 16
  · rw [ofSignedDigits, if_pos hlen, and_iff_right hlen, Except.map_eq_ok_iff]
    constructor
    · rintro ⟨v, hv, rfl⟩
      obtain ⟨hbin, hv⟩ := (readDigits_zero_eq_ok_iff hlen.2).1 hv
      exact ⟨hbin, toInt_signExtendLow_eq_signed hlen.2 hv⟩
    · rintro ⟨hbin, hw⟩
      obtain ⟨v, hv⟩ := exists_toNat_eq hlen.2
      exact ⟨v, (readDigits_zero_eq_ok_iff hlen.2).2 ⟨hbin, hv⟩,
        BitVec.toInt_inj.1 ((toInt_signExtendLow_eq_signed hlen.2 hv).trans hw.symm)⟩
  · rw [ofSignedDigits, if_neg hlen]
    simp [hlen]

theorem exists_ofDigits_eq_ok_iff :
    (∃ w, ofDigits cs = .ok w) ↔ cs.length = 16 ∧ IsBinary cs := by
  simp only [ofDigits_eq_ok_iff]
  constructor
  · rintro ⟨w, hlen, hbin, -⟩
    exact ⟨hlen, hbin⟩
  · rintro ⟨hlen, hbin⟩
    obtain ⟨w, hw⟩ := exists_toNat_eq hlen.le
    exact ⟨w, hlen, hbin, hw⟩

theorem exists_ofSignedDigits_eq_ok_iff :
    (∃ w, ofSignedDigits cs = .ok w) ↔ (0 < cs.length ∧ cs.length ≤ 16) ∧ IsBinary cs := by
  simp only [ofSignedDigits_eq_ok_iff]
  constructor
  · rintro ⟨w, hlen, hbin, -⟩
    exact ⟨hlen, hbin⟩
  · rintro ⟨hlen, hbin⟩
    obtain ⟨w, hw⟩ := exists_toInt_eq hlen.2
    exact ⟨w, hlen, hbin, hw⟩

end Word

/-! ### Words as they are written -/

def digitsOf (bits : List Bool) : List Char :=
  bits.map fun b => if b then '1' else '0'

theorem isBinary_digitsOf (bits : List Bool) : IsBinary (digitsOf bits) := by
  intro c hc
  obtain ⟨b, -, rfl⟩ := List.mem_map.1 hc
  cases b
  · exact .inl rfl
  · exact .inr rfl

theorem bitsOf_digitsOf (bits : List Bool) : bitsOf (digitsOf bits) = bits := by
  rw [bitsOf, digitsOf, List.map_map]
  refine List.map_id'' (fun b => ?_) bits
  cases b <;> rfl

theorem digitsOf_bitsOf {cs : List Char} (h : IsBinary cs) : digitsOf (bitsOf cs) = cs := by
  rw [bitsOf, digitsOf, List.map_map]
  refine (List.map_congr_left fun c hc => ?_).trans (List.map_id cs)
  rcases h c hc with rfl | rfl <;> rfl

namespace Word
variable {cs : List Char} {w : Word}

theorem binaryDigits_eq_digitsOf (w : Word) : binaryDigits w = digitsOf (w.slice 0 16) := by
  rw [binaryDigits, slice, digitsOf, List.map_map, List.range_eq_range']
  rfl

theorem unsigned_slice_all (w : Word) : unsigned (w.slice 0 16) = w.toNat := by
  rw [unsigned_slice w (by decide) le_rfl, Nat.sub_self, Nat.pow_zero, Nat.div_one]
  exact Nat.mod_eq_of_lt w.isLt

theorem signed_slice_all (w : Word) : signed (w.slice 0 16) = w.toInt := by
  rw [signed_eq_bmod, unsigned_slice_all, length_slice]
  exact (BitVec.toInt_eq_toNat_bmod w).symm

/-- The only text that a word is read from is the one that is written for it. -/
theorem ofDigits_eq_ok_iff_eq_binaryDigits : ofDigits cs = .ok w ↔ cs = binaryDigits w := by
  rw [ofDigits_eq_ok_iff, binaryDigits_eq_digitsOf]
  constructor
  · rintro ⟨hlen, hbin, hw⟩
    have hbits : bitsOf cs = w.slice 0 16 := by
      refine eq_of_unsigned_eq ?_ (hw.symm.trans (unsigned_slice_all w).symm)
      rw [length_bitsOf, hlen, length_slice]
    rw [← hbits, digitsOf_bitsOf hbin]
  · rintro rfl
    refine ⟨?_, isBinary_digitsOf _, ?_⟩
    · rw [digitsOf, List.length_map, length_slice]
    · rw [bitsOf_digitsOf, unsigned_slice_all]

theorem ofDigits_eq_ok_iff_eq_toBinary : ofDigits cs = .ok w ↔ cs = w.toBinary.toList := by
  rw [ofDigits_eq_ok_iff_eq_binaryDigits, toBinary, binaryText, String.toList_ofList]

theorem ofBinary_eq_ok_iff {text : String} : ofBinary text = .ok w ↔ text = w.toBinary := by
  rw [ofBinary, ofDigits_eq_ok_iff_eq_toBinary, String.toList_inj]

end Word

/-! ### Texts that are not numbers -/

/-- What the error says is true of the text, of which the length has to be an admitted one: that it
is not, or else which character is the first that is no digit, and how many digits stand before. -/
def BinaryError.Describes (admitted : Nat → Prop) (text : List Char) : BinaryError → Prop
  | .wrongLength found => ¬ admitted text.length ∧ found = text.length
  | .invalidDigit char index => admitted text.length ∧ ∃ digits rest,
    text = digits ++ char :: rest ∧ IsBinary digits ∧ ¬ (char = '0' ∨ char = '1') ∧
      index = digits.length

namespace Word
variable {cs : List Char} {e : BinaryError}

theorem readDigits_eq_error_iff {index : Nat} {high : Word} :
    readDigits cs index high = .error e ↔ ∃ digits c rest, cs = digits ++ c :: rest ∧
      IsBinary digits ∧ ¬ (c = '0' ∨ c = '1') ∧ e = .invalidDigit c (index + digits.length) := by
  induction cs generalizing index high with
  | nil => simp [readDigits]
  | cons d cs ih =>
    by_cases hd : d = '0' ∨ d = '1'
    · rw [readDigits_cons hd, ih]
      constructor
      · rintro ⟨digits, c, rest, rfl, hdigits, hc, rfl⟩
        refine ⟨d :: digits, c, rest, rfl, isBinary_cons.2 ⟨hd, hdigits⟩, hc, ?_⟩
        rw [List.length_cons, Nat.add_right_comm, Nat.add_assoc]
      · rintro ⟨_ | ⟨_, digits⟩, c, rest, heq, hdigits, hc, rfl⟩
        · obtain ⟨rfl, rfl⟩ := List.cons_eq_cons.1 heq
          exact absurd hd hc
        · obtain ⟨rfl, rfl⟩ := List.cons_eq_cons.1 heq
          refine ⟨digits, c, rest, rfl, (isBinary_cons.1 hdigits).2, hc, ?_⟩
          rw [List.length_cons, Nat.add_right_comm, Nat.add_assoc]
    · obtain ⟨h0, h1⟩ := not_or.1 hd
      rw [readDigits, if_neg h0, if_neg h1]
      constructor
      · intro h
        cases h
        exact ⟨[], d, cs, rfl, by simp [IsBinary], hd, rfl⟩
      · rintro ⟨_ | ⟨_, digits⟩, c, rest, heq, hdigits, hc, rfl⟩
        · obtain ⟨rfl, rfl⟩ := List.cons_eq_cons.1 heq
          rfl
        · obtain ⟨rfl, rfl⟩ := List.cons_eq_cons.1 heq
          exact absurd (isBinary_cons.1 hdigits).1 hd

theorem readDigits_zero_eq_error_iff {admitted : Nat → Prop} (hlen : admitted cs.length) :
    readDigits cs 0 0 = .error e ↔ e.Describes admitted cs := by
  rw [readDigits_eq_error_iff]
  cases e with
  | wrongLength found => simp [BinaryError.Describes, hlen]
  | invalidDigit char index =>
    simp only [BinaryError.Describes, hlen, true_and, Nat.zero_add, BinaryError.invalidDigit.injEq]
    constructor
    · rintro ⟨digits, c, rest, hcs, hdigits, hc, rfl, rfl⟩
      exact ⟨digits, rest, hcs, hdigits, hc, rfl⟩
    · rintro ⟨digits, rest, hcs, hdigits, hc, rfl⟩
      exact ⟨digits, char, rest, hcs, hdigits, hc, rfl, rfl⟩

theorem describes_of_not_admitted {admitted : Nat → Prop} (hlen : ¬ admitted cs.length) :
    e.Describes admitted cs ↔ e = .wrongLength cs.length := by
  cases e <;> simp [BinaryError.Describes, hlen]

theorem ofDigits_eq_error_iff : ofDigits cs = .error e ↔ e.Describes (· = 16) cs := by
  by_cases hlen : cs.length = 16
  · rw [ofDigits, if_pos hlen]
    exact readDigits_zero_eq_error_iff hlen
  · rw [ofDigits, if_neg hlen, describes_of_not_admitted hlen, Except.error.injEq, eq_comm]

theorem ofSignedDigits_eq_error_iff :
    ofSignedDigits cs = .error e ↔ e.Describes (fun n => 0 < n ∧ n ≤ 16) cs := by
  by_cases hlen : 0 < cs.length ∧ cs.length ≤ 16
  · rw [ofSignedDigits, if_pos hlen, Except.map_eq_error_iff]
    exact readDigits_zero_eq_error_iff hlen
  · rw [ofSignedDigits, if_neg hlen, describes_of_not_admitted hlen, Except.error.injEq, eq_comm]

end Word
end Lc3
