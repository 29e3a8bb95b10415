import Lc3.Proofs.BinaryNumbers
import Lc3.Proofs.Numerals
import Mathlib.Data.BitVec
import Mathlib.Data.Set.Card

/-! # Words and signed numbers as texts

Words are written as numerals of 16 places in base two, and these texts, no others, are read back
(`ofBinary_eq_ok_iff`). Signed numbers have shorter texts too, and more than one each: the leading
digit can be repeated, because a new first bit takes away what the old one gains by counting
positively (`Bits.signed_cons_self`). -/

namespace Lc3
open Bits

namespace Bits

theorem signed_cons_self (b : Bool) (bits : List Bool) :
    signed (b :: b :: bits) = signed (b :: bits) := by
  simp only [signed, unsigned_cons, List.length_cons]
  push_cast
  ring

theorem signed_replicate_append (k : Nat) (b : Bool) (bits : List Bool) :
    signed (List.replicate k b ++ b :: bits) = signed (b :: bits) := by
  induction k generalizing bits with
  | zero => rfl
  | succ k ih =>
    rw [List.replicate_succ', List.append_assoc, List.singleton_append, ih, signed_cons_self]

end Bits

namespace Word
variable {text : String} {w : Word}

/-! ### Words -/

theorem toBinary_injective : Function.Injective toBinary := by
  intro v w h
  have hv : ofBinary v.toBinary = .ok v := ofBinary_eq_ok_iff.2 rfl
  have hw : ofBinary v.toBinary = .ok w := ofBinary_eq_ok_iff.2 h
  exact Except.ok.inj (hv.symm.trans hw)

theorem ncard_setOf_ofBinary_eq_ok : {t | ∃ w, ofBinary t = .ok w}.ncard = 2 ^ 16 := by
  have hrange : {t | ∃ w, ofBinary t = .ok w} = Set.range toBinary := by
    ext t
    constructor
    · rintro ⟨w, hw⟩
      exact ⟨w, (ofBinary_eq_ok_iff.1 hw).symm⟩
    · rintro ⟨w, rfl⟩
      exact ⟨w, ofBinary_eq_ok_iff.2 rfl⟩
  rw [hrange, Set.ncard_range_of_injective toBinary_injective,
    Nat.card_congr BitVec.equivFin.toEquiv, Nat.card_fin]

/-- Words are read from the numerals of 16 places, each from its own, and for any other text the
error says what is wrong with it. -/
theorem ofBinary_reads_numerals :
    (∀ t w, ofBinary t = .ok w ↔ t = w.toBinary) ∧
    (∀ w : Word, w.toBinary = numeral binarySymbols 16 w.toNat) ∧
    Function.Injective toBinary ∧ {t | ∃ w, ofBinary t = .ok w}.ncard = 2 ^ 16 ∧
    ∀ t e, ofBinary t = .error e ↔ e.Describes (· = 16) t.toList :=
  ⟨fun _ _ => ofBinary_eq_ok_iff, toBinary_eq_numeral, toBinary_injective,
    ncard_setOf_ofBinary_eq_ok, fun _ _ => ofDigits_eq_error_iff⟩

/-! ### Signed numbers -/

section
variable {c : Char} {cs : List Char}

theorem isBinary_replicate_append (k : Nat) :
    IsBinary (List.replicate k c ++ c :: cs) ↔ IsBinary (c :: cs) := by
  induction k with
  | zero => rfl
  | succ k ih =>
    rw [List.replicate_succ, List.cons_append, isBinary_cons, ih, isBinary_cons]
    tauto

/-- A longer text with the same leading digit is read as the same number. -/
theorem ofSignedDigits_replicate_append {k : Nat} (hlen : k + (c :: cs).length ≤ 16) :
    ofSignedDigits (List.replicate k c ++ c :: cs) = .ok w ↔ ofSignedDigits (c :: cs) = .ok w := by
  have hbits : bitsOf (List.replicate k c ++ c :: cs) =
      List.replicate k (c == '1') ++ bitsOf (c :: cs) := by
    simp [bitsOf]
  have hsigned : signed (bitsOf (List.replicate k c ++ c :: cs)) = signed (bitsOf (c :: cs)) := by
    rw [hbits]
    exact signed_replicate_append k _ _
  rw [ofSignedDigits_eq_ok_iff, ofSignedDigits_eq_ok_iff, isBinary_replicate_append, hsigned]
  simp only [List.length_append, List.length_replicate, List.length_cons] at hlen ⊢
  refine and_congr_left fun _ => ?_
  omega

theorem signExtendLow_all (v : Word) : v.signExtendLow 16 = v := by
  simp [signExtendLow]

theorem ofSignedDigits_of_length_eq (hlen : cs.length = 16) :
    ofSignedDigits cs = ofDigits cs := by
  rw [ofSignedDigits, ofDigits, if_pos hlen, if_pos (by omega), hlen]
  cases readDigits cs 0 0 with
  | error e => rfl
  | ok v => exact congrArg Except.ok (signExtendLow_all v)

end

/-- The digit that a text of binary digits begins with. -/
def leadingDigit (text : String) : Nat :=
  ((bitsOf text.toList).headD false).toNat

/-- Signed numbers are read from 1 to 16 binary digits: from the unsigned number that `n` digits
write, `2 ^ n` is taken away if the first is a one. -/
theorem ofSignedBinary_reads_twos_complement (text : String) :
    ((∃ w, ofSignedBinary text = .ok w) ↔
      (1 ≤ text.length ∧ text.length ≤ 16) ∧ IsBinary text.toList) ∧
    (∀ w, ofSignedBinary text = .ok w →
      w.toInt = unsigned (bitsOf text.toList) - 2 ^ text.length * leadingDigit text) ∧
    (∀ k c, text.toList.head? = some c → k + text.length ≤ 16 → ∀ w,
      ofSignedBinary (String.ofList (List.replicate k c) ++ text) = .ok w ↔
        ofSignedBinary text = .ok w) ∧
    (text.length = 16 → ofSignedBinary text = ofBinary text) ∧
    ∀ e, ofSignedBinary text = .error e ↔ e.Describes (fun n => 1 ≤ n ∧ n ≤ 16) text.toList := by
  rw [← String.length_toList]
  refine ⟨exists_ofSignedDigits_eq_ok_iff, ?_, ?_, ofSignedDigits_of_length_eq,
    fun e => ofSignedDigits_eq_error_iff⟩
  · intro w hw
    obtain ⟨-, -, hw⟩ := ofSignedDigits_eq_ok_iff.1 hw
    rw [hw, signed_eq, length_bitsOf, leadingDigit]
  · intro k c hhead hlen w
    obtain ⟨cs, hcs⟩ := List.head?_eq_some_iff.1 hhead
    rw [ofSignedBinary, ofSignedBinary, String.toList_append, String.toList_ofList, hcs]
    rw [hcs] at hlen
    exact ofSignedDigits_replicate_append hlen

/-- Thirteen more ones in front of the three digits of `-3` make them the text of a word. -/
theorem ofSignedBinary_of_ones :
    let long := String.ofList (List.replicate 13 '1') ++ "101"
    ("101".toList.head? = some '1' ∧ 13 + "101".length ≤ 16 ∧ long.length = 16 ∧
      ofSignedBinary "101" = .ok 0xFFFD) ∧
    (0xFFFD : Word).toInt =
      unsigned (bitsOf "101".toList) - 2 ^ "101".length * leadingDigit "101" ∧
    ofSignedBinary long = .ok 0xFFFD ∧ ofSignedBinary long = ofBinary long := by
  intro long
  have hlen : 13 + "101".length ≤ 16 := by decide
  have hlong : long.length = 16 := by decide
  have hread : ofSignedBinary "101" = .ok 0xFFFD := rfl
  obtain ⟨-, hvalue, hrepeat, -⟩ := ofSignedBinary_reads_twos_complement "101"
  obtain ⟨-, -, -, hword, -⟩ := ofSignedBinary_reads_twos_complement long
  exact ⟨⟨rfl, hlen, hlong, hread⟩, hvalue _ hread, (hrepeat 13 '1' rfl hlen _).2 hread,
    hword hlong⟩

end Word
end Lc3
