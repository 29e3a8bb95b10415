import Lc3.Address
import Lc3.Proofs.BinaryNumbers
import Lc3.Proofs.ImageGrammar
import Lc3.Proofs.NumeralSyntax

/-! # The syntax of addresses and pokes

An address is typed in hexadecimal after one of four marks, or else in decimal. No decimal number
begins with a mark (`hexPart?_of_typed`), so that a text is tried in one base only. A poke is cut at
its first equals sign, whatever follows that, and both of its parts may have white space around
them. A text that is neither is quoted as a whole when it is refused; of a poke whose address is
refused, the address alone is quoted, and without the white space. -/

namespace Lc3

/-- The failure is of the kind that `code` names. It quotes `text` and points at nothing. -/
structure Failure.Quotes (failure : Failure) (code opening text : String) : Prop where
  code : failure.code = some code
  message : failure.message = opening ++ " `" ++ text ++ "`"
  labels : failure.labels = []
  source : failure.source = none

theorem Failure.quotes_badAddress (text : String) :
    (Failure.badAddress text).Quotes "cli::address" "Invalid address" text :=
  ⟨rfl, rfl, rfl, rfl⟩

theorem Failure.quotes_badPoke (text : String) :
    (Failure.badPoke text).Quotes "cli::poke" "Invalid memory poke" text :=
  ⟨rfl, rfl, rfl, rfl⟩

namespace Address
open Numeral (Typed)

/-- What stands before a hexadecimal number. -/
def marks : List (List Char) :=
  [['0', 'x'], ['0', 'X'], ['x'], ['X']]

/-- The text has the form of an address and writes `n`, which may be too large for one. -/
inductive Writes : List Char → Nat → Prop
  | hexadecimal {mark cs : List Char} {n : Nat} (hmark : mark ∈ marks) (h : Typed 16 cs n) :
    Writes (mark ++ cs) n
  | decimal {cs : List Char} {n : Nat} (h : Typed 10 cs n) : Writes cs n

variable {cs rest : List Char} {n : Nat} {text : String} {a : Word} {failure : Failure}

theorem mem_marks {mark : List Char} :
    mark ∈ marks ↔ mark = ['0', 'x'] ∨ mark = ['0', 'X'] ∨ mark = ['x'] ∨ mark = ['X'] := by
  simp [marks]

theorem hexPart?_eq_some_iff : hexPart? cs = some rest ↔ ∃ mark ∈ marks, cs = mark ++ rest := by
  constructor
  · intro h
    unfold hexPart? at h
    split at h
    · cases h; exact ⟨['0', 'x'], by simp [marks], rfl⟩
    · cases h; exact ⟨['0', 'X'], by simp [marks], rfl⟩
    · cases h; exact ⟨['x'], by simp [marks], rfl⟩
    · cases h; exact ⟨['X'], by simp [marks], rfl⟩
    · cases h
  · rintro ⟨mark, hmark, rfl⟩
    rcases mem_marks.1 hmark with rfl | rfl | rfl | rfl <;> rfl

theorem exists_letter_mem_mark {mark : List Char} (h : mark ∈ marks) :
    ∃ c ∈ mark, c ≠ '+' ∧ Numeral.digit? 10 c = none := by
  rcases mem_marks.1 h with rfl | rfl | rfl | rfl
  · exact ⟨'x', by simp, by simp, rfl⟩
  · exact ⟨'X', by simp, by simp, rfl⟩
  · exact ⟨'x', by simp, by simp, rfl⟩
  · exact ⟨'X', by simp, by simp, rfl⟩

theorem hexPart?_of_typed (h : Typed 10 cs n) : hexPart? cs = none := by
  rw [Option.eq_none_iff_forall_ne_some]
  intro rest hrest
  obtain ⟨mark, hmark, rfl⟩ := hexPart?_eq_some_iff.1 hrest
  obtain ⟨c, hc, hplus, hnone⟩ := exists_letter_mem_mark hmark
  rcases h.eq_plus_or_isDigit c (List.mem_append_left rest hc) with heq | ⟨d, hd⟩
  · exact hplus heq
  · exact Numeral.not_isDigit_of_digit? (by decide) hnone hd

theorem read?_eq_some_iff : read? cs = some n ↔ Writes cs n ∧ n ≤ 65535 := by
  have hbound : n < 65536 ↔ n ≤ 65535 := by omega
  rw [← hbound]
  constructor
  · intro h
    unfold read? at h
    split at h
    next rest hrest =>
      obtain ⟨mark, hmark, rfl⟩ := hexPart?_eq_some_iff.1 hrest
      obtain ⟨htyped, hlt⟩ := (Numeral.read?_eq_some_iff (by decide)).1 h
      exact ⟨.hexadecimal hmark htyped, hlt⟩
    next =>
      obtain ⟨htyped, hlt⟩ := (Numeral.read?_eq_some_iff (by decide)).1 h
      exact ⟨.decimal htyped, hlt⟩
  · rintro ⟨h, hlt⟩
    cases h with
    | hexadecimal hmark h =>
      rw [read?, hexPart?_eq_some_iff.2 ⟨_, hmark, rfl⟩]
      exact (Numeral.read?_eq_some_iff (by decide)).2 ⟨h, hlt⟩
    | decimal h =>
      rw [read?, hexPart?_of_typed h]
      exact (Numeral.read?_eq_some_iff (by decide)).2 ⟨h, hlt⟩

theorem parse_eq_ok_iff : parse text = .ok a ↔ Writes text.toList a.toNat := by
  have hle : a.toNat ≤ 65535 := Nat.le_of_lt_succ a.isLt
  rw [← and_iff_left (a := Writes _ _) hle, ← read?_eq_some_iff]
  unfold parse
  split
  next n hn =>
    have hle := (read?_eq_some_iff.1 hn).2
    rw [hn, Except.ok.injEq, Option.some.injEq, ← BitVec.toNat_inj, BitVec.toNat_ofNat,
      Nat.mod_eq_of_lt (by omega)]
  next hn => simp [hn]

theorem exists_writes_iff :
    (∃ a : Word, Writes text.toList a.toNat) ↔ ∃ n ≤ 65535, Writes text.toList n := by
  constructor
  · rintro ⟨a, ha⟩
    exact ⟨a.toNat, Nat.le_of_lt_succ a.isLt, ha⟩
  · rintro ⟨n, hn, h⟩
    exact ⟨BitVec.ofNatLT n (by omega), h⟩

theorem parse_eq_error_iff :
    parse text = .error failure ↔ (∀ a, parse text ≠ .ok a) ∧ failure = .badAddress text := by
  unfold parse
  split <;> simp [eq_comm]

/-! ### Addresses as they are written -/

theorem writes_map_hexDigits {f : Char → Char} (a : Word)
    (hf : ∀ d < 16, Numeral.IsDigit 16 (f d.digitChar) d) :
    Numeral.Writes 16 (a.hexDigits.map f) a.toNat := by
  have hdigit : ∀ shift, Numeral.IsDigit 16 (f (Nat.digitChar (a.extractLsb' shift 4).toNat))
      (a.toNat / 2 ^ shift % 16) := by
    intro shift
    rw [BitVec.extractLsb'_toNat, Nat.shiftRight_eq_div_pow]
    exact hf _ (Nat.mod_lt _ (by decide))
  have hwrites := (((Numeral.Writes.digit (hdigit 12)).concat (hdigit 8)).concat (hdigit 4)).concat
    (hdigit 0)
  have hvalue : ((a.toNat / 2 ^ 12 % 16 * 16 + a.toNat / 2 ^ 8 % 16) * 16 +
      a.toNat / 2 ^ 4 % 16) * 16 + a.toNat / 2 ^ 0 % 16 = a.toNat := by
    have hlt := a.isLt
    omega
  rwa [hvalue] at hwrites

theorem parse_upperHex (a : Word) : parse ("x" ++ a.toUpperHex) = .ok a := by
  have hdigits : Numeral.Writes 16 a.toUpperHex.toList a.toNat := by
    rw [Word.toUpperHex, String.toList_ofList]
    exact writes_map_hexDigits a fun d hd => ⟨hd, .inr rfl⟩
  have hmark : ['x'] ∈ marks := by decide
  rw [parse_eq_ok_iff, String.toList_append]
  exact .hexadecimal hmark (.bare hdigits)

theorem parse_hex (a : Word) : parse ("0x" ++ a.toHex) = .ok a := by
  have hdigits : Numeral.Writes 16 a.toHex.toList a.toNat := by
    rw [Word.toHex, String.toList_ofList, ← List.map_id a.hexDigits]
    exact writes_map_hexDigits a fun d hd => ⟨hd, .inl rfl⟩
  have hmark : ['0', 'x'] ∈ marks := by decide
  rw [parse_eq_ok_iff, String.toList_append]
  exact .hexadecimal hmark (.bare hdigits)

theorem parse_natRepr (a : Word) : parse a.toNat.repr = .ok a := by
  rw [parse_eq_ok_iff, Nat.toList_repr]
  exact .decimal (.bare (Numeral.writes_toDigits (by decide) a.toNat))

/-- Addresses are read from the texts of their form whose number is small enough, and every other
text is refused and quoted. An address can be typed as it is shown. -/
theorem parse_accepts_marked_numerals (text : String) :
    ((∃ a, parse text = .ok a) ↔ ∃ n ≤ 65535, Writes text.toList n) ∧
    (∀ a, parse text = .ok a ↔ Writes text.toList a.toNat) ∧
    (∀ failure, parse text = .error failure ↔
      (¬ ∃ n ≤ 65535, Writes text.toList n) ∧ failure = .badAddress text) ∧
    (Failure.badAddress text).Quotes "cli::address" "Invalid address" text ∧
    ∀ a, parse ("x" ++ a.toUpperHex) = .ok a ∧ parse ("0x" ++ a.toHex) = .ok a ∧
      parse a.toNat.repr = .ok a := by
  refine ⟨?_, fun a => parse_eq_ok_iff, fun failure => ?_, Failure.quotes_badAddress text,
    fun a => ⟨parse_upperHex a, parse_hex a, parse_natRepr a⟩⟩
  · simp only [parse_eq_ok_iff, exists_writes_iff]
  · rw [parse_eq_error_iff, ← exists_writes_iff, not_exists]
    simp only [ne_eq, parse_eq_ok_iff]

example : parse "X+00000000000000000000fFfF" = .ok 0xFFFF := by decide

example : parse "0x+10000" = .error (.badAddress "0x+10000") := by decide

end Address

namespace Poke
open Text (strip)

/-- The text is `before` and `after` with its first equals sign between them. -/
structure CutAtEquals (text : String) (before after : List Char) : Prop where
  eq : text.toList = before ++ '=' :: after
  first : '=' ∉ before

/-- The failure with which the text is refused as a poke. What is wrong with the address counts more
than what is wrong with the word. -/
inductive Refused (text : String) : Failure → Prop
  | noEquals (h : '=' ∉ text.toList) : Refused text (.badPoke text)
  | address {before after : List Char} (hcut : CutAtEquals text before after)
      (h : ∀ a, Address.parse (String.ofList (strip before)) ≠ .ok a) :
    Refused text (.badAddress (String.ofList (strip before)))
  | word {before after : List Char} {a : Word} (hcut : CutAtEquals text before after)
      (ha : Address.parse (String.ofList (strip before)) = .ok a)
      (h : ∀ w : Word, strip after ≠ w.toBinary.toList) : Refused text (.badPoke text)

variable {text : String} {before after : List Char} {a w : Word} {failure : Failure}

theorem exists_cutAtEquals (h : '=' ∈ text.toList) :
    ∃ before after, CutAtEquals text before after := by
  obtain ⟨before, after, heq, hfirst⟩ := List.eq_append_cons_of_mem h
  exact ⟨before, after, heq, hfirst⟩

theorem parse_of_notMem (h : '=' ∉ text.toList) : parse text = .error (.badPoke text) := by
  have hdrop : text.toList.dropWhile (· ≠ '=') = [] := by
    rw [List.dropWhile_eq_nil_iff]
    intro c hc
    exact decide_eq_true fun heq => h (heq ▸ hc)
  rw [parse, hdrop]

theorem parse_of_cut (h : CutAtEquals text before after) : parse text = do
    let a ← Address.parse (String.ofList (strip before))
    let w ← (Word.ofDigits (strip after)).mapError fun _ => .badPoke text
    return ⟨a, w⟩ := by
  have hbefore : ∀ c ∈ before, decide (c ≠ '=') = true :=
    fun c hc => decide_eq_true fun heq => h.first (heq ▸ hc)
  have htake : text.toList.takeWhile (· ≠ '=') = before := by
    rw [h.eq, List.takeWhile_append_of_pos hbefore]
    simp
  have hdrop : text.toList.dropWhile (· ≠ '=') = '=' :: after := by
    rw [h.eq, List.dropWhile_append_of_pos hbefore]
    simp
  rw [parse, htake, hdrop, ← Text.trim_eq_strip]

theorem parse_eq_ok_iff : parse text = .ok ⟨a, w⟩ ↔ ∃ before after,
    CutAtEquals text before after ∧ Address.parse (String.ofList (strip before)) = .ok a ∧
      strip after = w.toBinary.toList := by
  constructor
  · intro h
    by_cases hmem : '=' ∈ text.toList
    · obtain ⟨before, after, hcut⟩ := exists_cutAtEquals hmem
      rw [parse_of_cut hcut] at h
      obtain ⟨a', ha, h⟩ := Except.bind_eq_ok_iff.1 h
      obtain ⟨w', hw, h⟩ := Except.bind_eq_ok_iff.1 h
      cases h
      rw [Except.mapError_eq_ok_iff, Word.ofDigits_eq_ok_iff_eq_toBinary] at hw
      exact ⟨before, after, hcut, ha, hw⟩
    · rw [parse_of_notMem hmem] at h
      cases h
  · rintro ⟨before, after, hcut, ha, hw⟩
    rw [parse_of_cut hcut, ha, Word.ofDigits_eq_ok_iff_eq_toBinary.2 hw]
    rfl

theorem parse_eq_error_iff : parse text = .error failure ↔ Refused text failure := by
  constructor
  · intro h
    by_cases hmem : '=' ∈ text.toList
    · obtain ⟨before, after, hcut⟩ := exists_cutAtEquals hmem
      rw [parse_of_cut hcut] at h
      rcases Except.bind_eq_error_iff.1 h with h | ⟨a, ha, h⟩
      · obtain ⟨hnot, rfl⟩ := Address.parse_eq_error_iff.1 h
        exact .address hcut hnot
      rcases Except.bind_eq_error_iff.1 h with h | ⟨w, -, h⟩
      · obtain ⟨e, he, rfl⟩ := Except.mapError_eq_error_iff.1 h
        refine .word hcut ha fun w hw => ?_
        rw [Word.ofDigits_eq_ok_iff_eq_toBinary.2 hw] at he
        cases he
      · cases h
    · rw [parse_of_notMem hmem] at h
      cases h
      exact .noEquals hmem
  · intro h
    cases h with
    | noEquals h => exact parse_of_notMem h
    | address hcut h =>
      rw [parse_of_cut hcut, Except.bind_eq_error_iff]
      exact .inl (Address.parse_eq_error_iff.2 ⟨h, rfl⟩)
    | @word _ after _ hcut ha h =>
      have hword : ∃ e, Word.ofDigits (strip after) = .error e := by
        rw [Except.exists_error_iff]
        rintro ⟨w, hw⟩
        exact h w (Word.ofDigits_eq_ok_iff_eq_toBinary.1 hw)
      obtain ⟨e, he⟩ := hword
      rw [parse_of_cut hcut, ha, he]
      rfl

/-- A poke is an equals sign between an address and a word as it is written, each with white space
around it. -/
theorem parse_splits_at_first_equals (text : String) :
    (∀ a w, parse text = .ok ⟨a, w⟩ ↔ ∃ before after, CutAtEquals text before after ∧
      Address.parse (String.ofList (strip before)) = .ok a ∧ strip after = w.toBinary.toList) ∧
    (∀ failure, parse text = .error failure ↔ Refused text failure) ∧
    (Failure.badPoke text).Quotes "cli::poke" "Invalid memory poke" text ∧
    ∀ address, (Failure.badAddress address).Quotes "cli::address" "Invalid address" address :=
  ⟨fun _ _ => parse_eq_ok_iff, fun _ => parse_eq_error_iff, Failure.quotes_badPoke text,
    Failure.quotes_badAddress⟩

example : parse "\u3000x3100 =\t0000000000001111\r" = .ok ⟨0x3100, 15⟩ := by decide

end Poke
end Lc3
