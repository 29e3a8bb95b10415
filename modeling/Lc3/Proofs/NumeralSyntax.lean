import Lc3.Numeral
import Mathlib.Data.List.Induction

/-! # The syntax of numerals

`Writes` says which digits write a number, digit after digit, and `Typed` admits a plus sign before
them. Neither says how many digits there are: `read?_eq_some_iff` says that a number below the bound
is read from whatever it is typed as, with any zeros in front of it, and that nothing else is read.
-/

namespace Lc3.Numeral

/-- The character stands for `d`, a letter in either case. -/
def IsDigit (base : Nat) (c : Char) (d : Nat) : Prop :=
  d < base ∧ (c = d.digitChar ∨ c = d.digitChar.toUpper)

/-- The digits, of which there is at least one, write `n`. -/
inductive Writes (base : Nat) : List Char → Nat → Prop
  | digit {c : Char} {d : Nat} (h : IsDigit base c d) : Writes base [c] d
  | concat {cs : List Char} {n : Nat} {c : Char} {d : Nat} (hcs : Writes base cs n)
      (h : IsDigit base c d) : Writes base (cs ++ [c]) (n * base + d)

/-- The digits of `n`, with a plus sign before them or without. -/
inductive Typed (base : Nat) : List Char → Nat → Prop
  | bare {cs : List Char} {n : Nat} (h : Writes base cs n) : Typed base cs n
  | plus {cs : List Char} {n : Nat} (h : Writes base cs n) : Typed base ('+' :: cs) n

variable {base bound n d : Nat} {c : Char} {cs : List Char}

/-! ### Digits -/

/-- What is so of each character from `low` to `high` by its place among them. -/
theorem forall_between {low high : Char} {P : Char → Nat → Prop}
    (h : ∀ k ≤ high.toNat - low.toNat, P (Char.ofNat (low.toNat + k)) k)
    (hc : low ≤ c ∧ c ≤ high) : P c (c.toNat - low.toNat) := by
  have hlow : low.toNat ≤ c.toNat := hc.1
  have hhigh : c.toNat ≤ high.toNat := hc.2
  have hplace := h (c.toNat - low.toNat) (by omega)
  rwa [Nat.add_sub_cancel' hlow, Char.ofNat_toNat] at hplace

theorem digit?_eq_some_iff (hbase : base ≤ 16) : digit? base c = some d ↔ IsDigit base c d := by
  unfold digit? IsDigit
  rw [Option.filter_eq_some_iff, decide_eq_true_iff, and_comm]
  refine and_congr_right fun hlt => ?_
  have hd : d < 16 := by omega
  clear hlt
  constructor
  · intro h
    split at h
    next hc =>
      cases h
      exact .inl (forall_between (P := fun c k => c = k.digitChar) (by decide) hc)
    split at h
    next hc =>
      cases h
      exact .inl (forall_between (P := fun c k => k + 10 < 16 → c = (k + 10).digitChar)
        (by decide) hc hd)
    split at h
    next hc =>
      cases h
      exact .inr (forall_between (P := fun c k => k + 10 < 16 → c = (k + 10).digitChar.toUpper)
        (by decide) hc hd)
    cases h
  · rintro (rfl | rfl)
    · revert d
      decide
    · revert d
      decide

theorem not_isDigit_of_digit? (hbase : base ≤ 16) (h : digit? base c = none) :
    ¬ IsDigit base c d := by
  rw [← digit?_eq_some_iff hbase, h]
  exact (Option.some_ne_none d).symm

theorem Writes.exists_isDigit (h : Writes base cs n) : ∀ c ∈ cs, ∃ d, IsDigit base c d := by
  induction h with
  | digit h => simpa using ⟨_, h⟩
  | concat _ h ih =>
    intro c hc
    rcases List.mem_append.1 hc with hc | hc
    · exact ih c hc
    · rw [List.mem_singleton.1 hc]
      exact ⟨_, h⟩

theorem Writes.ne_nil (h : Writes base cs n) : cs ≠ [] := by
  cases h with
  | digit => exact List.cons_ne_nil _ _
  | concat => exact List.append_ne_nil_of_right_ne_nil _ (List.cons_ne_nil _ _)

theorem Typed.eq_plus_or_isDigit (h : Typed base cs n) :
    ∀ c ∈ cs, c = '+' ∨ ∃ d, IsDigit base c d := by
  intro c hc
  cases h with
  | bare h => exact .inr (h.exists_isDigit c hc)
  | plus h =>
    rcases List.mem_cons.1 hc with rfl | hc
    · exact .inl rfl
    · exact .inr (h.exists_isDigit c hc)

/-! ### Reading -/

theorem value?_concat (base : Nat) (cs : List Char) (c : Char) :
    value? base (cs ++ [c]) =
      (value? base cs).bind fun n => (digit? base c).map (n * base + ·) := by
  simp [value?, List.foldlM_append]

theorem value?_of_writes (hbase : base ≤ 16) (h : Writes base cs n) : value? base cs = some n := by
  induction h with
  | digit h =>
    rw [← List.nil_append [_], value?_concat, (digit?_eq_some_iff hbase).2 h]
    simp [value?]
  | concat _ h ih => rw [value?_concat, ih, (digit?_eq_some_iff hbase).2 h]; rfl

theorem writes_of_value? (hbase : base ≤ 16) (h : value? base cs = some n) (hne : cs ≠ []) :
    Writes base cs n := by
  induction cs using List.reverseRecOn generalizing n with
  | nil => exact absurd rfl hne
  | append_singleton cs c ih =>
    rw [value?_concat, Option.bind_eq_some_iff] at h
    obtain ⟨m, hm, h⟩ := h
    obtain ⟨d, hd, rfl⟩ := Option.map_eq_some_iff.1 h
    have hd : IsDigit base c d := (digit?_eq_some_iff hbase).1 hd
    rcases eq_or_ne cs [] with rfl | hcs
    · cases hm
      simpa using Writes.digit hd
    · exact .concat (ih hm hcs) hd

theorem value?_eq_some_iff (hbase : base ≤ 16) (hne : cs ≠ []) :
    value? base cs = some n ↔ Writes base cs n :=
  ⟨fun h => writes_of_value? hbase h hne, value?_of_writes hbase⟩

theorem typed_iff (hbase : base ≤ 16) : Typed base cs n ↔ Writes base (dropPlus cs) n := by
  constructor
  · intro h
    cases h with
    | bare h =>
      unfold dropPlus
      split
      · obtain ⟨d, hd⟩ := h.exists_isDigit '+' List.mem_cons_self
        exact absurd hd (not_isDigit_of_digit? hbase rfl)
      · exact h
    | plus h => exact h
  · intro h
    unfold dropPlus at h
    split at h
    · exact .plus h
    · exact .bare h

theorem read?_eq_some_iff (hbase : base ≤ 16) :
    read? base bound cs = some n ↔ Typed base cs n ∧ n < bound := by
  rw [typed_iff hbase, read?]
  cases hdigits : dropPlus cs with
  | nil =>
    constructor
    · intro h
      cases h
    · rintro ⟨h, -⟩
      exact absurd rfl h.ne_nil
  | cons c ds =>
    rw [Option.filter_eq_some_iff, decide_eq_true_iff,
      value?_eq_some_iff hbase (List.cons_ne_nil c ds)]

/-! ### Writing -/

theorem writes_toDigits (hbase : 1 < base) (n : Nat) : Writes base (Nat.toDigits base n) n := by
  induction n using Nat.strongRecOn with
  | ind n ih =>
    rw [Nat.toDigits_eq_if hbase]
    split
    next hn => exact .digit ⟨hn, .inl rfl⟩
    next hn =>
      have hlast : IsDigit base (n % base).digitChar (n % base) :=
        ⟨Nat.mod_lt n (by omega), .inl rfl⟩
      have hconcat := (ih (n / base) (Nat.div_lt_self (by omega) hbase)).concat hlast
      rwa [Nat.div_add_mod'] at hconcat

end Lc3.Numeral
