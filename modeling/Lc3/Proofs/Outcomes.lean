import Mathlib.Data.List.Forall2

/-! # Results that may be errors

When a computation whose steps can fail has the result `.ok`, and which error it ends with: that of
the first step that has one. -/

namespace Except
variable {ε ε' α β : Type}

theorem map_eq_ok_iff {x : Except ε α} {f : α → β} {b : β} :
    x.map f = .ok b ↔ ∃ a, x = .ok a ∧ f a = b := by
  cases x <;> simp [Except.map]

theorem bind_eq_ok_iff {x : Except ε α} {f : α → Except ε β} {b : β} :
    x >>= f = .ok b ↔ ∃ a, x = .ok a ∧ f a = .ok b := by
  cases x <;> simp [bind, Except.bind]

theorem mapError_eq_ok_iff {x : Except ε α} {f : ε → ε'} {a : α} :
    x.mapError f = .ok a ↔ x = .ok a := by
  cases x <;> simp [Except.mapError]

theorem map_eq_error_iff {x : Except ε α} {f : α → β} {e : ε} :
    x.map f = .error e ↔ x = .error e := by
  cases x <;> simp [Except.map]

theorem bind_eq_error_iff {x : Except ε α} {f : α → Except ε β} {e : ε} :
    x >>= f = .error e ↔ x = .error e ∨ ∃ a, x = .ok a ∧ f a = .error e := by
  cases x <;> simp [bind, Except.bind]

theorem mapError_eq_error_iff {x : Except ε α} {f : ε → ε'} {e' : ε'} :
    x.mapError f = .error e' ↔ ∃ e, x = .error e ∧ f e = e' := by
  cases x <;> simp [Except.mapError]

theorem exists_error_iff {x : Except ε α} : (∃ e, x = .error e) ↔ ¬ ∃ a, x = .ok a := by
  cases x <;> simp

/-- The error, if there is one. -/
def error? : Except ε α → Option ε
  | .error e => some e
  | .ok _ => none

theorem error?_eq_some_iff {x : Except ε α} {e : ε} : x.error? = some e ↔ x = .error e := by
  cases x <;> simp [error?]

theorem error?_eq_none_iff {x : Except ε α} : x.error? = none ↔ ∃ a, x = .ok a := by
  cases x <;> simp [error?]

theorem error?_bind_pure {x : Except ε α} (f : α → β) :
    (x >>= fun a => pure (f a)).error? = x.error? := by
  cases x <;> rfl

theorem error?_bind {x : Except ε α} {f : α → Except ε β} {e? : Option ε}
    (h : ∀ a, x = .ok a → (f a).error? = e?) : (x >>= f).error? = x.error?.or e? := by
  cases x with
  | error e => rfl
  | ok a => exact h a rfl

theorem mapM_eq_ok_iff {f : α → Except ε β} {xs : List α} {ys : List β} :
    xs.mapM f = .ok ys ↔ List.Forall₂ (fun x y => f x = .ok y) xs ys := by
  induction xs generalizing ys with
  | nil => simp [pure, Except.pure, eq_comm]
  | cons x xs ih =>
    rw [List.mapM_cons, bind_eq_ok_iff, List.forall₂_cons_left_iff]
    refine exists_congr fun y => ?_
    rw [bind_eq_ok_iff]
    simp [pure, Except.pure, ih, eq_comm]

/-- A list that is not mapped fails with the error of the first element that has one. -/
theorem error?_mapM (f : α → Except ε β) (xs : List α) :
    (xs.mapM f).error? = (xs.filterMap fun x => (f x).error?).head? := by
  induction xs with
  | nil => rfl
  | cons x xs ih =>
    have hrest : ∀ y, (do let ys ← xs.mapM f; pure (y :: ys)).error? =
        (xs.filterMap fun x => (f x).error?).head? := by
      intro y
      rw [error?_bind_pure, ih]
    rw [List.mapM_cons, error?_bind fun y _ => hrest y, List.filterMap_cons]
    cases (f x).error? <;> rfl

theorem mapM_eq_error_iff {f : α → Except ε β} {xs : List α} {e : ε} :
    xs.mapM f = .error e ↔ ∃ before x after, xs = before ++ x :: after ∧
      (∀ y ∈ before, ∃ b, f y = .ok b) ∧ f x = .error e := by
  simp only [← error?_eq_some_iff, error?_mapM, List.head?_filterMap, List.findSome?_eq_some_iff,
    error?_eq_none_iff, and_comm (a := error? _ = some e)]

end Except
