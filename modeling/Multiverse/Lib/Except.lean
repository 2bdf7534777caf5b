import Mathlib.Logic.Basic

/-! # Results of fallible code

Lemmas that take a successful `Except` computation apart: a bind that
succeeded ran its first step to a success, and a map that succeeded mapped
one. Proofs about a parser written in `do` notation peel it step by step with
these, and never unfold the monad.
-/

namespace Except

variable {ε α β : Type}

@[simp] theorem ok_bind (a : α) (f : α → Except ε β) : (Except.ok a >>= f) = f a := rfl

@[simp] theorem error_bind (e : ε) (f : α → Except ε β) : (Except.error e >>= f) = .error e := rfl

@[simp] theorem pure_eq_ok (a : α) : (pure a : Except ε α) = .ok a := rfl

theorem bind_eq_ok_iff {x : Except ε α} {f : α → Except ε β} {b : β} :
    x >>= f = .ok b ↔ ∃ a, x = .ok a ∧ f a = .ok b := by
  cases x with
  | error e => simp [error_bind]
  | ok a => simp [ok_bind]

theorem map_eq_ok_iff {x : Except ε α} {f : α → β} {b : β} :
    f <$> x = .ok b ↔ ∃ a, x = .ok a ∧ f a = b := by
  cases x with
  | error e => simp [Functor.map, Except.map]
  | ok a => simp [Functor.map, Except.map]

end Except
