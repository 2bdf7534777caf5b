import Mathlib.Algebra.BigOperators.Group.Finset.Piecewise
import Mathlib.Data.Fintype.Card

/-! # Counting a finite family by a property

For a family `f : τ → β` over a finite type, such as the phase of each thread
of a pool, `count f p` is how many indices have `p (f u)`. Changing one index
with `Function.update` moves a sum over the family, and so a count, by what
the old and the new value add (`sum_update`, `count_update`); a count at most
one says that at most one index has the property (`eq_of_count_le_one`).
-/

namespace Count

variable {τ β : Type} [Fintype τ]

/-- How many indices have the property. -/
def count (f : τ → β) (p : β → Bool) : Nat := (Finset.univ.filter fun u => p (f u) = true).card

theorem count_eq_sum (f : τ → β) (p : β → Bool) :
    count f p = ∑ u, if p (f u) = true then 1 else 0 := by
  rw [count, Finset.card_filter]

theorem sum_update [DecidableEq τ] (f : τ → β) (g : β → Nat) (t : τ) (b : β) :
    ∑ u, g (Function.update f t b u) + g (f t) = ∑ u, g (f u) + g b := by
  have hrest : ∑ u ∈ Finset.univ \ {t}, g (Function.update f t b u) = ∑ u ∈ Finset.univ \ {t}, g (f u) := by
    refine Finset.sum_congr rfl fun u hu => ?_
    rw [Function.update_of_ne (by simpa using hu)]
  rw [Finset.sum_eq_add_sum_sdiff_singleton_of_mem (Finset.mem_univ t),
    Finset.sum_eq_add_sum_sdiff_singleton_of_mem (Finset.mem_univ t) (fun u => g (f u)), hrest,
    Function.update_self]
  omega

/-- Moving one index to another value moves the count by what each value adds. -/
theorem count_update [DecidableEq τ] (f : τ → β) (p : β → Bool) (t : τ) (b : β) :
    count (Function.update f t b) p + (if p (f t) then 1 else 0) = count f p + (if p b then 1 else 0) := by
  simp only [count_eq_sum]
  exact sum_update f (fun b => if p b = true then 1 else 0) t b

theorem count_congr {f f' : τ → β} {p p' : β → Bool} (h : ∀ u, p' (f' u) = p (f u)) :
    count f' p' = count f p := by
  simp only [count, h]

theorem count_pos_iff {f : τ → β} {p : β → Bool} : 0 < count f p ↔ ∃ u, p (f u) = true := by
  simp [count, Finset.card_pos, Finset.Nonempty]

theorem count_eq_zero_iff {f : τ → β} {p : β → Bool} : count f p = 0 ↔ ∀ u, p (f u) = false := by
  simp [count, Finset.card_eq_zero, Finset.filter_eq_empty_iff]

theorem count_or {f : τ → β} {p q : β → Bool} (h : ∀ b, p b = true → q b = false) :
    count f (fun b => p b || q b) = count f p + count f q := by
  simp only [count_eq_sum, ← Finset.sum_add_distrib]
  refine Finset.sum_congr rfl fun u _ => ?_
  cases hp : p (f u) <;> cases hq : q (f u) <;> simp_all

theorem eq_of_count_le_one {f : τ → β} {p : β → Bool} (h : count f p ≤ 1) {u v : τ}
    (hu : p (f u) = true) (hv : p (f v) = true) : u = v :=
  Finset.card_le_one.mp h u (by simpa using hu) v (by simpa using hv)

end Count
