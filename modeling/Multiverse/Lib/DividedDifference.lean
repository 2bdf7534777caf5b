import Mathlib.Algebra.Polynomial.Div
import Mathlib.Algebra.Polynomial.BigOperators
import Mathlib.Algebra.Polynomial.Degree.SmallDegree
import Mathlib.Tactic.LinearCombination

/-! # Divided differences over a commutative ring

`divDiff a p` is the quotient of `p` by `X - a`, so that
`p = p(a) + (X - a) * divDiff a p`. Dividing by the nodes of a list one after
another gives the divided differences of `p`: they do not depend on the order
of the nodes, one more node lowers the degree by one, and a row of the table
of divided differences is computed from the row before it by the usual
recurrence, as long as the nodes differ by units.

No field is needed, only inverses of the differences of the nodes. On the
same terms a polynomial of degree below the number of nodes is determined by
its values there, and so equals its Lagrange interpolant.
-/

open Polynomial

namespace DividedDifference

variable {R : Type*} [CommRing R]

noncomputable def divDiff (a : R) (p : R[X]) : R[X] := p /ₘ (X - C a)

theorem eq_C_add_mul_divDiff (a : R) (p : R[X]) : p = C (p.eval a) + (X - C a) * divDiff a p := by
  have h := modByMonic_add_div p (X - C a)
  rw [modByMonic_X_sub_C_eq_C_eval] at h
  exact h.symm

theorem eval_eq_add_mul_divDiff (a b : R) (p : R[X]) :
    p.eval b = p.eval a + (b - a) * (divDiff a p).eval b := by
  conv_lhs => rw [eq_C_add_mul_divDiff a p]
  simp

@[simp] theorem divDiff_zero (a : R) : divDiff a (0 : R[X]) = 0 := zero_divByMonic _

theorem natDegree_divDiff (a : R) (p : R[X]) : (divDiff a p).natDegree = p.natDegree - 1 := by
  nontriviality R
  rw [divDiff, natDegree_divByMonic _ (monic_X_sub_C a), natDegree_X_sub_C]

theorem divDiff_eq_zero_of_natDegree_eq_zero {p : R[X]} (h : p.natDegree = 0) (a : R) : divDiff a p = 0 := by
  have hp := eq_C_add_mul_divDiff a p
  have hc : C (p.eval a) = p := by
    rw [eq_C_of_natDegree_eq_zero h, eval_C]
  rw [hc, left_eq_add] at hp
  exact (monic_X_sub_C a).mul_right_eq_zero_iff.mp hp

theorem divDiff_comm_and_eval_comm (a b : R) (p : R[X]) :
    divDiff a (divDiff b p) = divDiff b (divDiff a p) ∧ (divDiff a p).eval b = (divDiff b p).eval a := by
  nontriviality R
  set u := (divDiff a p).eval b
  set v := (divDiff b p).eval a
  have hD : (X - C a) * (X - C b) * (divDiff a (divDiff b p) - divDiff b (divDiff a p)) =
      C (u - v) * X + C (p.eval a - p.eval b - a * u + b * v) := by
    have h1 := eq_C_add_mul_divDiff a (divDiff b p)
    have h2 := eq_C_add_mul_divDiff b (divDiff a p)
    have h3 := eq_C_add_mul_divDiff b p
    have h4 := eq_C_add_mul_divDiff a p
    simp only [map_sub, map_add, map_mul]
    linear_combination (X - C a) * h2 - (X - C b) * h1 + h4 - h3
  have hmonic : ((X - C a) * (X - C b)).Monic := (monic_X_sub_C a).mul (monic_X_sub_C b)
  have hq : divDiff a (divDiff b p) - divDiff b (divDiff a p) = 0 := by
    by_contra hne
    have hdeg := congrArg natDegree hD
    rw [hmonic.natDegree_mul' hne, (monic_X_sub_C a).natDegree_mul (monic_X_sub_C b), natDegree_X_sub_C,
      natDegree_X_sub_C] at hdeg
    have hle := natDegree_linear_le (a := u - v) (b := p.eval a - p.eval b - a * u + b * v)
    omega
  refine ⟨sub_eq_zero.mp hq, ?_⟩
  rw [hq, mul_zero] at hD
  have h1 := congrArg (coeff · 1) hD
  simp only [coeff_zero, coeff_add, coeff_C_mul_X, coeff_C, if_true, one_ne_zero, if_false, add_zero] at h1
  exact sub_eq_zero.mp h1.symm

theorem divDiff_comm (a b : R) (p : R[X]) : divDiff a (divDiff b p) = divDiff b (divDiff a p) :=
  (divDiff_comm_and_eval_comm a b p).1

theorem eval_divDiff_comm (a b : R) (p : R[X]) : (divDiff a p).eval b = (divDiff b p).eval a :=
  (divDiff_comm_and_eval_comm a b p).2

theorem eval_divDiff_sub_eval_divDiff (x y z : R) (p : R[X]) :
    (divDiff y p).eval x - (divDiff z p).eval y = (x - z) * (divDiff z (divDiff y p)).eval x := by
  rw [eval_eq_add_mul_divDiff z x (divDiff y p), eval_divDiff_comm y z]
  ring

/-! ## Dividing by a list of nodes -/

/-- The quotient of `p` by the nodes `zs`, the first node first. -/
noncomputable def divDiffs (zs : List R) (p : R[X]) : R[X] := zs.foldl (fun q z => divDiff z q) p

@[simp] theorem divDiffs_nil (p : R[X]) : divDiffs [] p = p := rfl

theorem divDiffs_cons (z : R) (zs : List R) (p : R[X]) : divDiffs (z :: zs) p = divDiffs zs (divDiff z p) := rfl

theorem divDiffs_cons_eq_divDiff (z : R) (zs : List R) (p : R[X]) :
    divDiffs (z :: zs) p = divDiff z (divDiffs zs p) := by
  induction zs generalizing p with
  | nil => rfl
  | cons z' zs ih => rw [divDiffs_cons, divDiffs_cons, divDiff_comm, ← divDiffs_cons, ih, divDiffs_cons]

@[simp] theorem divDiffs_zero (zs : List R) : divDiffs zs (0 : R[X]) = 0 := by
  induction zs with
  | nil => rfl
  | cons z zs ih => rw [divDiffs_cons, divDiff_zero, ih]

theorem divDiffs_eq_zero {zs : List R} {p : R[X]} (h : p.natDegree < zs.length) : divDiffs zs p = 0 := by
  induction zs generalizing p with
  | nil => exact absurd h (Nat.not_lt_zero _)
  | cons z zs ih =>
    rw [divDiffs_cons]
    by_cases h0 : p.natDegree = 0
    · rw [divDiff_eq_zero_of_natDegree_eq_zero h0, divDiffs_zero]
    · apply ih
      rw [natDegree_divDiff]
      simp only [List.length_cons] at h
      omega

/-! ## Rows of the table of divided differences -/

/-- The row of node `x` in the table of divided differences of `V` over the
earlier nodes `zs`, the latest first: `V(x)`, then the divided difference
with one more earlier node at each step. -/
noncomputable def ddRow (x : R) : R[X] → List R → List R
  | V, [] => [V.eval x]
  | V, z :: zs => V.eval x :: ddRow x (divDiff z V) zs

theorem ddRow_eq_cons (x : R) (V : R[X]) (zs : List R) : ddRow x V zs = V.eval x :: (ddRow x V zs).tail := by
  cases zs <;> rfl

theorem getLast!_ddRow [Inhabited R] (x : R) (V : R[X]) (zs : List R) :
    (ddRow x V zs).getLast! = (divDiffs zs V).eval x := by
  induction zs generalizing V with
  | nil => rfl
  | cons z zs ih =>
    rw [ddRow, divDiffs_cons, ← ih, ddRow_eq_cons x (divDiff z V) zs]
    simp

/-! ## A polynomial is determined by its values at enough nodes -/

section Unique

variable {ι : Type*} [DecidableEq ι]

theorem eq_zero_of_eval_eq_zero (x : ι → R) (s : Finset ι)
    (hx : ∀ i ∈ s, ∀ j ∈ s, i ≠ j → IsUnit (x i - x j)) {q : R[X]} (hq : q.natDegree < s.card)
    (h0 : ∀ i ∈ s, q.eval (x i) = 0) : q = 0 := by
  induction s using Finset.induction_on generalizing q with
  | empty => exact absurd hq (Nat.not_lt_zero _)
  | insert i s hi ih =>
    -- `q` vanishes at `x i`, so it is `X - x i` times its quotient, which vanishes at the other nodes
    have hsplit : q = (X - C (x i)) * divDiff (x i) q := by
      conv_lhs => rw [eq_C_add_mul_divDiff (x i) q, h0 i (Finset.mem_insert_self i _), map_zero, zero_add]
    rw [Finset.card_insert_of_notMem hi] at hq
    rcases s.eq_empty_or_nonempty with rfl | hne
    · have hc := eq_C_of_natDegree_eq_zero (Nat.lt_one_iff.mp hq)
      have hv := h0 i (Finset.mem_insert_self i _)
      rw [hc, eval_C] at hv
      rw [hc, hv, map_zero]
    · have hquot : divDiff (x i) q = 0 := by
        apply ih (fun j hj k hk => hx j (Finset.mem_insert_of_mem hj) k (Finset.mem_insert_of_mem hk))
        · rw [natDegree_divDiff]
          have := hne.card_pos
          omega
        · intro j hj
          have hij : j ≠ i := fun h => hi (h ▸ hj)
          have hv := eval_eq_add_mul_divDiff (x i) (x j) q
          rw [h0 j (Finset.mem_insert_of_mem hj), h0 i (Finset.mem_insert_self i _), zero_add] at hv
          exact (hx j (Finset.mem_insert_of_mem hj) i (Finset.mem_insert_self i _) hij).mul_right_eq_zero.mp hv.symm
      rw [hsplit, hquot, mul_zero]

/-! ## Lagrange interpolation -/

/-- The Lagrange basis polynomial of node `i`, with `w i j` the inverse of `x i - x j`. -/
noncomputable def lagrangeBasis (x : ι → R) (w : ι → ι → R) (s : Finset ι) (i : ι) : R[X] :=
  ∏ j ∈ s.erase i, C (w i j) * (X - C (x j))

variable (x : ι → R) (w : ι → ι → R) (s : Finset ι)

theorem natDegree_lagrangeBasis_le {i : ι} (hi : i ∈ s) : (lagrangeBasis x w s i).natDegree ≤ s.card - 1 := by
  have hfactor : ∀ j ∈ s.erase i, (C (w i j) * (X - C (x j))).natDegree ≤ 1 := fun j _ =>
    (natDegree_C_mul_le _ _).trans (natDegree_X_sub_C_le _)
  calc (lagrangeBasis x w s i).natDegree
      ≤ ∑ j ∈ s.erase i, (C (w i j) * (X - C (x j))).natDegree := by
        unfold lagrangeBasis
        exact natDegree_prod_le _ _
    _ ≤ ∑ _j ∈ s.erase i, 1 := by exact Finset.sum_le_sum hfactor
    _ = s.card - 1 := by rw [Finset.sum_const, smul_eq_mul, mul_one, Finset.card_erase_of_mem hi]

section Inverses

variable {x w s} (hw : ∀ i ∈ s, ∀ j ∈ s, i ≠ j → (x i - x j) * w i j = 1)
include hw

theorem eval_lagrangeBasis_self {i : ι} (hi : i ∈ s) : (lagrangeBasis x w s i).eval (x i) = 1 := by
  rw [lagrangeBasis, eval_prod]
  apply Finset.prod_eq_one
  intro j hj
  rw [eval_mul, eval_C, eval_sub, eval_X, eval_C, mul_comm]
  exact hw i hi j (Finset.mem_of_mem_erase hj) (Finset.ne_of_mem_erase hj).symm

omit hw in
theorem eval_lagrangeBasis_of_ne {i k : ι} (hk : k ∈ s) (hki : k ≠ i) : (lagrangeBasis x w s i).eval (x k) = 0 := by
  rw [lagrangeBasis, eval_prod]
  apply Finset.prod_eq_zero (Finset.mem_erase.mpr ⟨hki, hk⟩)
  simp

theorem eq_sum_lagrangeBasis {p : R[X]} (hp : p.natDegree < s.card) :
    p = ∑ i ∈ s, C (p.eval (x i)) * lagrangeBasis x w s i := by
  have hunit : ∀ i ∈ s, ∀ j ∈ s, i ≠ j → IsUnit (x i - x j) := fun i hi j hj hij =>
    IsUnit.of_mul_eq_one _ (hw i hi j hj hij)
  have hsum : (∑ i ∈ s, C (p.eval (x i)) * lagrangeBasis x w s i).natDegree ≤ s.card - 1 :=
    natDegree_sum_le_of_forall_le _ _ fun i hi =>
      (natDegree_C_mul_le _ _).trans (natDegree_lagrangeBasis_le x w s hi)
  have hdeg : (p - ∑ i ∈ s, C (p.eval (x i)) * lagrangeBasis x w s i).natDegree < s.card :=
    (natDegree_sub_le _ _).trans_lt (max_lt hp (by omega))
  have h0 : ∀ k ∈ s, (p - ∑ i ∈ s, C (p.eval (x i)) * lagrangeBasis x w s i).eval (x k) = 0 := by
    intro k hk
    rw [eval_sub, eval_finsetSum, Finset.sum_eq_single k]
    · rw [eval_mul, eval_C, eval_lagrangeBasis_self hw hk, mul_one, sub_self]
    · intro i _ hik
      rw [eval_mul, eval_lagrangeBasis_of_ne hk (Ne.symm hik), mul_zero]
    · intro hk'
      exact absurd hk hk'
  exact sub_eq_zero.mp (eq_zero_of_eval_eq_zero x s hunit hdeg h0)

theorem eval_eq_sum_lagrange {p : R[X]} (hp : p.natDegree < s.card) (t : R) :
    p.eval t = ∑ i ∈ s, p.eval (x i) * ∏ j ∈ s.erase i, w i j * (t - x j) := by
  conv_lhs => rw [eq_sum_lagrangeBasis hw hp]
  simp [eval_finsetSum, lagrangeBasis, eval_prod]

end Inverses

end Unique

end DividedDifference
