import Multiverse.Mpvss.SecretShare
import Multiverse.Lib.DividedDifference
import Mathlib.Data.List.GetD

/-! # Interpolation at zero

`MPNewton` and `MPLagrange` of `mpvss/mpinterpolation.cpp` both compute, from
shares `(x, y)`, the value at 0 of the polynomial through them: `MPNewton`
from the table of divided differences, row by row, `MPLagrange` from
Lagrange's formula. Each takes the inverse of a difference of two indices
from the table `SCInverse`, which has the inverses of `-50, ..., 50`.

For shares of a polynomial `f` of degree below their number, at distinct
indices in `1, ..., 50`, both return `f(0)`. The rows `MPNewton` builds are
rows of the table of divided differences of `f` (`newtonRow_ddRow`), and the
sum it accumulates is Newton's expansion of `f` at 0.
-/

open Polynomial DividedDifference

namespace Multiverse.Mpvss

/-- `MPLagrange`'s factor for share `i`: the product over the other shares
`j` of `SCInverse[x_j - x_i] * x_j`. -/
def lagrangeCoeff (vShare : List (Nat × SC25519)) (i : Nat) : SC25519 :=
  (List.range vShare.length).foldl (fun l j =>
    if i ≠ j then
      l * (scInverse (((vShare.getD j (0, 0)).1 : Int) - (vShare.getD i (0, 0)).1) *
        ((vShare.getD j (0, 0)).1 : SC25519))
    else l) 1

/-- `MPLagrange(vShare)`: the sum of each share's value times its factor. -/
def mpLagrange (vShare : List (Nat × SC25519)) : SC25519 :=
  (List.range vShare.length).foldl (fun s0 i => s0 + lagrangeCoeff vShare i * (vShare.getD i (0, 0)).2) 0

theorem sub_mul_scInverse {x z : Nat} (hx : 1 ≤ x ∧ x ≤ 50) (hz : 1 ≤ z ∧ z ≤ 50) (hxz : x ≠ z) :
    ((x : SC25519) - z) * scInverse ((x : Int) - z) = 1 := by
  have h := scInverse_mul (d := (x : Int) - z) (by omega) (by omega) (by omega)
  push_cast at h
  exact h

/-! ## Newton's divided differences -/

variable (f : SC25519[X])

/-- The row `vDiff` of the table of divided differences of `f` after the
shares with indices `xsRev`, the latest first. -/
noncomputable def tableRow : List Nat → List SC25519
  | [] => []
  | y :: xsRev => ddRow (y : SC25519) f (xsRev.map (↑))

/-- After the shares with indices `xsRev`, `MPNewton` holds the row of the
latest index, and its sum and basis leave the divided difference of `f` over
all the indices so far to be added at 0. -/
def NewtonInv (st : NewtonState) : Prop :=
  st.vDiff = tableRow f st.xsRev ∧ f.eval 0 = st.s0 + st.basis * (divDiffs (st.xsRev.map (↑)) f).eval 0

variable {f}

theorem newtonRow_ddRow_tail (x y : Nat) (zs : List Nat)
    (hinv : ∀ z ∈ zs, ((x : SC25519) - z) * scInverse ((x : Int) - z) = 1) (V : SC25519[X]) (d : SC25519)
    (hd : d = (divDiff (y : SC25519) V).eval (x : SC25519)) :
    newtonRow x d (ddRow (y : SC25519) V (zs.map (↑))).tail zs = ddRow (x : SC25519) (divDiff (y : SC25519) V) (zs.map (↑)) := by
  induction zs generalizing V d with
  | nil =>
    subst hd
    rfl
  | cons z zs ih =>
    have hz := hinv z List.mem_cons_self
    have hnext : (d - (divDiff (z : SC25519) V).eval (y : SC25519)) * scInverse ((x : Int) - z) =
        (divDiff (y : SC25519) (divDiff (z : SC25519) V)).eval (x : SC25519) := by
      rw [hd, eval_divDiff_sub_eval_divDiff, divDiff_comm (y : SC25519) (z : SC25519) V]
      linear_combination (divDiff (z : SC25519) (divDiff (y : SC25519) V)).eval (x : SC25519) * hz
    have htail := ih (fun z' hz' => hinv z' (List.mem_cons_of_mem z hz')) (divDiff (z : SC25519) V) _ hnext
    rw [List.map_cons, ddRow, List.tail_cons, ddRow_eq_cons, newtonRow, htail, divDiff_comm, hd, ddRow]

/-- The row `MPNewton` builds for a share of `f` is the next row of the table. -/
theorem newtonRow_ddRow (x : Nat) (xsRev : List Nat)
    (hinv : ∀ z ∈ xsRev, ((x : SC25519) - z) * scInverse ((x : Int) - z) = 1) :
    newtonRow x (f.eval (x : SC25519)) (tableRow f xsRev) xsRev = ddRow (x : SC25519) f (xsRev.map (↑)) := by
  cases xsRev with
  | nil => rfl
  | cons y xsRev =>
    have hy := hinv y List.mem_cons_self
    have hfirst : (f.eval (x : SC25519) - f.eval (y : SC25519)) * scInverse ((x : Int) - y) =
        (divDiff (y : SC25519) f).eval (x : SC25519) := by
      rw [eval_eq_add_mul_divDiff (y : SC25519) (x : SC25519) f]
      linear_combination (divDiff (y : SC25519) f).eval (x : SC25519) * hy
    have htail := newtonRow_ddRow_tail x y xsRev (fun z hz => hinv z (List.mem_cons_of_mem y hz)) f _ hfirst
    rw [tableRow, ddRow_eq_cons, newtonRow, htail, List.map_cons, ddRow]

theorem newtonStep_inv {st : NewtonState} (h : NewtonInv f st) (share : Nat × SC25519)
    (hy : share.2 = f.eval (share.1 : SC25519))
    (hinv : ∀ z ∈ st.xsRev, ((share.1 : SC25519) - z) * scInverse ((share.1 : Int) - z) = 1) :
    NewtonInv f (newtonStep st share) := by
  obtain ⟨hrow, hval⟩ := h
  have hnew : newtonRow share.1 share.2 st.vDiff st.xsRev = ddRow (share.1 : SC25519) f (st.xsRev.map (↑)) := by
    rw [hrow, hy, newtonRow_ddRow share.1 st.xsRev hinv]
  refine ⟨hnew, ?_⟩
  have hexp := eval_eq_add_mul_divDiff (share.1 : SC25519) 0 (divDiffs (st.xsRev.map (↑)) f)
  simp only [newtonStep, hnew, getLast!_ddRow, List.map_cons, divDiffs_cons_eq_divDiff]
  linear_combination hval + st.basis * hexp

theorem xsRev_foldl_newtonStep (vShare : List (Nat × SC25519)) (st : NewtonState) :
    (vShare.foldl newtonStep st).xsRev = (vShare.map Prod.fst).reverse ++ st.xsRev := by
  induction vShare generalizing st with
  | nil => rfl
  | cons share vShare ih =>
    rw [List.foldl_cons, ih]
    simp [newtonStep]

theorem foldl_newtonStep_inv (vShare : List (Nat × SC25519)) {st : NewtonState} (h : NewtonInv f st)
    (hy : ∀ s ∈ vShare, s.2 = f.eval (s.1 : SC25519))
    (hx : ∀ x ∈ vShare.map Prod.fst ++ st.xsRev, 1 ≤ x ∧ x ≤ 50)
    (hnodup : (vShare.map Prod.fst ++ st.xsRev).Nodup) : NewtonInv f (vShare.foldl newtonStep st) := by
  induction vShare generalizing st with
  | nil => exact h
  | cons share vShare ih =>
    simp only [List.map_cons, List.cons_append, List.nodup_cons, List.mem_cons, forall_eq_or_imp] at hx hnodup
    have hinv : ∀ z ∈ st.xsRev, ((share.1 : SC25519) - z) * scInverse ((share.1 : Int) - z) = 1 := by
      intro z hz
      exact sub_mul_scInverse hx.1 (hx.2 z (List.mem_append_right _ hz))
        (fun he => hnodup.1 (he ▸ List.mem_append_right _ hz))
    have hstep := newtonStep_inv h share (hy share List.mem_cons_self) hinv
    apply ih hstep (fun s hs => hy s (List.mem_cons_of_mem share hs))
    · intro z hz
      rw [show (newtonStep st share).xsRev = share.1 :: st.xsRev from rfl, List.mem_append, List.mem_cons] at hz
      rcases hz with hz | rfl | hz
      · exact hx.2 z (List.mem_append_left _ hz)
      · exact hx.1
      · exact hx.2 z (List.mem_append_right _ hz)
    · exact List.perm_middle.nodup_iff.mpr (List.nodup_cons.mpr hnodup)

/-! ## Lagrange's formula -/

theorem foldl_range_add {M : Type*} [AddCommMonoid M] (g : ℕ → M) (n : ℕ) (a : M) :
    (List.range n).foldl (fun s i => s + g i) a = a + ∑ i ∈ Finset.range n, g i := by
  induction n generalizing a with
  | zero => simp
  | succ n ih =>
    rw [List.range_succ, List.foldl_append, ih, Finset.sum_range_succ]
    simp [add_assoc]

theorem foldl_range_mul_ite {M : Type*} [CommMonoid M] (g : ℕ → M) (n i : ℕ) (a : M) :
    (List.range n).foldl (fun l j => if i ≠ j then l * g j else l) a = a * ∏ j ∈ (Finset.range n).erase i, g j := by
  induction n generalizing a with
  | zero => simp
  | succ n ih =>
    rw [List.range_succ, List.foldl_append, ih, List.foldl_cons, List.foldl_nil, Finset.range_add_one]
    by_cases hin : i = n
    · subst hin
      rw [if_neg (not_not.mpr rfl), Finset.erase_insert Finset.notMem_range_self,
        Finset.erase_eq_of_notMem Finset.notMem_range_self]
    · rw [if_pos hin, Finset.erase_insert_of_ne (Ne.symm hin),
        Finset.prod_insert (fun h => Finset.notMem_range_self (Finset.mem_of_mem_erase h)), mul_assoc, mul_comm (g n)]

theorem mpLagrange_eq_sum (vShare : List (Nat × SC25519)) :
    mpLagrange vShare = ∑ i ∈ Finset.range vShare.length,
      (∏ j ∈ (Finset.range vShare.length).erase i,
        scInverse (((vShare.getD j (0, 0)).1 : Int) - (vShare.getD i (0, 0)).1) * ((vShare.getD j (0, 0)).1 : SC25519)) *
        (vShare.getD i (0, 0)).2 := by
  simp only [mpLagrange, lagrangeCoeff, foldl_range_mul_ite, foldl_range_add, zero_add, one_mul]

/-! ## Both interpolators return `f(0)` -/

/-- For shares of a polynomial `f` of degree below their number, at distinct
indices in `1, ..., 50`, `MPNewton` and `MPLagrange` both return `f(0)`. -/
theorem mpNewton_mpLagrange_eq_eval_zero (vShare : List (Nat × SC25519)) (f : SC25519[X])
    (hx : ∀ s ∈ vShare, 1 ≤ s.1 ∧ s.1 ≤ 50) (hnodup : (vShare.map Prod.fst).Nodup)
    (hy : ∀ s ∈ vShare, s.2 = f.eval (s.1 : SC25519)) (hdeg : f.natDegree < vShare.length) :
    mpNewton vShare = f.eval 0 ∧ mpLagrange vShare = f.eval 0 := by
  constructor
  · -- Newton: the divided difference over all the indices is zero
    have hinit : NewtonInv f ⟨[], [], 1, 0⟩ := ⟨rfl, by simp⟩
    have hrun := foldl_newtonStep_inv vShare hinit hy (by simpa using hx) (by simpa using hnodup)
    have hzero : divDiffs ((vShare.foldl newtonStep ⟨[], [], 1, 0⟩).xsRev.map (↑)) f = 0 := by
      apply divDiffs_eq_zero
      rw [xsRev_foldl_newtonStep]
      simpa using hdeg
    obtain ⟨-, hval⟩ := hrun
    rw [hzero, eval_zero, mul_zero, add_zero] at hval
    exact hval.symm
  · -- Lagrange, with `-SCInverse[x_j - x_i]` the inverse of `x_i - x_j`
    set x : ℕ → SC25519 := fun i => ((vShare.getD i (0, 0)).1 : SC25519)
    have hmem : ∀ i ∈ Finset.range vShare.length, vShare.getD i (0, 0) ∈ vShare := fun i hi => by
      rw [List.getD_eq_getElem _ _ (Finset.mem_range.mp hi)]
      exact List.getElem_mem _
    have hne : ∀ i ∈ Finset.range vShare.length, ∀ j ∈ Finset.range vShare.length, i ≠ j →
        (vShare.getD i (0, 0)).1 ≠ (vShare.getD j (0, 0)).1 := by
      intro i hi j hj hij he
      rw [Finset.mem_range] at hi hj
      rw [List.getD_eq_getElem _ _ hi, List.getD_eq_getElem _ _ hj] at he
      have hi' : i < (vShare.map Prod.fst).length := by simpa using hi
      have hj' : j < (vShare.map Prod.fst).length := by simpa using hj
      have he' : (vShare.map Prod.fst)[i] = (vShare.map Prod.fst)[j] := by
        simpa using he
      exact hij ((hnodup.getElem_inj_iff).mp he')
    have hw : ∀ i ∈ Finset.range vShare.length, ∀ j ∈ Finset.range vShare.length, i ≠ j →
        (x i - x j) * -scInverse (((vShare.getD j (0, 0)).1 : Int) - (vShare.getD i (0, 0)).1) = 1 := by
      intro i hi j hj hij
      have h := sub_mul_scInverse (hx _ (hmem j hj)) (hx _ (hmem i hi)) (hne j hj i hi (Ne.symm hij))
      linear_combination h
    rw [mpLagrange_eq_sum, eval_eq_sum_lagrange hw (by simpa using hdeg) 0]
    apply Finset.sum_congr rfl
    intro i hi
    rw [hy _ (hmem i hi), mul_comm]
    congr 1
    apply Finset.prod_congr rfl
    intro j _
    ring

theorem mpNewton_mpLagrange_eq_eval_zero_of_constant :
    (∀ s ∈ [((1 : Nat), (5 : SC25519))], 1 ≤ s.1 ∧ s.1 ≤ 50) ∧ ([((1 : Nat), (5 : SC25519))].map Prod.fst).Nodup ∧
      (∀ s ∈ [((1 : Nat), (5 : SC25519))], s.2 = (C 5 : SC25519[X]).eval (s.1 : SC25519)) ∧
      (C 5 : SC25519[X]).natDegree < [((1 : Nat), (5 : SC25519))].length ∧
      mpNewton [(1, 5)] = (C 5 : SC25519[X]).eval 0 ∧ mpLagrange [(1, 5)] = (C 5 : SC25519[X]).eval 0 := by
  have hx : ∀ s ∈ [((1 : Nat), (5 : SC25519))], 1 ≤ s.1 ∧ s.1 ≤ 50 := by simp
  have hnodup : ([((1 : Nat), (5 : SC25519))].map Prod.fst).Nodup := by simp
  have hy : ∀ s ∈ [((1 : Nat), (5 : SC25519))], s.2 = (C 5 : SC25519[X]).eval (s.1 : SC25519) := by simp
  have hdeg : (C 5 : SC25519[X]).natDegree < [((1 : Nat), (5 : SC25519))].length := by simp
  exact ⟨hx, hnodup, hy, hdeg, mpNewton_mpLagrange_eq_eval_zero [(1, 5)] (C 5) hx hnodup hy hdeg⟩

end Multiverse.Mpvss
