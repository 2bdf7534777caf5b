import Mathlib.Logic.Function.Basic
import Mathlib.Data.List.Nodup
import Mathlib.Logic.Function.Iterate

/-! # Merkle trees whose odd levels pair their last node with itself

A Merkle tree built level by level over a list of leaves: each level hashes
neighbouring pairs of the level below, and a level of odd length pairs its
last node with itself. The root is reached after as many levels as it takes
to come down to one node.

With a hash of pairs that is injective and never gives a leaf, the root of a
list without repeated leaves determines the list. The depth at which a value
can stand in a tree is determined by the value, so two equal roots stand at
the same depth; and a level of a list without repeats determines the list
below it.
-/

namespace Merkle

open Function

variable {α : Type} (H : α → α → α)

/-- One level of the tree from the one below. -/
def level : List α → List α
  | [] => []
  | [a] => [H a a]
  | a :: b :: rest => H a b :: level rest

/-- The root above a level, with fuel; `d` for no leaves. -/
def root (d : α) : Nat → List α → α
  | _, [] => d
  | _, [a] => a
  | 0, _ :: _ :: _ => d
  | fuel + 1, l@(_ :: _ :: _) => root d fuel (level H l)

/-- The values that can stand at depth `k` of a tree over leaves of `S`. -/
def Depth (S : α → Prop) : Nat → α → Prop
  | 0, x => S x
  | k + 1, x => ∃ a b, Depth S k a ∧ Depth S k b ∧ x = H a b

variable {H}

@[simp] theorem level_nil : level H [] = [] := rfl

@[simp] theorem length_level (l : List α) : (level H l).length = (l.length + 1) / 2 := by
  fun_induction level H l with
  | case1 => simp
  | case2 => simp
  | case3 a b rest ih =>
    simp only [List.length_cons, ih]
    omega

theorem level_eq_nil_iff {l : List α} : level H l = [] ↔ l = [] := by
  rw [← List.length_eq_zero_iff, length_level, ← List.length_eq_zero_iff]
  omega

theorem mem_level {l : List α} {x : α} (hx : x ∈ level H l) : ∃ a ∈ l, ∃ b ∈ l, x = H a b := by
  fun_induction level H l with
  | case1 => cases hx
  | case2 a => exact ⟨a, List.mem_singleton_self a, a, List.mem_singleton_self a, List.mem_singleton.mp hx⟩
  | case3 a b rest ih =>
    rcases List.mem_cons.mp hx with rfl | hx
    · exact ⟨a, List.mem_cons_self, b, List.mem_cons_of_mem _ List.mem_cons_self, rfl⟩
    · obtain ⟨c, hc, d, hd, rfl⟩ := ih hx
      exact ⟨c, List.mem_cons_of_mem _ (List.mem_cons_of_mem _ hc), d,
        List.mem_cons_of_mem _ (List.mem_cons_of_mem _ hd), rfl⟩

theorem getElem?_level (d : α) (l : List α) {k : Nat} (hk : k < (l.length + 1) / 2) :
    (level H l)[k]? = some (H (l.getD (2 * k) d) (l.getD (min (2 * k + 1) (l.length - 1)) d)) := by
  fun_induction level H l generalizing k with
  | case1 => simp at hk
  | case2 a =>
    obtain rfl : k = 0 := by simp at hk; omega
    rfl
  | case3 a b rest ih =>
    cases k with
    | zero => rfl
    | succ k =>
      simp only [List.length_cons] at hk
      rw [List.getElem?_cons_succ, ih (by omega)]
      have e1 : 2 * (k + 1) = 2 * k + 2 := by omega
      have e2 : min (2 * k + 2 + 1) ((a :: b :: rest).length - 1) =
          min (2 * k + 1) (rest.length - 1) + 2 := by
        simp only [List.length_cons]
        omega
      rw [e1, e2]
      rfl

section Injective

variable (hH : Injective2 H)
include hH

theorem nodup_level {l : List α} (hl : l.Nodup) : (level H l).Nodup := by
  fun_induction level H l with
  | case1 => exact List.nodup_nil
  | case2 a => exact List.nodup_singleton _
  | case3 a b rest ih =>
    have hab := List.nodup_cons.mp hl
    have hb := List.nodup_cons.mp hab.2
    refine List.nodup_cons.mpr ⟨fun hmem => ?_, ih hb.2⟩
    obtain ⟨c, hc, e, -, he⟩ := mem_level hmem
    have hac := (hH he).1
    exact hab.1 (List.mem_cons_of_mem _ (hac ▸ hc))

theorem level_injective {l l' : List α} (hl : l.Nodup) (hl' : l'.Nodup) (h : level H l = level H l') :
    l = l' := by
  fun_induction level H l generalizing l' with
  | case1 => exact (level_eq_nil_iff.mp h.symm).symm
  | case2 a =>
    match l', h with
    | [c], h =>
      have hac := (hH (List.cons.inj h).1).1
      rw [hac]
    | [c, e], h =>
      -- `[c, e]` would hash to `H c e = H a a`, a repeat
      have hce := hH (List.cons.inj h).1
      have hne : c ≠ e := by
        simp only [List.nodup_cons, List.mem_cons, not_or] at hl'
        exact hl'.1.1
      exact absurd (hce.1.symm.trans hce.2) hne
    | c :: e :: f :: rest, h =>
      have hlen := congrArg List.length h
      simp at hlen
      omega
  | case3 a b rest ih =>
    match l', h with
    | [c], h =>
      have habc := hH (List.cons.inj h).1
      have hab : a ≠ b := by
        simp only [List.nodup_cons, List.mem_cons, not_or] at hl
        exact hl.1.1
      exact absurd (habc.1.trans habc.2.symm) hab
    | c :: e :: rest', h =>
      obtain ⟨hhead, htail⟩ := List.cons.inj h
      obtain ⟨rfl, rfl⟩ := hH hhead
      rw [ih (List.nodup_cons.mp (List.nodup_cons.mp hl).2).2
        (List.nodup_cons.mp (List.nodup_cons.mp hl').2).2 htail]

theorem iterate_level_injective {l l' : List α} (hl : l.Nodup) (hl' : l'.Nodup) (k : Nat)
    (h : (level H)^[k] l = (level H)^[k] l') : l = l' := by
  induction k generalizing l l' with
  | zero => exact h
  | succ k ih =>
    rw [iterate_succ_apply, iterate_succ_apply] at h
    exact level_injective hH hl hl' (ih (nodup_level hH hl) (nodup_level hH hl') h)

variable {S : α → Prop} (hS : ∀ a b, ¬ S (H a b))
include hS

theorem depth_unique {k k' : Nat} {x : α} (h : Depth H S k x) (h' : Depth H S k' x) : k = k' := by
  induction k generalizing k' x with
  | zero =>
    cases k' with
    | zero => rfl
    | succ k' =>
      obtain ⟨a, b, -, -, rfl⟩ := h'
      exact absurd h (hS a b)
  | succ k ih =>
    obtain ⟨a, b, ha, -, rfl⟩ := h
    cases k' with
    | zero => exact absurd h' (hS a b)
    | succ k' =>
      obtain ⟨a', b', ha', -, he⟩ := h'
      rw [(hH he).1] at ha
      rw [ih ha ha']

end Injective

theorem depth_iterate_level {S : α → Prop} {l : List α} (hl : ∀ x ∈ l, S x) (k : Nat) :
    ∀ x ∈ (level H)^[k] l, Depth H S k x := by
  induction k with
  | zero => exact hl
  | succ k ih =>
    intro x hx
    rw [iterate_succ_apply'] at hx
    obtain ⟨a, ha, b, hb, rfl⟩ := mem_level hx
    exact ⟨a, b, ih a ha, ih b hb, rfl⟩

theorem exists_iterate_level_eq_root (d : α) (fuel : Nat) {l : List α} (hl : l ≠ [])
    (hfuel : l.length ≤ fuel + 1) : ∃ k, (level H)^[k] l = [root H d fuel l] := by
  induction fuel generalizing l with
  | zero =>
    match l, hl with
    | [a], _ => exact ⟨0, rfl⟩
    | _ :: _ :: _, _ => simp at hfuel
  | succ fuel ih =>
    match l, hl with
    | [a], _ => exact ⟨0, rfl⟩
    | a :: b :: rest, _ =>
      have hne : level H (a :: b :: rest) ≠ [] := by simp [level]
      have hlen : (level H (a :: b :: rest)).length ≤ fuel + 1 := by
        rw [length_level]
        simp only [List.length_cons] at hfuel ⊢
        omega
      obtain ⟨k, hk⟩ := ih hne hlen
      exact ⟨k + 1, by rw [iterate_succ_apply, hk, root]⟩

theorem root_injective (hH : Injective2 H) {S : α → Prop} (hS : ∀ a b, ¬ S (H a b)) (d : α)
    {l l' : List α} (hl : l ≠ []) (hl' : l' ≠ []) (hn : l.Nodup) (hn' : l'.Nodup)
    (hs : ∀ x ∈ l, S x) (hs' : ∀ x ∈ l', S x) {fuel fuel' : Nat} (hfuel : l.length ≤ fuel + 1)
    (hfuel' : l'.length ≤ fuel' + 1) (h : root H d fuel l = root H d fuel' l') : l = l' := by
  obtain ⟨k, hk⟩ := exists_iterate_level_eq_root d fuel hl hfuel
  obtain ⟨k', hk'⟩ := exists_iterate_level_eq_root d fuel' hl' hfuel'
  have hd := depth_iterate_level hs k (root H d fuel l) (by rw [hk]; exact List.mem_singleton_self _)
  have hd' := depth_iterate_level hs' k' (root H d fuel' l') (by rw [hk']; exact List.mem_singleton_self _)
  rw [← h] at hd'
  obtain rfl := depth_unique hH hS hd hd'
  exact iterate_level_injective hH hn hn' k (by rw [hk, hk', h])

end Merkle
