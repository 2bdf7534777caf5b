import Mathlib.Data.List.Perm.Subperm
import Mathlib.Data.List.MinMax
import Mathlib.Algebra.Order.BigOperators.Group.List

/-! # Multimaps kept as sorted lists

A `std::multimap` as the list of its entries in key order: `insert` places an
entry after those whose key is not above its own, `begin()` is the head, and
`lower_bound(k)` is the first entry whose key is not below `k`.

Keeping the largest entries of a stream by inserting each and erasing
`begin()` while too many remain leaves entries that none of the erased ones
exceeds. Any as many entries of the whole stream then weigh at most what the
kept ones weigh (`sum_le_of_subperm_append`).
-/

namespace Multimap

variable {α β : Type} [LinearOrder β] (key : α → β)

/-- `insert(a)`: before the first entry of a larger key. -/
def insert (a : α) : List α → List α
  | [] => [a]
  | b :: l => if key a < key b then a :: b :: l else b :: insert a l

/-- `lower_bound(k)`: the index of the first entry whose key is not below `k`,
the length when there is none. -/
def lowerBound (k : β) : List α → Nat
  | [] => 0
  | a :: l => if k ≤ key a then 0 else lowerBound k l + 1

/-- The entries in key order. -/
def Sorted (l : List α) : Prop := l.Pairwise fun a b => key a ≤ key b

variable {key}

theorem perm_insert (a : α) (l : List α) : (insert key a l).Perm (a :: l) := by
  induction l with
  | nil => rfl
  | cons b l ih =>
    unfold insert
    split
    · rfl
    · exact (ih.cons b).trans (List.Perm.swap a b l)

theorem mem_insert {a c : α} {l : List α} : c ∈ insert key a l ↔ c = a ∨ c ∈ l := by
  rw [(perm_insert a l).mem_iff, List.mem_cons]

theorem length_insert (a : α) (l : List α) : (insert key a l).length = l.length + 1 :=
  (perm_insert a l).length_eq

theorem sorted_insert {a : α} {l : List α} (h : Sorted key l) : Sorted key (insert key a l) := by
  induction l with
  | nil => exact List.pairwise_singleton _ a
  | cons b l ih =>
    obtain ⟨hb, hl⟩ := List.pairwise_cons.mp h
    unfold insert
    split
    · rename_i hab
      refine List.pairwise_cons.mpr ⟨?_, h⟩
      intro c hc
      rcases List.mem_cons.mp hc with rfl | hc
      · exact hab.le
      · exact hab.le.trans (hb c hc)
    · rename_i hab
      refine List.pairwise_cons.mpr ⟨?_, ih hl⟩
      intro c hc
      rcases mem_insert.mp hc with rfl | hc
      · exact not_lt.mp hab
      · exact hb c hc

theorem insert_of_forall_lt {a : α} {l : List α} (h : ∀ b ∈ l, key a < key b) :
    insert key a l = a :: l := by
  cases l with
  | nil => rfl
  | cons b l => exact if_pos (h b List.mem_cons_self)

theorem insert_of_forall_le {a : α} {l : List α} (h : ∀ b ∈ l, key b ≤ key a) :
    insert key a l = l ++ [a] := by
  induction l with
  | nil => rfl
  | cons b l ih =>
    rw [insert, if_neg (not_lt_of_ge (h b List.mem_cons_self)), ih fun c hc => h c (List.mem_cons_of_mem b hc),
      List.cons_append]

theorem foldl_insert_of_sorted {pre l : List α} (h : Sorted key (pre ++ l)) :
    l.foldl (fun t a => insert key a t) pre = pre ++ l := by
  induction l generalizing pre with
  | nil => simp
  | cons a l ih =>
    have hle : ∀ b ∈ pre, key b ≤ key a := fun b hb =>
      (List.pairwise_append.mp h).2.2 b hb a List.mem_cons_self
    rw [List.foldl_cons, insert_of_forall_le hle, ih (by rwa [List.append_assoc, List.singleton_append]),
      List.append_assoc, List.singleton_append]

theorem lowerBound_le_length (k : β) (l : List α) : lowerBound key k l ≤ l.length := by
  induction l with
  | nil => exact le_refl 0
  | cons a l ih =>
    unfold lowerBound
    split
    · exact Nat.zero_le _
    · simpa using ih

/-! ## Keeping the largest entries -/

theorem exists_min {γ : Type} [LinearOrder γ] {f : α → γ} {l : List α} (hl : l ≠ []) :
    ∃ m ∈ l, ∀ y ∈ l, f m ≤ f y := by
  have hnone : List.argmin f l ≠ none := mt (List.argmin_eq_none : List.argmin f l = none ↔ l = []).mp hl
  obtain ⟨m, hm⟩ := Option.ne_none_iff_exists'.mp hnone
  exact ⟨m, List.argmin_mem hm, fun y hy => List.le_of_mem_argmin hy hm⟩

section Largest

variable {γ : Type} [AddCommMonoid γ] [LinearOrder γ] [IsOrderedAddMonoid γ] [DecidableEq α] {f : α → γ}

/-- Entries of non-negative weight, kept against dropped ones of no more
weight each: any entries of both, no more of them than are kept, weigh at
most the kept ones. A dropped entry in the selection is exchanged for a
smallest kept one, which it does not outweigh. -/
theorem sum_le_of_subperm_append {kept dropped s : List α} (hkept : ∀ y ∈ kept, 0 ≤ f y)
    (hdropped : ∀ x ∈ dropped, ∀ y ∈ kept, f x ≤ f y) (hs : s.Subperm (kept ++ dropped))
    (hlen : s.length ≤ kept.length) : (s.map f).sum ≤ (kept.map f).sum := by
  induction s generalizing kept dropped with
  | nil =>
    rw [List.map_nil, List.sum_nil]
    exact List.sum_nonneg fun y hy => by
      obtain ⟨y', hy', rfl⟩ := List.mem_map.mp hy
      exact hkept y' hy'
  | cons x s ih =>
    rw [List.length_cons] at hlen
    by_cases hx : x ∈ kept
    · have hperm : (kept ++ dropped).Perm (x :: (kept.erase x ++ dropped)) := by
        rw [← List.erase_append_left dropped hx]
        exact List.perm_cons_erase (List.mem_append_left dropped hx)
      have hs' : s.Subperm (kept.erase x ++ dropped) := (List.subperm_cons x).mp (hs.trans hperm.subperm)
      have hlen' : s.length ≤ (kept.erase x).length := by
        rw [List.length_erase_of_mem hx]
        omega
      have hsum := ih (fun y hy => hkept y (List.mem_of_mem_erase hy))
        (fun x' hx' y hy => hdropped x' hx' y (List.mem_of_mem_erase hy)) hs' hlen'
      calc ((x :: s).map f).sum = f x + (s.map f).sum := by rw [List.map_cons, List.sum_cons]
        _ ≤ f x + ((kept.erase x).map f).sum := add_le_add le_rfl hsum
        _ = (kept.map f).sum := List.sum_map_erase f hx
    · have hxd : x ∈ dropped := by
        rcases List.mem_append.mp (hs.subset List.mem_cons_self) with h | h
        · exact absurd h hx
        · exact h
      have hne : kept ≠ [] := by
        rintro rfl
        simp at hlen
      obtain ⟨m, hm, hmin⟩ := exists_min (f := f) hne
      have hperm : (kept ++ dropped).Perm (x :: (kept.erase m ++ (m :: dropped.erase x))) := by
        have hxs := List.perm_cons_erase (List.mem_append_right kept hxd)
        rw [List.erase_append_right dropped hx] at hxs
        exact hxs.trans ((((List.perm_cons_erase hm).append_right _).trans List.perm_middle.symm).cons x)
      have hs' : s.Subperm (kept.erase m ++ (m :: dropped.erase x)) :=
        (List.subperm_cons x).mp (hs.trans hperm.subperm)
      have hlen' : s.length ≤ (kept.erase m).length := by
        rw [List.length_erase_of_mem hm]
        omega
      have hsum := ih (fun y hy => hkept y (List.mem_of_mem_erase hy)) (by
          intro x' hx' y hy
          rcases List.mem_cons.mp hx' with rfl | hx'
          · exact hmin y (List.mem_of_mem_erase hy)
          · exact hdropped x' (List.mem_of_mem_erase hx') y (List.mem_of_mem_erase hy)) hs' hlen'
      calc ((x :: s).map f).sum = f x + (s.map f).sum := by rw [List.map_cons, List.sum_cons]
        _ ≤ f m + ((kept.erase m).map f).sum := add_le_add (hdropped x hxd m hm) hsum
        _ = (kept.map f).sum := List.sum_map_erase f hm

end Largest

end Multimap
