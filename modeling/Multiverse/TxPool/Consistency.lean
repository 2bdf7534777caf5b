import Multiverse.TxPool.Invalidate
import Multiverse.TxPool.Pool

/-! # Runs of the pool views, and `Pop`

A view is built from the empty one by `AddNew` of transactions that fit it,
by `Remove` and by `InvalidateSpent`. Each of them keeps the view consistent
(`Consistent`), so every view so built is (`consistent_of_reachable`).

`Pop(txid)` is `Remove(txid)` followed by `InvalidateSpent` of the two
outputs of `txid`. The two searches one after the other reach what one search
from both outputs reaches (`Search.reached_append_iff`), and `Remove` only
takes `txid` out of the spend graph, so on a consistent view `Pop` drops from
the fork's view exactly `txid` and the pooled transactions that depend on it
(`pop_removes_descendants`).
-/

namespace Multiverse.TxPool

namespace CTxPoolView

/-- What must hold for `AddNew(txid, tx)` to keep a view consistent: a fresh
nonzero txid; inputs unspent in the view, none an output of `tx` itself, and
one of a pooled transaction among its two outputs; and no pooled transaction
spending an output of `tx` yet. -/
structure AddNewReady (v : CTxPoolView) (txid : Nat) (tx : CPooledTx) : Prop where
  txid_ne : txid ≠ 0
  fresh : v.get txid = none
  inputs : ∀ txin ∈ tx.tx.vInput, v.getSpent txin.prevout = none ∧ txin.prevout.hash ≠ txid ∧
    ((v.get txin.prevout.hash).isSome → txin.prevout.n < 2)
  no_spender : ∀ e ∈ v.mapTx.entries, ∀ txin ∈ e.2.tx.vInput, txin.prevout.hash ≠ txid

/-- The views built from the empty view by the view operations of the pool. -/
inductive Reachable : CTxPoolView → Prop
  | empty : Reachable CTxPoolView.empty
  | addNew {v : CTxPoolView} {txid : Nat} {tx : CPooledTx} :
      Reachable v → AddNewReady v txid tx → Reachable (v.addNew txid tx)
  | remove {v : CTxPoolView} (txid : Nat) : Reachable v → Reachable (v.remove txid)
  | invalidateSpent {v : CTxPoolView} (out : CTxOutPoint) (vInvolvedTx : List Nat) :
      Reachable v → Reachable (v.invalidateSpent out vInvolvedTx).1

/-- Every view the operations build is consistent: each spent outpoint is
spent by a pooled transaction that has it among its inputs, each input of a
pooled transaction is marked spent by it, and only the outputs `0` and `1`
of a pooled transaction are ever marked spent. -/
theorem consistent_of_reachable {v : CTxPoolView} (h : Reachable v) : v.Consistent := by
  induction h with
  | empty => exact consistent_empty
  | addNew _ hready ih =>
    exact ih.addNew _ hready.txid_ne hready.fresh hready.inputs hready.no_spender
  | remove txid _ ih => exact ih.remove txid
  | invalidateSpent out vInvolvedTx _ ih => exact ih.invalidateSpent out vInvolvedTx

/-- Two chained transactions added to the empty view, then the outpoint the
first one spends invalidated: the view left is consistent. -/
theorem consistent_of_spend_chain :
    let dest : CDestination := CDestination.ofPubKey 1
    let pA : CPooledTx := ⟨⟨⟨1, CTransaction.TX_TOKEN, 1, 0, 1, [⟨⟨100, 0⟩⟩], dest, 80, 10, [], [1]⟩, dest, 90, -1⟩, 1, 0⟩
    let pB : CPooledTx := ⟨⟨⟨1, CTransaction.TX_TOKEN, 1, 0, 1, [⟨⟨1, 0⟩⟩], dest, 70, 10, [], [1]⟩, dest, 80, -1⟩, 2, 0⟩
    let v := (((CTxPoolView.empty.addNew 1 pA).addNew 2 pB).invalidateSpent ⟨100, 0⟩ []).1
    Reachable v ∧ v.Consistent := by
  intro dest pA pB v
  have hA : Reachable (CTxPoolView.empty.addNew 1 pA) :=
    .addNew .empty ⟨by decide, by decide, by decide, by decide⟩
  have hB : Reachable ((CTxPoolView.empty.addNew 1 pA).addNew 2 pB) :=
    .addNew hA ⟨by decide, by decide, by decide, by decide⟩
  have hv : Reachable v := .invalidateSpent ⟨100, 0⟩ [] hB
  exact ⟨hv, consistent_of_reachable hv⟩

/-! ## `Pop` on a view -/

section Pop

variable {v : CTxPoolView} (hv : v.Consistent) (txid : Nat)
include hv

theorem Consistent.ne_of_reached_remove {q : List CTxOutPoint} {t : Nat}
    (h : Search.Reached (v.remove txid).getSpent outPoints q t) : t ≠ txid := by
  obtain ⟨o, ho⟩ := h.exists_next
  rw [hv.getSpent_remove, Option.filter_eq_some_iff] at ho
  exact of_decide_eq_true ho.2

open Classical in
theorem Consistent.pop_view :
    let r₁ := (v.remove txid).invalidateSpent ⟨txid, 0⟩ []
    let r₂ := r₁.1.invalidateSpent ⟨txid, 1⟩ r₁.2
    r₂.1.Consistent ∧
      (∀ t, r₂.1.get t = if Relation.ReflTransGen (Search.Edge v.getSpent outPoints) txid t then none else v.get t) ∧
      ∀ t, t ∈ r₂.2 ↔ t ≠ txid ∧ Relation.ReflTransGen (Search.Edge v.getSpent outPoints) txid t := by
  intro r₁ r₂
  have hv₀ := hv.remove txid
  obtain ⟨hL₁, hrel₁⟩ := hv₀.released_invalidateSpent ⟨txid, 0⟩ []
  have hv₁ := hrel₁.consistent hv₀
  obtain ⟨hL₂, hrel₂⟩ := hv₁.released_invalidateSpent ⟨txid, 1⟩ r₁.2
  set R₁ := Search.bfs (v.remove txid).getSpent outPoints (2 * (v.remove txid).count + 1) [⟨txid, 0⟩] []
  set R₂ := Search.bfs r₁.1.getSpent outPoints (2 * r₁.1.count + 1) [⟨txid, 1⟩] []
  have hE₀ : (v.remove txid).getSpent = fun o => (v.getSpent o).filter fun s => decide (s ≠ txid) :=
    funext (hv.getSpent_remove txid)
  have hE₁ : r₁.1.getSpent = fun o => ((v.remove txid).getSpent o).filter fun s => decide (s ∉ R₁) :=
    funext hrel₁.getSpent
  have hreach : ∀ t, Relation.ReflTransGen (Search.Edge v.getSpent outPoints) txid t ↔
      t = txid ∨ t ∈ R₁ ∨ t ∈ R₂ := by
    intro t
    rw [Search.reflTransGen_edge_iff, ← hE₀, show outPoints txid = [⟨txid, 0⟩] ++ [⟨txid, 1⟩] from rfl,
      Search.reached_append_iff (hv₀.mem_bfs_iff_reached ⟨txid, 0⟩), ← hE₁, hv₁.mem_bfs_iff_reached]
  have hR₁ : ∀ t ∈ R₁, t ≠ txid := fun t ht =>
    hv.ne_of_reached_remove txid ((hv₀.mem_bfs_iff_reached _ t).mp ht)
  have hR₂ : ∀ t ∈ R₂, t ≠ txid := by
    intro t ht
    obtain ⟨o, ho⟩ := ((hv₁.mem_bfs_iff_reached _ t).mp ht).exists_next
    rw [hE₁, Option.filter_eq_some_iff] at ho
    exact hv.ne_of_reached_remove txid ⟨o, List.mem_singleton_self o, t, ho.1, .refl⟩
  refine ⟨hrel₂.consistent hv₁, fun t => ?_, fun t => ?_⟩
  · rw [hrel₂.get_eq, hrel₁.get_eq, get_remove]
    by_cases h : Relation.ReflTransGen (Search.Edge v.getSpent outPoints) txid t
    · rw [if_pos h]
      rcases (hreach t).mp h with h | h | h <;> simp [h]
    · rw [if_neg h]
      simp only [hreach, not_or] at h
      simp [h.1, h.2.1, h.2.2]
  · rw [hL₂, hL₁, List.nil_append, List.mem_append, hreach]
    constructor
    · intro h
      exact ⟨h.elim (hR₁ t) (hR₂ t), .inr h⟩
    · rintro ⟨hne, h | h⟩
      · exact absurd h hne
      · exact h

end Pop

end CTxPoolView

namespace CTxPool

open CTxPoolView

theorem pop_eq (worldLine : IWorldLine) {pool : CTxPool} {txid : Nat} {tx : CPooledTx} {hashFork nHeight : Nat}
    (hfind : pool.mapTx.find txid = some tx)
    (hloc : worldLine.getBlockLocation tx.tx.hashAnchor = some (hashFork, nHeight)) :
    let r₁ := ((pool.viewOf hashFork).remove txid).invalidateSpent ⟨txid, 0⟩ []
    let r₂ := r₁.1.invalidateSpent ⟨txid, 1⟩ r₁.2
    pool.pop worldLine txid =
      { pool with mapPoolView := pool.mapPoolView.insert hashFork r₂.1, mapTx := r₂.2.foldl SortedMap.erase pool.mapTx } := by
  simp only [pop, hfind, hloc]

open Classical in
/-- `Pop(txid)`, on a fork whose view is consistent, drops from that view
exactly the transactions reached from `txid` through spent outputs (`txid`,
its spenders, theirs, and so on) and keeps it consistent; it erases from the
pool's map those of them other than `txid`, and leaves the views of the other
forks alone. -/
theorem pop_removes_descendants (worldLine : IWorldLine) (pool : CTxPool) (txid : Nat) (tx : CPooledTx)
    (hashFork nHeight : Nat) (hfind : pool.mapTx.find txid = some tx)
    (hloc : worldLine.getBlockLocation tx.tx.hashAnchor = some (hashFork, nHeight))
    (hv : (pool.viewOf hashFork).Consistent) :
    let v : CTxPoolView := pool.viewOf hashFork
    let pool' := pool.pop worldLine txid
    (pool'.viewOf hashFork).Consistent ∧
      (∀ t, (pool'.viewOf hashFork).get t =
        if Relation.ReflTransGen (Search.Edge v.getSpent outPoints) txid t then none else v.get t) ∧
      (∀ t, pool'.mapTx.find t =
        if t ≠ txid ∧ Relation.ReflTransGen (Search.Edge v.getSpent outPoints) txid t then none
        else pool.mapTx.find t) ∧
      ∀ f, f ≠ hashFork → pool'.viewOf f = pool.viewOf f := by
  intro v pool'
  obtain ⟨hcons, hget, hmem⟩ := hv.pop_view txid
  have hview : pool'.viewOf hashFork =
      (((v.remove txid).invalidateSpent ⟨txid, 0⟩ []).1.invalidateSpent ⟨txid, 1⟩
        ((v.remove txid).invalidateSpent ⟨txid, 0⟩ []).2).1 := by
    simp [pool', pop_eq worldLine hfind hloc, viewOf, v]
  refine ⟨hview ▸ hcons, fun t => hview ▸ hget t, fun t => ?_, fun f hf => ?_⟩
  · rw [show pool'.mapTx = _ from congrArg CTxPool.mapTx (pop_eq worldLine hfind hloc),
      SortedMap.find_foldl_erase]
    by_cases h : t ≠ txid ∧ Relation.ReflTransGen (Search.Edge v.getSpent outPoints) txid t
    · rw [if_pos ((hmem t).mpr h), if_pos h]
    · rw [if_neg (fun h' => h ((hmem t).mp h')), if_neg h]
  · simp [pool', pop_eq worldLine hfind hloc, viewOf, hf]

/-- A pool with a transaction and its spender on fork `5`: popping the first
drops both from the view and the spender from the pool's map, while the map
keeps the first. -/
theorem pop_removes_descendants_of_spend_chain :
    let dest : CDestination := CDestination.ofPubKey 1
    let pA : CPooledTx := ⟨⟨⟨1, CTransaction.TX_TOKEN, 1, 0, 1, [⟨⟨100, 0⟩⟩], dest, 80, 10, [], [1]⟩, dest, 90, -1⟩, 1, 0⟩
    let pB : CPooledTx := ⟨⟨⟨1, CTransaction.TX_TOKEN, 1, 0, 1, [⟨⟨1, 0⟩⟩], dest, 70, 10, [], [1]⟩, dest, 80, -1⟩, 2, 0⟩
    let pool : CTxPool := ⟨SortedMap.empty.insert 5 ((CTxPoolView.empty.addNew 1 pA).addNew 2 pB),
      (SortedMap.empty.insert 1 pA).insert 2 pB, 2⟩
    let worldLine : IWorldLine := ⟨fun _ => some (5, 1), fun _ => none⟩
    ((pool.pop worldLine 1).viewOf 5).get 1 = none ∧ ((pool.pop worldLine 1).viewOf 5).get 2 = none ∧
      (pool.pop worldLine 1).mapTx.find 2 = none ∧ (pool.pop worldLine 1).mapTx.find 1 = some pA := by
  intro dest pA pB pool worldLine
  have hA : (CTxPoolView.empty.addNew 1 pA).Consistent :=
    consistent_empty.addNew pA (by decide) (by decide) (by decide) (by decide)
  have hv : (pool.viewOf 5).Consistent := hA.addNew pB (by decide) (by decide) (by decide) (by decide)
  obtain ⟨-, hget, hfind, -⟩ := pop_removes_descendants worldLine pool 1 pA 5 1 (by decide) rfl hv
  have hpath : Relation.ReflTransGen (Search.Edge (pool.viewOf 5).getSpent outPoints) 1 2 :=
    .single ⟨⟨1, 0⟩, by decide, by decide⟩
  refine ⟨?_, ?_, ?_, ?_⟩
  · rw [hget 1, if_pos .refl]
  · rw [hget 2, if_pos hpath]
  · rw [hfind 2, if_pos ⟨by decide, hpath⟩]
  · rw [hfind 1, if_neg fun h => h.1 rfl]
    decide

end CTxPool

end Multiverse.TxPool
