import Multiverse.TxPool.View
import Multiverse.Lib.Search

/-! # `InvalidateSpent` is a breadth-first search

`InvalidateSpent(out, vInvolvedTx)` walks the spend graph of the view: a
pooled transaction leads through its outputs `0` and `1` to the pooled
transactions that spend them, as `mapSpent` records. Its queue of outpoints
is scanned while it grows; a spender still pooled is dropped, its inputs
released and its spent outputs queued.

On a consistent view (`Consistent`: `mapSpent` and the inputs of the pooled
transactions agree, as `AddNew` and `Remove` keep them), every state of the
loop is the first view with the transactions dropped so far released
(`Released`), and the loop takes the same decisions as `Search.bfs` on the
first view's spend graph, round for round (`Released.invalidateSpentLoop`).
So the transactions dropped are the breadth-first order of the spenders
reached from `out`, each once, and the view left is the first one with
exactly those released (`invalidateSpent_eq_bfs`).
-/

namespace Multiverse.TxPool

namespace CTxPoolView

/-- The outputs `InvalidateSpent` looks at for a transaction it drops: `out0` and `out1`. -/
def outPoints (txid : Nat) : List CTxOutPoint := [⟨txid, 0⟩, ⟨txid, 1⟩]

theorem mem_outPoints {o : CTxOutPoint} {t : Nat} : o ∈ outPoints t ↔ o.hash = t ∧ o.n < 2 := by
  obtain ⟨h, n⟩ := o
  simp only [outPoints, List.mem_cons, CTxOutPoint.mk.injEq, List.not_mem_nil, or_false]
  omega

/-- The spender an entry of `mapSpent` names, as `GetSpent` reads it. -/
def spenderOf : Option CSpent → Option Nat
  | some s => if s.isSpent then some s.txidNextTx else none
  | none => none

theorem getSpent_eq (v : CTxPoolView) (o : CTxOutPoint) : v.getSpent o = spenderOf (v.mapSpent o) := by
  unfold getSpent spenderOf
  rfl

theorem isSpent_eq (v : CTxPoolView) (o : CTxOutPoint) : v.isSpent o = (spenderOf (v.mapSpent o)).isSome := by
  unfold isSpent spenderOf
  cases v.mapSpent o with
  | none => rfl
  | some s =>
    dsimp only
    cases s.isSpent <;> rfl

@[simp] theorem spenderOf_none : spenderOf none = none := rfl

@[simp] theorem spenderOf_ofUnspent (output : CTxOutput) : spenderOf (some (CSpent.ofUnspent output)) = none := rfl

@[simp] theorem spenderOf_map_ofUnspent (x : Option CPooledTx) (f : CPooledTx → CTxOutput) :
    spenderOf (x.map fun pTx => CSpent.ofUnspent (f pTx)) = none := by
  cases x <;> rfl

/-- A view whose `mapSpent` and pooled inputs agree: a spent entry names a
pooled transaction with that input, every input of a pooled transaction is
spent by it, and a pooled transaction is spent only at its outputs `0` and `1`. -/
structure Consistent (v : CTxPoolView) : Prop where
  spender_mem : ∀ o t, v.getSpent o = some t → ∃ pTx, v.get t = some pTx ∧ o ∈ pTx.tx.vInput.map CTxIn.prevout
  input_spent : ∀ t pTx, v.get t = some pTx → ∀ txin ∈ pTx.tx.vInput, v.getSpent txin.prevout = some t
  spent_output_lt : ∀ o t, v.getSpent o = some t → (v.get o.hash).isSome → o.n < 2

theorem consistent_empty : CTxPoolView.empty.Consistent := by
  refine ⟨fun o t h => ?_, fun t p h => ?_, fun o t h => ?_⟩ <;> simp [getSpent, get, empty] at h

/-! ## `AddNew` keeps the view consistent -/

theorem foldl_setSpent_mapSpent (v : CTxPoolView) (l : List CTxIn) (txid : Nat) (o : CTxOutPoint) :
    (l.foldl (fun v txin => v.setSpent txin.prevout txid) v).mapSpent o =
      if o ∈ l.map CTxIn.prevout then some (CSpent.ofSpent txid) else v.mapSpent o := by
  induction l generalizing v with
  | nil => simp
  | cons txin l ih =>
    rw [List.foldl_cons, ih]
    simp only [setSpent, List.map_cons, List.mem_cons]
    by_cases ho : o = txin.prevout
    · subst ho
      simp
    · simp [ho]

theorem addOutput_mapSpent (v : CTxPoolView) (out : CTxOutPoint) (output : CTxOutput) (o : CTxOutPoint) :
    (v.addOutput out output).mapSpent o =
      if o = out ∧ output.isNull = false then some (CSpent.ofUnspent output) else v.mapSpent o := by
  unfold addOutput
  by_cases ho : o = out <;> split <;> simp_all

theorem getSpent_addNew (v : CTxPoolView) {txid : Nat} (htxid : txid ≠ 0) (tx : CPooledTx) (o : CTxOutPoint) :
    (v.addNew txid tx).getSpent o =
      if o ∈ outPoints txid ∧ (tx.getOutput o.n).isNull = false then none
      else if o ∈ tx.tx.vInput.map CTxIn.prevout then some txid else v.getSpent o := by
  have hspent : spenderOf (some (CSpent.ofSpent txid)) = some txid := by
    simp [spenderOf, CSpent.ofSpent, CSpent.isSpent, htxid]
  rw [getSpent_eq, addNew, addOutput_mapSpent, addOutput_mapSpent, foldl_setSpent_mapSpent]
  by_cases hout : o ∈ outPoints txid ∧ (tx.getOutput o.n).isNull = false
  · -- a non-null output of `tx`: `AddNew` writes it unspent, over whatever was there
    obtain ⟨hmem, hn⟩ := hout
    rw [if_pos (show o ∈ outPoints txid ∧ (tx.getOutput o.n).isNull = false from ⟨hmem, hn⟩)]
    simp only [outPoints, List.mem_cons, List.not_mem_nil, or_false] at hmem
    rcases hmem with rfl | rfl <;> simp_all
  · rw [if_neg hout]
    have h0 : ¬(o = ⟨txid, 0⟩ ∧ (tx.getOutput 0).isNull = false) := by
      rintro ⟨rfl, hn⟩
      exact hout ⟨by simp [outPoints], hn⟩
    have h1 : ¬(o = ⟨txid, 1⟩ ∧ (tx.getOutput 1).isNull = false) := by
      rintro ⟨rfl, hn⟩
      exact hout ⟨by simp [outPoints], hn⟩
    rw [if_neg h1, if_neg h0]
    split_ifs
    · exact hspent
    · rw [← getSpent_eq]
      rfl

theorem Consistent.addNew {v : CTxPoolView} (hv : v.Consistent) {txid : Nat} (tx : CPooledTx)
    (htxid : txid ≠ 0) (hnew : v.get txid = none)
    (hin : ∀ txin ∈ tx.tx.vInput, v.getSpent txin.prevout = none ∧ txin.prevout.hash ≠ txid ∧
      ((v.get txin.prevout.hash).isSome → txin.prevout.n < 2))
    (hfree : ∀ e ∈ v.mapTx.entries, ∀ txin ∈ e.2.tx.vInput, txin.prevout.hash ≠ txid) :
    (v.addNew txid tx).Consistent := by
  have hget : ∀ t, (v.addNew txid tx).get t = if t = txid then some tx else v.get t :=
    fun t => get_addNew v txid t tx
  have hnone : ∀ o, o.hash = txid → v.getSpent o = none := by
    intro o ho
    cases hs : v.getSpent o with
    | none => rfl
    | some y =>
      obtain ⟨p, hp, hmem⟩ := hv.spender_mem o y hs
      obtain ⟨txin, htxin, rfl⟩ := List.mem_map.mp hmem
      exact absurd ho (hfree (y, p) ((SortedMap.mem_entries_iff _ _ _).mpr hp) txin htxin)
  have hinout : ∀ o ∈ tx.tx.vInput.map CTxIn.prevout, o.hash ≠ txid := by
    intro o ho
    obtain ⟨txin, htxin, rfl⟩ := List.mem_map.mp ho
    exact (hin txin htxin).2.1
  refine ⟨fun o t hs => ?_, fun t p hp txin htxin => ?_, fun o t hs hpooled => ?_⟩
  · rw [getSpent_addNew v htxid] at hs
    split_ifs at hs with hout hmem
    · cases hs
      exact ⟨tx, by simp [hget], hmem⟩
    · obtain ⟨p, hp, ho⟩ := hv.spender_mem o t hs
      have htne : t ≠ txid := fun he => by rw [he, hnew] at hp; cases hp
      exact ⟨p, by rw [hget, if_neg htne, hp], ho⟩
  · rw [getSpent_addNew v htxid]
    rw [hget] at hp
    have hnot : ¬(txin.prevout ∈ outPoints txid ∧ (tx.getOutput txin.prevout.n).isNull = false) :=
      fun hc => by
        split_ifs at hp with ht
        · cases hp
          exact hinout _ (List.mem_map_of_mem htxin) (mem_outPoints.mp hc.1).1
        · exact absurd (hv.input_spent t p hp txin htxin) (by rw [hnone _ (mem_outPoints.mp hc.1).1]; simp)
    rw [if_neg hnot]
    split_ifs at hp with ht
    · cases hp
      rw [if_pos (List.mem_map_of_mem htxin), ht]
    · have hold := hv.input_spent t p hp txin htxin
      have hnin : txin.prevout ∉ tx.tx.vInput.map CTxIn.prevout := by
        intro hm
        obtain ⟨txin', htxin', he⟩ := List.mem_map.mp hm
        rw [← he, (hin txin' htxin').1] at hold
        cases hold
      rw [if_neg hnin, hold]
  · rw [getSpent_addNew v htxid] at hs
    rw [hget] at hpooled
    split_ifs at hs with hout hmem
    · obtain ⟨txin, htxin, rfl⟩ := List.mem_map.mp hmem
      rw [if_neg (hin txin htxin).2.1] at hpooled
      exact (hin txin htxin).2.2 hpooled
    · have hne : o.hash ≠ txid := fun he => by rw [hnone o he] at hs; cases hs
      rw [if_neg hne] at hpooled
      exact hv.spent_output_lt o t hs hpooled

/-- `mapSpent` with the transactions `R` dropped: an outpoint they spent is
unspent again, or leaves the view when its transaction is not pooled or was
dropped too; an output `0` or `1` of a dropped transaction that nothing spends
leaves the view; every other entry is as it was. -/
def releasedSpent (v : CTxPoolView) (R : List Nat) (o : CTxOutPoint) : Option CSpent :=
  match v.getSpent o with
  | some s =>
    if s ∈ R then (if o.hash ∈ R then none else (v.get o.hash).map fun pTx => CSpent.ofUnspent (pTx.getOutput o.n))
    else v.mapSpent o
  | none => if o.hash ∈ R ∧ o.n < 2 then none else v.mapSpent o

/-- `v` is `v₀` with the transactions `R` dropped by `InvalidateSpent`. -/
structure Released (v₀ : CTxPoolView) (R : List Nat) (v : CTxPoolView) : Prop where
  get_eq : ∀ t, v.get t = if t ∈ R then none else v₀.get t
  mapSpent_eq : v.mapSpent = v₀.releasedSpent R

variable {v₀ v : CTxPoolView} {R : List Nat}

theorem released_nil (v : CTxPoolView) : Released v [] v := by
  refine ⟨fun t => by simp, funext fun o => ?_⟩
  unfold releasedSpent
  split <;> simp

theorem spenderOf_releasedSpent (o : CTxOutPoint) :
    spenderOf (v₀.releasedSpent R o) = (v₀.getSpent o).filter fun s => decide (s ∉ R) := by
  unfold releasedSpent
  cases hs : v₀.getSpent o with
  | none =>
    dsimp only
    split_ifs
    · rfl
    · rw [← getSpent_eq, hs]
      rfl
  | some s =>
    dsimp only
    by_cases hsR : s ∈ R
    · have hnone : (some s).filter (fun s => decide (s ∉ R)) = none := by simp [hsR]
      rw [if_pos hsR, hnone]
      split_ifs <;> simp
    · rw [if_neg hsR, ← getSpent_eq, hs, Option.filter_some, decide_eq_true hsR]
      rfl

theorem Released.getSpent (h : Released v₀ R v) (o : CTxOutPoint) :
    v.getSpent o = (v₀.getSpent o).filter fun s => decide (s ∉ R) := by
  rw [getSpent_eq, h.mapSpent_eq, spenderOf_releasedSpent]

/-! ## One dropped transaction -/

theorem get_setUnspent (v : CTxPoolView) (p : CTxOutPoint) (t : Nat) : (v.setUnspent p).get t = v.get t := rfl

theorem setUnspent_mapSpent (v : CTxPoolView) (p : CTxOutPoint) :
    (v.setUnspent p).mapSpent =
      Function.update v.mapSpent p ((v.get p.hash).map fun pTx => CSpent.ofUnspent (pTx.getOutput p.n)) := rfl

theorem releaseInputs_mapSpent (v : CTxPoolView) (l : List CTxIn) (o : CTxOutPoint) :
    (v.releaseInputs l).mapSpent o =
      if o ∈ l.map CTxIn.prevout then (v.get o.hash).map fun pTx => CSpent.ofUnspent (pTx.getOutput o.n)
      else v.mapSpent o := by
  induction l generalizing v with
  | nil => simp [releaseInputs]
  | cons txin l ih =>
    unfold releaseInputs at ih ⊢
    rw [List.foldl_cons, ih, get_setUnspent, setUnspent_mapSpent]
    simp only [List.map_cons, List.mem_cons]
    by_cases ho : o = txin.prevout
    · subst ho
      simp
    · simp [ho]

theorem dropOutput_snd (v : CTxPoolView) (out : CTxOutPoint) (q : List CTxOutPoint) :
    (v.dropOutput out q).2 = q ++ [out].filter v.isSpent := by
  unfold dropOutput
  split <;> simp_all

theorem dropOutput_mapSpent (v : CTxPoolView) (out o : CTxOutPoint) (q : List CTxOutPoint) :
    (v.dropOutput out q).1.mapSpent o = if o = out ∧ v.isSpent out = false then none else v.mapSpent o := by
  unfold dropOutput
  by_cases ho : o = out <;> split <;> simp_all

theorem isSpent_dropOutput {v : CTxPoolView} {out o : CTxOutPoint} (q : List CTxOutPoint) (ho : o ≠ out) :
    (v.dropOutput out q).1.isSpent o = v.isSpent o := by
  rw [isSpent_eq, isSpent_eq, dropOutput_mapSpent, if_neg (fun h => ho h.1)]

theorem dropTx_snd (v : CTxPoolView) (t : Nat) (pTx : CPooledTx) (q : List CTxOutPoint) :
    (v.dropTx t pTx q).2 = q ++ (outPoints t).filter (v.releaseInputs pTx.tx.vInput).isSpent := by
  simp only [dropTx, dropOutput_snd, outPoints, List.filter_cons, List.filter_nil,
    isSpent_dropOutput _ (show (⟨t, 1⟩ : CTxOutPoint) ≠ ⟨t, 0⟩ by simp), List.append_assoc]
  split_ifs <;> rfl

theorem dropTx_mapSpent (v : CTxPoolView) (t : Nat) (pTx : CPooledTx) (q : List CTxOutPoint) (o : CTxOutPoint) :
    (v.dropTx t pTx q).1.mapSpent o =
      if o ∈ outPoints t ∧ (v.releaseInputs pTx.tx.vInput).isSpent o = false then none
      else (v.releaseInputs pTx.tx.vInput).mapSpent o := by
  simp only [dropTx, dropOutput_mapSpent, isSpent_dropOutput _ (show (⟨t, 1⟩ : CTxOutPoint) ≠ ⟨t, 0⟩ by simp)]
  by_cases h0 : o = ⟨t, 0⟩
  · subst h0
    simp [outPoints]
  by_cases h1 : o = ⟨t, 1⟩
  · subst h1
    simp [outPoints]
  simp [outPoints, h0, h1]

section Consistent

variable (hv : v₀.Consistent)
include hv

theorem Consistent.mem_inputs_iff {t : Nat} {pTx : CPooledTx} (hget : v₀.get t = some pTx) (o : CTxOutPoint) :
    o ∈ pTx.tx.vInput.map CTxIn.prevout ↔ v₀.getSpent o = some t := by
  constructor
  · intro ho
    obtain ⟨txin, hin, rfl⟩ := List.mem_map.mp ho
    exact hv.input_spent t pTx hget txin hin
  · intro hs
    obtain ⟨pTx', hget', ho⟩ := hv.spender_mem o t hs
    rw [hget, Option.some.injEq] at hget'
    exact hget' ▸ ho

theorem Consistent.releasedSpent_snoc {t : Nat} (ht : (v₀.get t).isSome) {o : CTxOutPoint}
    (hs : v₀.getSpent o ≠ some t) (hout : o ∉ outPoints t) :
    v₀.releasedSpent (R ++ [t]) o = v₀.releasedSpent R o := by
  rw [mem_outPoints] at hout
  unfold releasedSpent
  cases hso : v₀.getSpent o with
  | none =>
    have hiff : (o.hash ∈ R ++ [t] ∧ o.n < 2) ↔ (o.hash ∈ R ∧ o.n < 2) := by
      simp only [List.mem_append, List.mem_singleton]
      constructor
      · rintro ⟨hR | rfl, hn⟩
        · exact ⟨hR, hn⟩
        · exact absurd ⟨rfl, hn⟩ hout
      · rintro ⟨hR, hn⟩
        exact ⟨.inl hR, hn⟩
    simp only [hiff]
  | some s =>
    have hst : s ≠ t := fun h => hs (h ▸ hso)
    have hsR : s ∈ R ++ [t] ↔ s ∈ R := by simp [hst]
    -- an outpoint of `t` that a dropped transaction spent is one of its outputs `0` and `1`
    have hhash : o.hash ∈ R ++ [t] ↔ o.hash ∈ R := by
      simp only [List.mem_append, List.mem_singleton, or_iff_left_iff_imp]
      rintro rfl
      exact absurd ⟨rfl, hv.spent_output_lt o s hso ht⟩ hout
    simp only [hsR, hhash]

theorem Released.dropTx (h : Released v₀ R v) {t : Nat} {pTx : CPooledTx} (ht : t ∉ R)
    (hget : v₀.get t = some pTx) (q : List CTxOutPoint) :
    (v.dropTx t pTx q).2 = q ++ (outPoints t).filter (Search.fresh v₀.getSpent (R ++ [t])) ∧
      Released v₀ (R ++ [t]) (v.dropTx t pTx q).1 := by
  have hgetv : ∀ t', v.get t' = if t' ∈ R then none else v₀.get t' := h.get_eq
  have hv1 : ∀ o, (v.releaseInputs pTx.tx.vInput).mapSpent o =
      if v₀.getSpent o = some t then
        (if o.hash ∈ R then none else (v₀.get o.hash).map fun p => CSpent.ofUnspent (p.getOutput o.n))
      else v₀.releasedSpent R o := by
    intro o
    rw [releaseInputs_mapSpent]
    by_cases hs : v₀.getSpent o = some t
    · rw [if_pos ((hv.mem_inputs_iff hget o).mpr hs), if_pos hs, hgetv]
      split_ifs <;> rfl
    · rw [if_neg (fun hm => hs ((hv.mem_inputs_iff hget o).mp hm)), if_neg hs, h.mapSpent_eq]
  have hspent : ∀ o ∈ outPoints t,
      (v.releaseInputs pTx.tx.vInput).isSpent o = Search.fresh v₀.getSpent (R ++ [t]) o := by
    intro o ho
    rw [isSpent_eq, hv1, Search.fresh]
    by_cases hs : v₀.getSpent o = some t
    · rw [if_pos hs, hs, mem_outPoints.mp ho |>.1, if_neg ht]
      simp
    · rw [if_neg hs, spenderOf_releasedSpent]
      cases hso : v₀.getSpent o with
      | none => rfl
      | some s =>
        have hst : s ≠ t := fun hst => hs (hst ▸ hso)
        by_cases hsR : s ∈ R <;> simp [hsR, hst]
  have hq : (outPoints t).filter (v.releaseInputs pTx.tx.vInput).isSpent =
      (outPoints t).filter (Search.fresh v₀.getSpent (R ++ [t])) := List.filter_congr hspent
  refine ⟨by rw [dropTx_snd, hq], fun t' => ?_, funext fun o => ?_⟩
  · rw [get, dropTx_mapTx, SortedMap.find_erase, ← get, hgetv]
    by_cases htt : t' = t <;> simp [htt]
  rw [dropTx_mapSpent]
  by_cases hout : o ∈ outPoints t
  · rw [hspent o hout]
    have hhash : o.hash = t := (mem_outPoints.mp hout).1
    cases hf : Search.fresh v₀.getSpent (R ++ [t]) o with
    | false =>
      -- not spent once `t` is released: the output leaves the view
      rw [if_pos ⟨hout, rfl⟩]
      unfold releasedSpent
      cases hso : v₀.getSpent o with
      | none => simp [hhash, (mem_outPoints.mp hout).2]
      | some s =>
        have hsR : s ∈ R ++ [t] := by
          unfold Search.fresh at hf
          rw [hso] at hf
          exact not_not.mp (of_decide_eq_false hf)
        simp [hsR, hhash]
    | true =>
      -- spent by a transaction not dropped: the entry stays
      rw [if_neg (fun hc => Bool.noConfusion hc.2)]
      obtain ⟨s, hso, hsR⟩ := Search.fresh_eq_true_iff.mp hf
      have hst : s ≠ t := fun hst => hsR (by simp [hst])
      have hs' : s ∉ R := fun hs => hsR (List.mem_append_left _ hs)
      rw [hv1, if_neg (fun he => hst (Option.some.inj (hso.symm.trans he)))]
      simp only [releasedSpent, hso, if_neg hs', if_neg hsR]
  · rw [if_neg (fun hc => hout hc.1), hv1]
    by_cases hs : v₀.getSpent o = some t
    · rw [if_pos hs]
      have hhash : o.hash ≠ t := fun he =>
        hout (mem_outPoints.mpr ⟨he, hv.spent_output_lt o t hs (by rw [he, hget]; rfl)⟩)
      unfold releasedSpent
      rw [hs]
      simp [hhash]
    · rw [if_neg hs, hv.releasedSpent_snoc (by rw [hget]; rfl) hs hout]

/-- The loop of `InvalidateSpent`, from a view with `R` dropped, takes the
decisions of the search on the first view, round for round. -/
theorem Released.invalidateSpentLoop (vInvolvedTx : List Nat) (fuel : Nat) (q : List CTxOutPoint)
    (h : Released v₀ R v) :
    (CTxPoolView.invalidateSpentLoop fuel v q (vInvolvedTx ++ R)).2 =
        vInvolvedTx ++ Search.bfs v₀.getSpent outPoints fuel q R ∧
      Released v₀ (Search.bfs v₀.getSpent outPoints fuel q R)
        (CTxPoolView.invalidateSpentLoop fuel v q (vInvolvedTx ++ R)).1 := by
  induction fuel generalizing v q R with
  | zero => exact ⟨rfl, h⟩
  | succ fuel ih =>
    cases q with
    | nil => exact ⟨rfl, h⟩
    | cons o q =>
      have hsp := h.getSpent o
      cases hs : v₀.getSpent o with
      | none =>
        rw [hs] at hsp
        simp only [CTxPoolView.invalidateSpentLoop, Search.bfs, hs, hsp, Option.filter_none]
        exact ih q h
      | some a =>
        rw [hs] at hsp
        by_cases ha : a ∈ R
        · -- the spender was dropped already: its entry no longer names it
          have hnone : v.getSpent o = none := by simp [hsp, ha]
          simp only [CTxPoolView.invalidateSpentLoop, Search.bfs, hs, hnone, if_pos ha]
          exact ih q h
        · have hsome : v.getSpent o = some a := by simp [hsp, ha]
          obtain ⟨pTx, hget, -⟩ := hv.spender_mem o a hs
          have hgetv : v.get a = some pTx := by rw [h.get_eq, if_neg ha, hget]
          obtain ⟨hq, h'⟩ := h.dropTx hv ha hget q
          simp only [CTxPoolView.invalidateSpentLoop, Search.bfs, hs, hsome, hgetv, if_neg ha]
          rw [← hq, show vInvolvedTx ++ R ++ [a] = vInvolvedTx ++ (R ++ [a]) from List.append_assoc _ _ _]
          exact ih _ h'

theorem Consistent.released_invalidateSpent (out : CTxOutPoint) (vInvolvedTx : List Nat) :
    (v₀.invalidateSpent out vInvolvedTx).2 =
        vInvolvedTx ++ Search.bfs v₀.getSpent outPoints (2 * v₀.count + 1) [out] [] ∧
      Released v₀ (Search.bfs v₀.getSpent outPoints (2 * v₀.count + 1) [out] []) (v₀.invalidateSpent out vInvolvedTx).1 := by
  have hrun := (released_nil v₀).invalidateSpentLoop hv vInvolvedTx (2 * v₀.count + 1) [out]
  rwa [List.append_nil] at hrun

theorem Consistent.mem_bfs_iff_reached (out : CTxOutPoint) (t : Nat) :
    t ∈ Search.bfs v₀.getSpent outPoints (2 * v₀.count + 1) [out] [] ↔
      Search.Reached v₀.getSpent outPoints [out] t := by
  have hU : ∀ o b, v₀.getSpent o = some b → b ∈ v₀.mapTx.keys := by
    intro o b hb
    obtain ⟨pTx, hget, -⟩ := hv.spender_mem o b hb
    rw [SortedMap.mem_keys_iff]
    exact Option.isSome_iff_exists.mpr ⟨pTx, hget⟩
  have hfuel : [out].length + 2 * v₀.mapTx.keys.length ≤ 2 * v₀.count + 1 := by
    simp [SortedMap.keys, count, SortedMap.size, Nat.add_comm]
  exact Search.mem_bfs_iff v₀.getSpent outPoints hU (fun _ => Nat.le_refl 2) _ [out] hfuel t

theorem Consistent.mem_bfs_iff (out : CTxOutPoint) (t : Nat) :
    t ∈ Search.bfs v₀.getSpent outPoints (2 * v₀.count + 1) [out] [] ↔
      ∃ a, v₀.getSpent out = some a ∧ Relation.ReflTransGen (Search.Edge v₀.getSpent outPoints) a t := by
  rw [hv.mem_bfs_iff_reached]
  simp [Search.Reached]

theorem Consistent.of_leave {P : Nat → Prop} [DecidablePred P] (hget : ∀ t, v.get t = if P t then none else v₀.get t)
    (hspent : ∀ o, v.getSpent o = (v₀.getSpent o).filter fun s => decide (¬ P s)) : v.Consistent := by
  have hspent' : ∀ o t, v.getSpent o = some t ↔ v₀.getSpent o = some t ∧ ¬ P t := by
    intro o t
    rw [hspent, Option.filter_eq_some_iff, decide_eq_true_iff]
  refine ⟨fun o t hs => ?_, fun t p hp txin htxin => ?_, fun o t hs hpooled => ?_⟩
  · obtain ⟨hs₀, ht⟩ := (hspent' o t).mp hs
    obtain ⟨p, hp, ho⟩ := hv.spender_mem o t hs₀
    exact ⟨p, by rw [hget, if_neg ht, hp], ho⟩
  · rw [hget] at hp
    split_ifs at hp with ht
    exact (hspent' _ t).mpr ⟨hv.input_spent t p hp txin htxin, ht⟩
  · obtain ⟨hs₀, -⟩ := (hspent' o t).mp hs
    rw [hget] at hpooled
    split_ifs at hpooled
    · cases hpooled
    · exact hv.spent_output_lt o t hs₀ hpooled

theorem Released.consistent (h : Released v₀ R v) : v.Consistent :=
  hv.of_leave h.get_eq h.getSpent

theorem Consistent.invalidateSpent (out : CTxOutPoint) (vInvolvedTx : List Nat) :
    (v₀.invalidateSpent out vInvolvedTx).1.Consistent :=
  (hv.released_invalidateSpent out vInvolvedTx).2.consistent hv

end Consistent

/-! ## `Remove` -/

theorem getSpent_releaseInputs (v : CTxPoolView) (l : List CTxIn) (o : CTxOutPoint) :
    (v.releaseInputs l).getSpent o = if o ∈ l.map CTxIn.prevout then none else v.getSpent o := by
  rw [getSpent_eq, releaseInputs_mapSpent]
  split_ifs
  · simp
  · rw [← getSpent_eq]

theorem get_remove (v : CTxPoolView) (txid t : Nat) :
    (v.remove txid).get t = if t = txid then none else v.get t := by
  unfold CTxPoolView.remove
  cases hget : v.get txid with
  | none =>
    split_ifs with ht
    · rw [ht, hget]
    · rfl
  | some pTx => simp [get]

theorem Consistent.getSpent_remove (hv : v.Consistent) (txid : Nat) (o : CTxOutPoint) :
    (v.remove txid).getSpent o = (v.getSpent o).filter fun s => decide (s ≠ txid) := by
  have hkeep : v.getSpent o ≠ some txid → v.getSpent o = (v.getSpent o).filter fun s => decide (s ≠ txid) := by
    intro hne
    cases hs : v.getSpent o with
    | none => rfl
    | some s =>
      have hst : s ≠ txid := fun he => hne (he ▸ hs)
      simp [Option.filter_some, hst]
  unfold CTxPoolView.remove
  cases hget : v.get txid with
  | none =>
    refine hkeep fun hs => ?_
    obtain ⟨p, hp, -⟩ := hv.spender_mem o txid hs
    rw [hget] at hp
    cases hp
  | some pTx =>
    show (v.releaseInputs pTx.tx.vInput).getSpent o = _
    rw [getSpent_releaseInputs]
    by_cases ho : o ∈ pTx.tx.vInput.map CTxIn.prevout
    · rw [if_pos ho, (hv.mem_inputs_iff hget o).mp ho]
      simp [Option.filter_some]
    · rw [if_neg ho]
      exact hkeep fun hs => ho ((hv.mem_inputs_iff hget o).mpr hs)

theorem Consistent.remove (hv : v.Consistent) (txid : Nat) : (v.remove txid).Consistent :=
  hv.of_leave (get_remove v txid) (hv.getSpent_remove txid)

end CTxPoolView

open CTxPoolView in
/-- `InvalidateSpent(out, vInvolvedTx)` on a consistent view ends within
`2 * count + 1` rounds, and drops the pooled transactions that depend on `out`
(its spender, the spenders of that one's outputs, and so on), each once and in
breadth-first order from `out`, appending them to `vInvolvedTx`; every other
pooled transaction stays, the outpoints the dropped ones spent are unspent
again (or leave the view with their own transaction), and every other entry of
`mapSpent` is as it was. -/
theorem invalidateSpent_eq_bfs (v : CTxPoolView) (hv : v.Consistent) (out : CTxOutPoint) (vInvolvedTx : List Nat) :
    let r : CTxPoolView × List Nat := v.invalidateSpent out vInvolvedTx
    let R := Search.bfs v.getSpent outPoints (2 * v.count + 1) [out] []
    r.2 = vInvolvedTx ++ R ∧ R.Nodup ∧
      (∀ t, t ∈ R ↔ ∃ a, v.getSpent out = some a ∧ Relation.ReflTransGen (Search.Edge v.getSpent outPoints) a t) ∧
      (∀ t, r.1.get t = if t ∈ R then none else v.get t) ∧ r.1.mapSpent = v.releasedSpent R ∧
      ∀ fuel, 2 * v.count + 1 ≤ fuel → invalidateSpentLoop fuel v [out] vInvolvedTx = r := by
  intro r R
  obtain ⟨hinv, hrel⟩ := hv.released_invalidateSpent out vInvolvedTx
  exact ⟨hinv, Search.nodup_bfs _ _ _ _ List.nodup_nil, hv.mem_bfs_iff out, hrel.get_eq, hrel.mapSpent_eq,
    fun fuel hle => invalidateSpentLoop_of_le v out vInvolvedTx hle⟩

open CTxPoolView in
/-- A chain of two pooled transactions, the second spending the first's
output `0`: invalidating the outpoint the first one spends drops both, in order. -/
theorem invalidateSpent_eq_bfs_of_spend_chain :
    let dest := CDestination.ofPubKey 1
    let pA : CPooledTx := ⟨⟨⟨1, CTransaction.TX_TOKEN, 1, 0, 1, [⟨⟨100, 0⟩⟩], dest, 80, 10, [], [1]⟩, dest, 90, -1⟩, 1, 0⟩
    let pB : CPooledTx := ⟨⟨⟨1, CTransaction.TX_TOKEN, 1, 0, 1, [⟨⟨1, 0⟩⟩], dest, 70, 10, [], [1]⟩, dest, 80, -1⟩, 2, 0⟩
    let v := (CTxPoolView.empty.addNew 1 pA).addNew 2 pB
    v.Consistent ∧ (v.invalidateSpent ⟨100, 0⟩ []).2 = [1, 2] := by
  intro dest pA pB v
  have hA : (CTxPoolView.empty.addNew 1 pA).Consistent :=
    consistent_empty.addNew pA (by decide) (by decide) (by decide) (by decide)
  have hv : v.Consistent := hA.addNew pB (by decide) (by decide) (by decide) (by decide)
  refine ⟨hv, ?_⟩
  rw [(invalidateSpent_eq_bfs v hv ⟨100, 0⟩ []).1]
  decide

end Multiverse.TxPool
