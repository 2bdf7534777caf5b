import Multiverse.Common.Serialize
import Multiverse.Lib.SortedMap

/-! # Pool views

`CTxPoolView` of `src/txpool.h`: the transactions pooled on one fork, by
txid, and for every outpoint they touch a `CSpent` entry, either the output
still unspent in the pool or the txid of the pooled transaction that spends
it. `InvalidateSpent` takes a spent output back and drops its spender and,
transitively, every pooled transaction built on it. `ArrangeBlockTx` lists
pooled transactions for a block by sequence number until the size runs out.

The view's `mapTx` holds pointers into the pool's own map; its entries never
change once pooled, so a copy stands for each pointer.
-/

namespace Multiverse.TxPool

/-- A transaction in the pool: as assembled, with its sequence number and size. -/
structure CPooledTx extends CAssembledTx where
  nSequenceNumber : Nat
  nSerializeSize : Nat
  deriving DecidableEq, Repr

/-- `CTxPoolView::CSpent`: an output unspent in the pool, or its spender. -/
structure CSpent where
  output : CTxOutput
  txidNextTx : Nat
  deriving DecidableEq, Repr

namespace CSpent

def ofSpent (txidNextTx : Nat) : CSpent := ⟨CTxOutput.null, txidNextTx⟩

def ofUnspent (output : CTxOutput) : CSpent := ⟨output, 0⟩

def isSpent (s : CSpent) : Bool := s.txidNextTx != 0

@[simp] theorem isSpent_ofUnspent (o : CTxOutput) : (ofUnspent o).isSpent = false := rfl

end CSpent

structure CTxPoolView where
  mapTx : SortedMap Nat CPooledTx
  mapSpent : CTxOutPoint → Option CSpent

namespace CTxPoolView

def empty : CTxPoolView := ⟨SortedMap.empty, fun _ => none⟩

def count (v : CTxPoolView) : Nat := v.mapTx.size

def get (v : CTxPoolView) (txid : Nat) : Option CPooledTx := v.mapTx.find txid

def isSpent (v : CTxPoolView) (out : CTxOutPoint) : Bool :=
  match v.mapSpent out with
  | some s => s.isSpent
  | none => false

/-- The output `GetUnspent` writes back: that of an entry not spent. -/
def getUnspent (v : CTxPoolView) (out : CTxOutPoint) : Option CTxOutput :=
  match v.mapSpent out with
  | some s => if s.isSpent then none else some s.output
  | none => none

/-- The spender `GetSpent` reports when it returns true. -/
def getSpent (v : CTxPoolView) (out : CTxOutPoint) : Option Nat :=
  match v.mapSpent out with
  | some s => if s.isSpent then some s.txidNextTx else none
  | none => none

/-- `SetUnspent(out)`: the output of a pooled transaction becomes unspent
again; one of a transaction not in the pool leaves the view. -/
def setUnspent (v : CTxPoolView) (out : CTxOutPoint) : CTxPoolView :=
  let spent := (v.get out.hash).map fun pTx => CSpent.ofUnspent (pTx.getOutput out.n)
  { v with mapSpent := Function.update v.mapSpent out spent }

def setSpent (v : CTxPoolView) (out : CTxOutPoint) (txidNextTx : Nat) : CTxPoolView :=
  { v with mapSpent := Function.update v.mapSpent out (some (CSpent.ofSpent txidNextTx)) }

/-- An output of a new transaction enters the view unless it is null. -/
def addOutput (v : CTxPoolView) (out : CTxOutPoint) (output : CTxOutput) : CTxPoolView :=
  if output.isNull then v
  else { v with mapSpent := Function.update v.mapSpent out (some (CSpent.ofUnspent output)) }

/-- The loop of `Remove` and `InvalidateSpent` over the inputs of a transaction. -/
def releaseInputs (v : CTxPoolView) (vInput : List CTxIn) : CTxPoolView :=
  vInput.foldl (fun v txin => v.setUnspent txin.prevout) v

def addNew (v : CTxPoolView) (txid : Nat) (tx : CPooledTx) : CTxPoolView :=
  let v := { v with mapTx := v.mapTx.insert txid tx }
  let v := tx.tx.vInput.foldl (fun v txin => v.setSpent txin.prevout txid) v
  let v := v.addOutput ⟨txid, 0⟩ (tx.getOutput 0)
  v.addOutput ⟨txid, 1⟩ (tx.getOutput 1)

def remove (v : CTxPoolView) (txid : Nat) : CTxPoolView :=
  match v.get txid with
  | some pTx =>
    let v := v.releaseInputs pTx.tx.vInput
    { v with mapTx := v.mapTx.erase txid }
  | none => v

/-- An output of a transaction leaving the pool: a spent one joins the queue,
an unspent one leaves the view. -/
def dropOutput (v : CTxPoolView) (out : CTxOutPoint) (vOutPoint : List CTxOutPoint) :
    CTxPoolView × List CTxOutPoint :=
  if v.isSpent out then (v, vOutPoint ++ [out])
  else ({ v with mapSpent := Function.update v.mapSpent out none }, vOutPoint)

/-- A spender found in the pool leaves it: its inputs come back, its outputs
are dropped or queued. -/
def dropTx (v : CTxPoolView) (txid : Nat) (pTx : CPooledTx) (vOutPoint : List CTxOutPoint) :
    CTxPoolView × List CTxOutPoint :=
  let r0 := (v.releaseInputs pTx.tx.vInput).dropOutput ⟨txid, 0⟩ vOutPoint
  let r1 := r0.1.dropOutput ⟨txid, 1⟩ r0.2
  ({ r1.1 with mapTx := r1.1.mapTx.erase txid }, r1.2)

/-- The loop of `InvalidateSpent` over its queue `vOutPoint`, with fuel. -/
def invalidateSpentLoop : Nat → CTxPoolView → List CTxOutPoint → List Nat → CTxPoolView × List Nat
  | 0, v, _, vInvolvedTx => (v, vInvolvedTx)
  | _ + 1, v, [], vInvolvedTx => (v, vInvolvedTx)
  | fuel + 1, v, out :: vOutPoint, vInvolvedTx =>
    match v.getSpent out with
    | none => invalidateSpentLoop fuel v vOutPoint vInvolvedTx
    | some txidNextTx =>
      match v.get txidNextTx with
      | none => invalidateSpentLoop fuel v vOutPoint vInvolvedTx
      | some pNextTx =>
        let r := v.dropTx txidNextTx pNextTx vOutPoint
        invalidateSpentLoop fuel r.1 r.2 (vInvolvedTx ++ [txidNextTx])

/-- `InvalidateSpent(out, vInvolvedTx)`. Every round takes one outpoint off
the queue and puts back at most two only when it drops a transaction, so the
fuel below is never used up (`invalidateSpentLoop_of_le`). -/
def invalidateSpent (v : CTxPoolView) (out : CTxOutPoint) (vInvolvedTx : List Nat) :
    CTxPoolView × List Nat :=
  invalidateSpentLoop (2 * v.count + 1) v [out] vInvolvedTx

/-- An entry of `mapTx` offered to `mapCandidate`: one not later than the
block goes in under its sequence number, unless that number is taken. -/
def addCandidate (nBlockTime : Nat) (m : SortedMap Nat (Nat × CPooledTx)) (e : Nat × CPooledTx) :
    SortedMap Nat (Nat × CPooledTx) :=
  if e.2.tx.getTxTime ≤ nBlockTime then m.insertNew e.2.nSequenceNumber e else m

/-- `mapCandidate` of `ArrangeBlockTx`, filled in txid order. -/
def candidates (v : CTxPoolView) (nBlockTime : Nat) : SortedMap Nat (Nat × CPooledTx) :=
  v.mapTx.entries.foldl (addCandidate nBlockTime) SortedMap.empty

/-- The second loop of `ArrangeBlockTx`: take candidates while they fit. -/
def arrangeLoop (nMaxSize : Nat) :
    List (Nat × Nat × CPooledTx) → Nat → List CTransaction → Int → List CTransaction × Int
  | [], _, vtx, nTotalTxFee => (vtx, nTotalTxFee)
  | (_, _, pTx) :: rest, nTotalSize, vtx, nTotalTxFee =>
    if nTotalSize + pTx.nSerializeSize > nMaxSize then (vtx, nTotalTxFee)
    else arrangeLoop nMaxSize rest (nTotalSize + pTx.nSerializeSize) (vtx ++ [pTx.tx])
      (nTotalTxFee + pTx.tx.nTxFee)

/-- `ArrangeBlockTx(vtx, nTotalTxFee, nBlockTime, nMaxSize)`: the transactions
appended to `vtx`, and their fees. -/
def arrangeBlockTx (v : CTxPoolView) (vtx : List CTransaction) (nBlockTime nMaxSize : Nat) :
    List CTransaction × Int :=
  arrangeLoop nMaxSize (v.candidates nBlockTime).entries 0 vtx 0

/-! ## What the steps leave alone -/

@[simp] theorem setUnspent_mapTx (v : CTxPoolView) (out : CTxOutPoint) :
    (v.setUnspent out).mapTx = v.mapTx := rfl

@[simp] theorem setSpent_mapTx (v : CTxPoolView) (out : CTxOutPoint) (txid : Nat) :
    (v.setSpent out txid).mapTx = v.mapTx := rfl

@[simp] theorem addOutput_mapTx (v : CTxPoolView) (out : CTxOutPoint) (output : CTxOutput) :
    (v.addOutput out output).mapTx = v.mapTx := by
  unfold addOutput
  split <;> rfl

@[simp] theorem releaseInputs_mapTx (v : CTxPoolView) (vInput : List CTxIn) :
    (v.releaseInputs vInput).mapTx = v.mapTx := by
  induction vInput generalizing v with
  | nil => rfl
  | cons txin vInput ih => exact ih (v.setUnspent txin.prevout)

@[simp] theorem dropOutput_mapTx (v : CTxPoolView) (out : CTxOutPoint) (q : List CTxOutPoint) :
    (v.dropOutput out q).1.mapTx = v.mapTx := by
  unfold dropOutput
  split <;> rfl

@[simp] theorem foldl_setSpent_mapTx (v : CTxPoolView) (vInput : List CTxIn) (txid : Nat) :
    (vInput.foldl (fun v txin => v.setSpent txin.prevout txid) v).mapTx = v.mapTx := by
  induction vInput generalizing v with
  | nil => rfl
  | cons txin vInput ih => exact ih _

@[simp] theorem addNew_mapTx (v : CTxPoolView) (txid : Nat) (tx : CPooledTx) :
    (v.addNew txid tx).mapTx = v.mapTx.insert txid tx := by
  simp [addNew]

theorem get_addNew (v : CTxPoolView) (txid t : Nat) (tx : CPooledTx) :
    (v.addNew txid tx).get t = if t = txid then some tx else v.get t := by
  simp [get]

theorem length_dropOutput (v : CTxPoolView) (out : CTxOutPoint) (q : List CTxOutPoint) :
    (v.dropOutput out q).2.length ≤ q.length + 1 := by
  unfold dropOutput
  split <;> simp

@[simp] theorem dropTx_mapTx (v : CTxPoolView) (txid : Nat) (pTx : CPooledTx) (q : List CTxOutPoint) :
    (v.dropTx txid pTx q).1.mapTx = v.mapTx.erase txid := by
  simp [dropTx]

theorem length_dropTx (v : CTxPoolView) (txid : Nat) (pTx : CPooledTx) (q : List CTxOutPoint) :
    (v.dropTx txid pTx q).2.length ≤ q.length + 2 := by
  have h0 := length_dropOutput (v.releaseInputs pTx.tx.vInput) ⟨txid, 0⟩ q
  have h1 := length_dropOutput ((v.releaseInputs pTx.tx.vInput).dropOutput ⟨txid, 0⟩ q).1 ⟨txid, 1⟩
    ((v.releaseInputs pTx.tx.vInput).dropOutput ⟨txid, 0⟩ q).2
  simp only [dropTx]
  omega

theorem count_dropTx_lt {v : CTxPoolView} {txid : Nat} {pTx : CPooledTx} (h : v.get txid = some pTx)
    (q : List CTxOutPoint) : (v.dropTx txid pTx q).1.count < v.count := by
  rw [count, dropTx_mapTx]
  exact SortedMap.size_erase_lt (show (v.get txid).isSome by rw [h]; rfl)

/-! ## The fuel of `InvalidateSpent` -/

theorem invalidateSpentLoop_succ {fuel : Nat} {v : CTxPoolView} {q : List CTxOutPoint}
    (vInvolvedTx : List Nat) (h : q.length + 2 * v.count ≤ fuel) :
    invalidateSpentLoop (fuel + 1) v q vInvolvedTx = invalidateSpentLoop fuel v q vInvolvedTx := by
  induction fuel generalizing v q vInvolvedTx with
  | zero =>
    obtain rfl : q = [] := List.eq_nil_of_length_eq_zero (by omega)
    rfl
  | succ fuel ih =>
    cases q with
    | nil => rfl
    | cons out q =>
      simp only [List.length_cons] at h
      simp only [invalidateSpentLoop]
      cases hs : v.getSpent out with
      | none =>
        refine ih vInvolvedTx ?_
        omega
      | some txid =>
        dsimp only
        cases hg : v.get txid with
        | none =>
          refine ih vInvolvedTx ?_
          omega
        | some pTx =>
          have hq := length_dropTx v txid pTx q
          have hc := count_dropTx_lt hg q
          refine ih _ ?_
          omega

theorem invalidateSpentLoop_of_le (v : CTxPoolView) (out : CTxOutPoint) (vInvolvedTx : List Nat)
    {fuel : Nat} (h : 2 * v.count + 1 ≤ fuel) :
    invalidateSpentLoop fuel v [out] vInvolvedTx = v.invalidateSpent out vInvolvedTx := by
  induction fuel, h using Nat.le_induction with
  | base => rfl
  | succ fuel hle ih =>
    rw [invalidateSpentLoop_succ vInvolvedTx (by simp only [List.length_singleton]; omega)]
    exact ih

/-! ## Block assembly -/

theorem mem_foldl_addCandidate {nBlockTime : Nat} (l : List (Nat × CPooledTx))
    (m : SortedMap Nat (Nat × CPooledTx)) {e : Nat × Nat × CPooledTx}
    (h : e ∈ (l.foldl (addCandidate nBlockTime) m).entries) :
    e ∈ m.entries ∨ (e.2 ∈ l ∧ e.1 = e.2.2.nSequenceNumber ∧ e.2.2.tx.getTxTime ≤ nBlockTime) := by
  induction l generalizing m with
  | nil => exact .inl h
  | cons x l ih =>
    rcases ih _ h with h | ⟨hx, hs, ht⟩
    · unfold addCandidate at h
      split_ifs at h with hle
      · rcases SortedMap.mem_insertNew h with h | rfl
        · exact .inl h
        · exact .inr ⟨List.mem_cons_self, rfl, hle⟩
      · exact .inl h
    · exact .inr ⟨List.mem_cons_of_mem x hx, hs, ht⟩

theorem mem_candidates {v : CTxPoolView} {nBlockTime : Nat} {e : Nat × Nat × CPooledTx}
    (h : e ∈ (v.candidates nBlockTime).entries) :
    v.get e.2.1 = some e.2.2 ∧ e.1 = e.2.2.nSequenceNumber ∧ e.2.2.tx.getTxTime ≤ nBlockTime := by
  rcases mem_foldl_addCandidate _ _ h with h | ⟨hx, hs, ht⟩
  · cases h
  · exact ⟨(SortedMap.mem_entries_iff _ _ _).mp hx, hs, ht⟩

theorem arrangeLoop_take (nMaxSize : Nat) (cs : List (Nat × Nat × CPooledTx)) {nTotalSize : Nat}
    (vtx : List CTransaction) (nTotalTxFee : Int) (h : nTotalSize ≤ nMaxSize) :
    ∃ k, arrangeLoop nMaxSize cs nTotalSize vtx nTotalTxFee =
        (vtx ++ (cs.take k).map (·.2.2.tx), nTotalTxFee + ((cs.take k).map (·.2.2.tx.nTxFee)).sum) ∧
      nTotalSize + ((cs.take k).map (·.2.2.nSerializeSize)).sum ≤ nMaxSize := by
  induction cs generalizing nTotalSize vtx nTotalTxFee with
  | nil => exact ⟨0, by simp [arrangeLoop], by simpa using h⟩
  | cons c cs ih =>
    obtain ⟨seq, txid, pTx⟩ := c
    simp only [arrangeLoop]
    split_ifs with hgt
    · exact ⟨0, by simp, by simpa using h⟩
    · obtain ⟨k, heq, hle⟩ := ih (vtx ++ [pTx.tx]) (nTotalTxFee + pTx.tx.nTxFee) (not_lt.mp hgt)
      refine ⟨k + 1, ?_, ?_⟩
      · simp [heq, add_assoc]
      · simp only [List.take_succ_cons, List.map_cons, List.sum_cons]
        omega

theorem arrangeBlockTx_spec (v : CTxPoolView) (vtx : List CTransaction) (nBlockTime nMaxSize : Nat) :
    ∃ cs : List (Nat × Nat × CPooledTx),
      v.arrangeBlockTx vtx nBlockTime nMaxSize =
          (vtx ++ cs.map (·.2.2.tx), (cs.map (·.2.2.tx.nTxFee)).sum) ∧
        (cs.map (·.2.2.nSerializeSize)).sum ≤ nMaxSize ∧
        cs.Pairwise (fun a b => a.2.2.nSequenceNumber < b.2.2.nSequenceNumber) ∧
        ∀ e ∈ cs, v.get e.2.1 = some e.2.2 ∧ e.2.2.tx.getTxTime ≤ nBlockTime := by
  obtain ⟨k, heq, hle⟩ :=
    arrangeLoop_take nMaxSize (v.candidates nBlockTime).entries vtx 0 (Nat.zero_le nMaxSize)
  have hmem : ∀ e ∈ (v.candidates nBlockTime).entries.take k,
      v.get e.2.1 = some e.2.2 ∧ e.1 = e.2.2.nSequenceNumber ∧ e.2.2.tx.getTxTime ≤ nBlockTime :=
    fun e he => mem_candidates (List.mem_of_mem_take he)
  refine ⟨(v.candidates nBlockTime).entries.take k, ?_, by rwa [Nat.zero_add] at hle, ?_, ?_⟩
  · rw [arrangeBlockTx, heq, Int.zero_add]
  · have hs := (v.candidates nBlockTime).sorted.sublist (List.take_sublist k _)
    refine hs.imp_of_mem ?_
    intro a b ha hb hab
    rw [← (hmem a ha).2.1, ← (hmem b hb).2.1]
    exact hab
  · exact fun e he => ⟨(hmem e he).1, (hmem e he).2.2⟩

end CTxPoolView

end Multiverse.TxPool
