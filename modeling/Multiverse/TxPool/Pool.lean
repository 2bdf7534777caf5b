import Multiverse.TxPool.View
import Multiverse.Core.Protocol

/-! # The transaction pool

`CTxPool` of `src/txpool.cpp`: one view per fork, the pooled transactions
themselves by txid, and the counter that numbers them. `Push` takes a new
transaction into the view of the fork its anchor lies on, `Pop` takes one out
with everything built on it, and `SynchronizeWorldLine` follows the world line
when blocks are added to and removed from a fork.

The world line enters through what the pool asks of it: the fork and height of
an anchor block, and the unspent outputs of a fork's database.
-/

namespace Multiverse.TxPool

open MvErr

/-- What the pool asks of `IWorldLine`. -/
structure IWorldLine where
  getBlockLocation : Nat → Option (Nat × Nat)
  getForkUnspent : Nat → Option (CTxOutPoint → Option CTxOutput)

/-- `CWorldLine::GetTxUnspent`: outputs still null are read from the fork's
database; the call fails when the fork is unknown. -/
def IWorldLine.getTxUnspent (worldLine : IWorldLine) (hashFork : Nat) (vInput : List CTxIn)
    (vOutput : List CTxOutput) : Option (List CTxOutput) :=
  (worldLine.getForkUnspent hashFork).map fun db =>
    List.zipWith (fun txin output => if output.isNull then (db txin.prevout).getD output else output)
      vInput vOutput

/-- The part of `CWorldLineUpdate` the pool reads. -/
structure CWorldLineUpdate where
  hashFork : Nat
  nLastBlockHeight : Nat
  setTxUpdate : List Nat
  vBlockAddNew : List CBlockEx
  vBlockRemove : List CBlockEx
  deriving DecidableEq

structure CTxSetChange where
  hashFork : Nat
  mapTxUpdate : SortedMap Nat Int
  vTxAddNew : List CAssembledTx
  vTxRemove : List (Nat × List CTxIn)

structure CTxPool where
  mapPoolView : SortedMap Nat CTxPoolView
  mapTx : SortedMap Nat CPooledTx
  nLastSequenceNumber : Nat

namespace CTxPool

def empty : CTxPool := ⟨SortedMap.empty, SortedMap.empty, 0⟩

/-- `mapPoolView[hashFork]`: an empty view where there is none. -/
def viewOf (pool : CTxPool) (hashFork : Nat) : CTxPoolView :=
  (pool.mapPoolView.find hashFork).getD CTxPoolView.empty

/-- `GetSequenceNumber`: the counter starts again when the pool is empty. -/
def getSequenceNumber (pool : CTxPool) : Nat :=
  (if pool.mapTx.isEmpty then 0 else pool.nLastSequenceNumber) + 1

/-- Every transaction of the pool's own map is in the view of some fork. -/
def Indexed (pool : CTxPool) : Prop :=
  ∀ txid, (pool.mapTx.find txid).isSome →
    ∃ hashFork v, pool.mapPoolView.find hashFork = some v ∧ (v.get txid).isSome

theorem empty_indexed : CTxPool.empty.Indexed := by
  intro txid h
  simp [empty] at h

theorem indexed_insert_view {pool pool' : CTxPool} (hpool : pool.Indexed) (hashFork : Nat)
    (v : CTxPoolView) (hviews : pool'.mapPoolView = pool.mapPoolView)
    (hkeep : ∀ t, ((pool.viewOf hashFork).get t).isSome → (v.get t).isSome)
    (hnew : ∀ t, (pool'.mapTx.find t).isSome → (pool.mapTx.find t).isSome ∨ (v.get t).isSome) :
    ({ pool' with mapPoolView := pool'.mapPoolView.insert hashFork v } : CTxPool).Indexed := by
  intro t ht
  rcases hnew t ht with hold | hin
  · obtain ⟨f, w, hf, hw⟩ := hpool t hold
    by_cases hfe : f = hashFork
    · subst hfe
      exact ⟨f, v, by simp, hkeep t (by simp [viewOf, hf, hw])⟩
    · exact ⟨f, w, by simp [hviews, hfe, hf], hw⟩
  · exact ⟨hashFork, v, by simp, hin⟩

section Operations

variable (crypto : Crypto) (worldLine : IWorldLine)

/-- `CTxPool::AddNew`: the inputs are neither spent in the view nor missing,
the transaction passes `VerifyTransaction` at the fork height, and it enters
the pool and the view under a fresh sequence number. The new entry is made
before it is inserted, so an entry of the pool with this txid stays. -/
def addNew (pool : CTxPool) (txView : CTxPoolView) (txid : Nat) (tx : CTransaction)
    (hashFork nForkHeight : Nat) : Except MvErr (CTxPool × CTxPoolView) :=
  if tx.vInput.any (fun txin => txView.isSpent txin.prevout) then
    .error MV_ERR_TRANSACTION_CONFLICTING_INPUT
  else
    let vPrevOutput := tx.vInput.map fun txin => (txView.getUnspent txin.prevout).getD CTxOutput.null
    match worldLine.getTxUnspent hashFork tx.vInput vPrevOutput with
    | none => .error MV_ERR_SYS_STORAGE_ERROR
    | some vPrevOutput =>
      if vPrevOutput.any (·.isNull) then .error MV_ERR_TRANSACTION_CONFLICTING_INPUT
      else
        let nValueIn := (vPrevOutput.map (·.nAmount)).sum
        let err := verifyTransaction crypto tx vPrevOutput nForkHeight
        if err ≠ MV_OK then .error err
        else
          let destIn := (vPrevOutput.headD CTxOutput.null).destTo
          let nSequenceNumber := pool.getSequenceNumber
          let pooled : CPooledTx := ⟨⟨tx, destIn, nValueIn, -1⟩, nSequenceNumber, tx.serialize.length⟩
          let mapTx := pool.mapTx.insertNew txid pooled
          .ok ({ pool with mapTx := mapTx, nLastSequenceNumber := nSequenceNumber },
            txView.addNew txid ((mapTx.find txid).getD pooled))

/-- `Push(tx, hashFork, destIn, nValueIn)`: the new state, and the fork,
input destination and value in of a transaction taken in. The fork's view
is made even when the transaction is turned down. -/
def push (pool : CTxPool) (tx : CTransaction) : CTxPool × Except MvErr (Nat × CDestination × Int) :=
  let txid := tx.getHash crypto
  if (pool.mapTx.find txid).isSome then (pool, .error MV_ERR_ALREADY_HAVE)
  else if tx.isMintTx then (pool, .error MV_ERR_TRANSACTION_INVALID)
  else
    match worldLine.getBlockLocation tx.hashAnchor with
    | none => (pool, .error MV_ERR_TRANSACTION_INVALID)
    | some (hashFork, nHeight) =>
      let txView := pool.viewOf hashFork
      match pool.addNew crypto worldLine txView txid tx hashFork nHeight with
      | .error err => ({ pool with mapPoolView := pool.mapPoolView.insert hashFork txView }, .error err)
      | .ok (pool, txView) =>
        let pool := { pool with mapPoolView := pool.mapPoolView.insert hashFork txView }
        match txView.get txid with
        | none => (pool, .error MV_ERR_NOT_FOUND)
        | some pTx => (pool, .ok (hashFork, pTx.destIn, pTx.nValueIn))

theorem addNew_eq_ok {pool pool' : CTxPool} {txView txView' : CTxPoolView} {txid : Nat}
    {tx : CTransaction} {hashFork nForkHeight : Nat}
    (h : pool.addNew crypto worldLine txView txid tx hashFork nForkHeight = .ok (pool', txView')) :
    pool'.mapPoolView = pool.mapPoolView ∧
      (∀ t, (pool'.mapTx.find t).isSome → t = txid ∨ (pool.mapTx.find t).isSome) ∧
      ∃ pooled, txView' = txView.addNew txid pooled := by
  unfold addNew at h
  split_ifs at h with hspent
  dsimp only at h
  split at h
  next => cases h
  next vPrevOutput hunspent =>
  split_ifs at h with hnull herr
  cases h
  refine ⟨rfl, ?_, ⟨_, rfl⟩⟩
  intro t ht
  by_cases htx : t = txid
  · exact .inl htx
  · simp only [SortedMap.find_insertNew, htx, if_false] at ht
    exact .inr ht

theorem push_indexed {pool : CTxPool} (hpool : pool.Indexed) (tx : CTransaction) :
    (pool.push crypto worldLine tx).1.Indexed := by
  unfold push
  dsimp only
  split_ifs with hhave hmint
  · exact hpool
  · exact hpool
  split
  next => exact hpool
  next hashFork nHeight hloc =>
  split
  next err hadd =>
    -- turned down: the fork's view is written back as it was
    exact indexed_insert_view hpool hashFork _ rfl (fun t h => h) (fun t h => .inl h)
  next pool' txView' hadd =>
    obtain ⟨hviews, hnew, pooled, rfl⟩ := addNew_eq_ok crypto worldLine hadd
    -- taken in: the view gains the transaction and keeps the others
    have hind := indexed_insert_view hpool hashFork ((pool.viewOf hashFork).addNew
      (tx.getHash crypto) pooled) hviews
      (fun t h => by rw [CTxPoolView.get_addNew]; split_ifs <;> simp_all)
      (fun t h => by
        rcases hnew t h with rfl | hold
        · exact .inr (by simp [CTxPoolView.get_addNew])
        · exact .inl hold)
    split <;> exact hind

theorem indexed_of_pushes (txs : List CTransaction) :
    (txs.foldl (fun pool tx => (pool.push crypto worldLine tx).1) CTxPool.empty).Indexed := by
  suffices h : ∀ pool : CTxPool, pool.Indexed →
      (txs.foldl (fun pool tx => (pool.push crypto worldLine tx).1) pool).Indexed from
    h _ empty_indexed
  induction txs with
  | nil => exact fun _ h => h
  | cons tx txs ih => exact fun pool h => ih _ (push_indexed crypto worldLine h tx)

/-- `Pop(txid)`: the transaction leaves its view with every pooled transaction
spending its outputs; of the pool's own map only the latter are erased. -/
def pop (pool : CTxPool) (txid : Nat) : CTxPool :=
  match pool.mapTx.find txid with
  | none => pool
  | some tx =>
    match worldLine.getBlockLocation tx.tx.hashAnchor with
    | none => pool
    | some (hashFork, _) =>
      let txView := (pool.viewOf hashFork).remove txid
      let (txView, vInvalidTx) := txView.invalidateSpent ⟨txid, 0⟩ []
      let (txView, vInvalidTx) := txView.invalidateSpent ⟨txid, 1⟩ vInvalidTx
      { pool with
        mapPoolView := pool.mapPoolView.insert hashFork txView
        mapTx := vInvalidTx.foldl SortedMap.erase pool.mapTx }

set_option maxRecDepth 4000 in
/-- A transaction pushed and popped again: its view no longer has it, yet the
pool's map still does, so that a second push is turned down, and the view
still lists its first output as unspent. -/
theorem pop_leaves_txid_in_pool :
    let crypto : Crypto := ⟨fun bs => bs.length, fun _ _ _ => true, fun _ _ _ _ => none⟩
    let dest := CDestination.ofPubKey 1
    let worldLine : IWorldLine := ⟨fun _ => some (5, 1),
      fun _ => some fun out => if out = ⟨7, 0⟩ then some ⟨dest, 200, 0, 0⟩ else none⟩
    let tx : CTransaction := ⟨1, CTransaction.TX_TOKEN, 1, 0, 1, [⟨⟨7, 0⟩⟩], dest, 80, 100, [], [1]⟩
    let txid := tx.getHash crypto
    let pushed := CTxPool.empty.push crypto worldLine tx
    let popped := pushed.1.pop worldLine txid
    pushed.2 = .ok (5, dest, 200) ∧
      (popped.viewOf 5).get txid = none ∧
      (popped.mapTx.find txid).isSome ∧
      (popped.push crypto worldLine tx).2 = .error MV_ERR_ALREADY_HAVE ∧
      (popped.viewOf 5).mapSpent ⟨txid, 0⟩ = some (CSpent.ofUnspent ⟨dest, 80, 1, 0⟩) := by
  decide

/-- What `SynchronizeWorldLine` carries through its loops: the pool (whose
view of the fork is `txView` until the end), the invalidated txids, the
removed transactions and the change reported. -/
structure SyncState where
  pool : CTxPool
  txView : CTxPoolView
  vInvalidTx : List Nat
  vTxRemove : List (Nat × List CTxIn)
  change : CTxSetChange

/-- `InvalidateSpent` of each input of a transaction, into one list. -/
def invalidateInputs (txView : CTxPoolView) (vInvalidTx : List Nat) (vInput : List CTxIn) :
    CTxPoolView × List Nat :=
  vInput.foldl (fun r txin => r.1.invalidateSpent txin.prevout r.2) (txView, vInvalidTx)

def insertTxUpdate (change : CTxSetChange) (txid : Nat) (nHeight : Int) : CTxSetChange :=
  { change with mapTxUpdate := change.mapTxUpdate.insertNew txid nHeight }

/-- A transaction of a block added to the fork, at height `nHeight`. -/
def syncAddNewTx (update : CWorldLineUpdate) (nHeight : Int) (st : SyncState)
    (entry : CTransaction × CTxContxt) : SyncState :=
  let (tx, txContxt) := entry
  let txid := tx.getHash crypto
  if txid ∈ update.setTxUpdate then
    { st with change := insertTxUpdate st.change txid nHeight }
  else if (st.txView.get txid).isSome then
    { st with
      txView := st.txView.remove txid
      pool := { st.pool with mapTx := st.pool.mapTx.erase txid }
      change := insertTxUpdate st.change txid nHeight }
  else
    let (txView, vInvalidTx) := invalidateInputs st.txView st.vInvalidTx tx.vInput
    let assembled : CAssembledTx := ⟨tx, txContxt.destIn, txContxt.getValueIn, nHeight⟩
    { st with
      txView := txView
      vInvalidTx := vInvalidTx
      change := { st.change with vTxAddNew := st.change.vTxAddNew ++ [assembled] } }

/-- A block added to the fork: its mint, when it pays, then its transactions. -/
def syncAddNewBlock (update : CWorldLineUpdate) (acc : SyncState × Int) (block : CBlockEx) :
    SyncState × Int :=
  let (st, nHeight) := acc
  let st :=
    if block.txMint.nAmount ≠ 0 then
      let mint : CAssembledTx := ⟨block.txMint, CDestination.null, 0, nHeight⟩
      { st with change := { st.change with vTxAddNew := st.change.vTxAddNew ++ [mint] } }
    else st
  (block.txWithContxt.foldl (syncAddNewTx crypto update nHeight) st, nHeight + 1)

/-- A transaction of a block removed from the fork goes back into the pool,
keeping the spenders of its outputs; one that does not fit any more is dropped
with what is built on it. -/
def syncRemoveTx (update : CWorldLineUpdate) (st : SyncState) (tx : CTransaction) : SyncState :=
  let txid := tx.getHash crypto
  if txid ∈ update.setTxUpdate then st
  else
    let spent0 := (st.txView.getSpent ⟨txid, 0⟩).getD 0
    let spent1 := (st.txView.getSpent ⟨txid, 1⟩).getD 0
    match st.pool.addNew crypto worldLine st.txView txid tx update.hashFork update.nLastBlockHeight with
    | .ok (pool, txView) =>
      let txView := if spent0 ≠ 0 then txView.setSpent ⟨txid, 0⟩ spent0 else txView
      -- the source restores the spender of output 1 from `spent0` as well
      let txView := if spent1 ≠ 0 then txView.setSpent ⟨txid, 1⟩ spent0 else txView
      { st with
        pool := pool
        txView := txView
        change := insertTxUpdate st.change txid (-1) }
    | .error _ =>
      let (txView, vInvalidTx) := st.txView.invalidateSpent ⟨txid, 0⟩ st.vInvalidTx
      let (txView, vInvalidTx) := txView.invalidateSpent ⟨txid, 1⟩ vInvalidTx
      { st with
        txView := txView
        vInvalidTx := vInvalidTx
        vTxRemove := st.vTxRemove ++ [(txid, tx.vInput)] }

/-- A block removed from the fork: its transactions last first, then its mint. -/
def syncRemoveBlock (update : CWorldLineUpdate) (st : SyncState) (block : CBlockEx) : SyncState :=
  let st := block.vtx.reverse.foldl (syncRemoveTx crypto worldLine update) st
  if block.txMint.nAmount ≠ 0 then
    let txidMint := block.txMint.getHash crypto
    let (txView, vInvalidTx) := st.txView.invalidateSpent ⟨txidMint, 0⟩ st.vInvalidTx
    { st with
      txView := txView
      vInvalidTx := vInvalidTx
      vTxRemove := st.vTxRemove ++ [(txidMint, block.txMint.vInput)] }
  else st

/-- The invalidated transactions leave the pool's map, the last first, and are
reported removed. -/
def eraseInvalid (mapTx : SortedMap Nat CPooledTx) (vTxRemove : List (Nat × List CTxIn))
    (vInvalidTx : List Nat) : SortedMap Nat CPooledTx × List (Nat × List CTxIn) :=
  vInvalidTx.reverse.foldl
    (fun r txid =>
      match r.1.find txid with
      | some pTx => (r.1.erase txid, r.2 ++ [(txid, pTx.tx.vInput)])
      | none => r)
    (mapTx, vTxRemove)

/-- `SynchronizeWorldLine(update, change)`. The added blocks come newest
first and are walked oldest first. -/
def synchronizeWorldLine (pool : CTxPool) (update : CWorldLineUpdate) : CTxPool × CTxSetChange :=
  let nHeight : Int := (update.nLastBlockHeight : Int) - update.vBlockAddNew.length + 1
  let st : SyncState :=
    ⟨pool, pool.viewOf update.hashFork, [], [], ⟨update.hashFork, SortedMap.empty, [], []⟩⟩
  let st := (update.vBlockAddNew.reverse.foldl (syncAddNewBlock crypto update) (st, nHeight)).1
  let st := update.vBlockRemove.foldl (syncRemoveBlock crypto worldLine update) st
  let (mapTx, vTxRemove) := eraseInvalid st.pool.mapTx st.change.vTxRemove st.vInvalidTx
  ({ st.pool with
      mapPoolView := st.pool.mapPoolView.insert update.hashFork st.txView
      mapTx := mapTx },
    { st.change with vTxRemove := vTxRemove ++ st.vTxRemove })

end Operations

/-- `CTxPool::ArrangeBlockTx` on the view of a fork. -/
def arrangeBlockTx (pool : CTxPool) (hashFork nBlockTime nMaxSize : Nat) (vtx : List CTransaction) :
    List CTransaction × Int :=
  (pool.viewOf hashFork).arrangeBlockTx vtx nBlockTime nMaxSize

set_option maxRecDepth 4000 in
/-- A child pooled while its parent sits in a block; the block is then
removed, the parent comes back under a later sequence number than the child,
and a block assembled from the view lists the child before its parent. -/
theorem synchronizeWorldLine_pools_parent_after_child :
    let crypto : Crypto := ⟨fun bs => bs.length, fun _ _ _ => true, fun _ _ _ _ => none⟩
    let dest := CDestination.ofPubKey 1
    let parent : CTransaction := ⟨1, CTransaction.TX_TOKEN, 1, 0, 1, [⟨⟨7, 0⟩⟩], dest, 300, 100, [], [1]⟩
    let child : CTransaction :=
      ⟨1, CTransaction.TX_TOKEN, 2, 0, 1, [⟨⟨parent.getHash crypto, 0⟩⟩], dest, 200, 100, [], [1]⟩
    let onBlock : IWorldLine := ⟨fun _ => some (5, 1), fun _ => some fun out =>
      if out = ⟨parent.getHash crypto, 0⟩ then some ⟨dest, 300, 1, 0⟩ else none⟩
    let offBlock : IWorldLine := ⟨fun _ => some (5, 0), fun _ => some fun out =>
      if out = ⟨7, 0⟩ then some ⟨dest, 400, 0, 0⟩ else none⟩
    let mint : CTransaction := ⟨1, CTransaction.TX_WORK, 1, 0, 1, [], dest, 15, 0, [], []⟩
    let block : CBlockEx :=
      ⟨⟨1, CBlock.BLOCK_PRIMARY, 1, 1, 0, [], mint, [parent], []⟩, [⟨dest, [⟨400, 0, 0⟩]⟩]⟩
    let pool := (CTxPool.empty.push crypto onBlock child).1
    let pool := (pool.synchronizeWorldLine crypto offBlock ⟨5, 0, [], [], [block]⟩).1
    ((pool.viewOf 5).get (child.getHash crypto)).map (·.nSequenceNumber) = some 1 ∧
      ((pool.viewOf 5).get (parent.getHash crypto)).map (·.nSequenceNumber) = some 2 ∧
      (pool.arrangeBlockTx 5 2 1000000 []).1 = [child, parent] := by
  decide

set_option maxRecDepth 4000 in
/-- Two children of one parent, spending its outputs `0` and `1`, pooled while
the parent sits in a block; the block is then removed. The parent comes back
with its output `1` marked spent by the child of output `0`, so that
`InvalidateSpent` of output `1` drops the child of output `0` and keeps the
child that spends output `1`. -/
theorem synchronizeWorldLine_misdirects_invalidateSpent :
    let crypto : Crypto := ⟨fun bs => bs.length, fun _ _ _ => true, fun _ _ _ _ => none⟩
    let dest := CDestination.ofPubKey 1
    let parent : CTransaction := ⟨1, CTransaction.TX_TOKEN, 1, 0, 1, [⟨⟨7, 0⟩⟩], dest, 300, 100, [], [1]⟩
    let child0 : CTransaction :=
      ⟨1, CTransaction.TX_TOKEN, 2, 0, 1, [⟨⟨parent.getHash crypto, 0⟩⟩], dest, 200, 100, [0], [1]⟩
    let child1 : CTransaction :=
      ⟨1, CTransaction.TX_TOKEN, 2, 0, 1, [⟨⟨parent.getHash crypto, 1⟩⟩], dest, 500, 100, [0, 0], [1]⟩
    let onBlock : IWorldLine := ⟨fun _ => some (5, 1), fun _ => some fun out =>
      if out = ⟨parent.getHash crypto, 0⟩ then some ⟨dest, 300, 1, 0⟩
      else if out = ⟨parent.getHash crypto, 1⟩ then some ⟨dest, 600, 1, 0⟩ else none⟩
    let offBlock : IWorldLine := ⟨fun _ => some (5, 0), fun _ => some fun out =>
      if out = ⟨7, 0⟩ then some ⟨dest, 1000, 0, 0⟩ else none⟩
    let mint : CTransaction := ⟨1, CTransaction.TX_WORK, 1, 0, 1, [], dest, 15, 0, [], []⟩
    let block : CBlockEx :=
      ⟨⟨1, CBlock.BLOCK_PRIMARY, 1, 1, 0, [], mint, [parent], []⟩, [⟨dest, [⟨1000, 0, 0⟩]⟩]⟩
    let pool := (CTxPool.empty.push crypto onBlock child0).1
    let pool := (pool.push crypto onBlock child1).1
    let view := ((pool.synchronizeWorldLine crypto offBlock ⟨5, 0, [], [], [block]⟩).1).viewOf 5
    let r : CTxPoolView × List Nat := view.invalidateSpent ⟨parent.getHash crypto, 1⟩ []
    (view.get (child0.getHash crypto)).isSome ∧ (view.get (child1.getHash crypto)).isSome ∧
      view.getSpent ⟨parent.getHash crypto, 1⟩ = some (child0.getHash crypto) ∧
      r.2 = [child0.getHash crypto] ∧ (r.1.get (child1.getHash crypto)).isSome := by
  decide

end CTxPool

end Multiverse.TxPool
