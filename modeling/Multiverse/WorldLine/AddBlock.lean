import Multiverse.Storage.Commit
import Multiverse.TxPool.Pool
import Multiverse.Core.Validate
import Multiverse.Core.Consensus

/-! # Adding a block to the world line

`CWorldLine::AddNewBlock` of `src/worldline.cpp`, for a block of the fork the
store holds: the block is validated, checked against its previous block, its
transactions are resolved one after another in a view at its previous block
and stored with their contexts, and the view is committed when the block's
chain outweighs the fork's.

`VerifyBlock` depends on delegate agreements and other forks and enters as a
parameter with the chain of indices ending at the previous block; for a
primary block it is `verifyPrimaryBlock`. Whether the pool holds a
transaction enters as `poolExists`.
-/

namespace Multiverse.WorldLine

open MvErr Storage Overlay

/-- `GetTxContxt(view, tx, txContxt)`, from the context built so far: every
input resolves through the view, and all go to one destination. -/
def getTxContxtLoop (db : UnspentDB) (view : CBlockView) :
    List CTxIn → CTxContxt → Except MvErr CTxContxt
  | [], txContxt => .ok txContxt
  | txin :: vInput, txContxt =>
    match view.retrieveUnspent db txin.prevout with
    | none => .error MV_ERR_MISSING_PREV
    | some output =>
      if txContxt.destIn.isNull then
        getTxContxtLoop db view vInput ⟨output.destTo, txContxt.vin ++ [CTxInContxt.ofOutput output]⟩
      else if txContxt.destIn ≠ output.destTo then .error MV_ERR_TRANSACTION_INVALID
      else getTxContxtLoop db view vInput ⟨txContxt.destIn, txContxt.vin ++ [CTxInContxt.ofOutput output]⟩

def getTxContxt (db : UnspentDB) (view : CBlockView) (tx : CTransaction) : Except MvErr CTxContxt :=
  getTxContxtLoop db view tx.vInput CTxContxt.null

theorem getTxContxtLoop_ok {db : UnspentDB} {view : CBlockView} {vInput : List CTxIn}
    {txContxt txContxt' : CTxContxt} (h : getTxContxtLoop db view vInput txContxt = .ok txContxt') :
    ∃ outs : List CTxOutput,
      vInput.map (fun txin => view.retrieveUnspent db txin.prevout) = outs.map some ∧
        txContxt'.vin = txContxt.vin ++ outs.map CTxInContxt.ofOutput := by
  induction vInput generalizing txContxt with
  | nil =>
    cases h
    exact ⟨[], rfl, by simp⟩
  | cons txin vInput ih =>
    unfold getTxContxtLoop at h
    cases hr : view.retrieveUnspent db txin.prevout with
    | none => simp [hr] at h
    | some output =>
      -- both accepting branches go on with the resolved output appended
      have hnext : ∃ c, getTxContxtLoop db view vInput c = .ok txContxt' ∧
          c.vin = txContxt.vin ++ [CTxInContxt.ofOutput output] := by
        simp only [hr] at h
        split_ifs at h
        · exact ⟨_, h, rfl⟩
        · exact ⟨_, h, rfl⟩
      obtain ⟨c, hc, hvin⟩ := hnext
      obtain ⟨outs, hmap, hv⟩ := ih hc
      exact ⟨output :: outs, by simp [hr, hmap], by simp [hv, hvin]⟩

/-- What `AddNewBlock` needs besides the store: the hash functions and
signature checks, the genesis hash, the network time, `VerifyBlock` and the
pool's `Exists`. -/
structure Params where
  crypto : Crypto
  hashGenesis : Nat
  nNetTime : Int
  verifyBlock : Nat → CBlock → List CBlockIndex → Except MvErr Int
  poolExists : Nat → Bool

variable (params : Params)

/-- The loop of `AddNewBlock` over the block's transactions, with the view,
the contexts so far and the fees so far. -/
def addBlockTxs (db : UnspentDB) (nHeight : Nat) :
    List CTransaction → CBlockView × List CTxContxt × Int →
      Except MvErr (CBlockView × List CTxContxt × Int)
  | [], acc => .ok acc
  | tx :: vtx, (view, vTxContxt, nTotalFee) =>
    let txid := tx.getHash params.crypto
    match getTxContxt db view tx with
    | .error err => .error err
    | .ok txContxt =>
      let err := if params.poolExists txid then MV_OK
        else verifyBlockTx params.crypto tx txContxt nHeight
      if err ≠ MV_OK then .error err
      else addBlockTxs db nHeight vtx
        (view.addTx txid tx txContxt.destIn txContxt.getValueIn, vTxContxt ++ [txContxt],
          nTotalFee + tx.nTxFee)

theorem addBlockTxs_ok {db : UnspentDB} {nHeight : Nat} {vtx : List CTransaction}
    {view view' : CBlockView} {vTxContxt vTxContxt' : List CTxContxt} {nTotalFee nTotalFee' : Int}
    (h : addBlockTxs params db nHeight vtx (view, vTxContxt, nTotalFee) =
      .ok (view', vTxContxt', nTotalFee')) :
    ∃ cs : List CTxContxt, cs.length = vtx.length ∧ vTxContxt' = vTxContxt ++ cs ∧
      view' = (vtx.zip cs).foldl
        (fun v e => v.addTx (e.1.getHash params.crypto) e.1 e.2.destIn e.2.getValueIn) view ∧
      nTotalFee' = nTotalFee + (vtx.map (·.nTxFee)).sum := by
  induction vtx generalizing view vTxContxt nTotalFee with
  | nil =>
    cases h
    exact ⟨[], rfl, by simp, rfl, by simp⟩
  | cons tx vtx ih =>
    simp only [addBlockTxs] at h
    cases hc : getTxContxt db view tx with
    | error err => simp [hc] at h
    | ok txContxt =>
      simp only [hc] at h
      -- a transaction the pool holds skips `VerifyBlockTx`; either way the loop goes on
      split_ifs at h <;>
      · obtain ⟨cs, hlen, hcs, hview, hfee⟩ := ih h
        exact ⟨txContxt :: cs, by simp [hlen], by simp [hcs], by simp [hview], by simp [hfee, add_assoc]⟩

/-- The checks of `AddNewBlock` before it stores anything: the block is new
and valid, its previous block is known and accepts it, and its transactions
resolve one after another in a view at the previous block, with fees and
reward covering the mint. The result is that view and the contexts. -/
def checkNewBlock (base : CBlockBase) (block : CBlock) : Except MvErr (CBlockView × List CTxContxt) :=
  let crypto := params.crypto
  let hash := block.getHash crypto
  if (base.mapIndex.find hash).isSome then .error MV_ERR_ALREADY_HAVE
  else
    let err := block.validateBlock crypto params.hashGenesis params.nNetTime
    if err ≠ MV_OK then .error err
    else
      match base.mapIndex.find block.hashPrev with
      | none => .error MV_ERR_SYS_STORAGE_ERROR
      | some pIndexPrev =>
        let chain := CBlockBase.chainOf base.mapIndex (2 * base.mapIndex.size + 1) pIndexPrev
        match params.verifyBlock hash block chain with
        | .error err => .error err
        | .ok nReward =>
          match base.getBlockView crypto block.hashPrev with
          | none => .error MV_ERR_SYS_STORAGE_ERROR
          | some view =>
            let view := if block.isVacant then view
              else view.addTx (block.txMint.getHash crypto) block.txMint CDestination.null 0
            match addBlockTxs params base.dbUnspent pIndexPrev.nHeight block.vtx (view, [], 0) with
            | .error err => .error err
            | .ok (view, vTxContxt, nTotalFee) =>
              if block.txMint.nAmount > nTotalFee + nReward then .error MV_ERR_BLOCK_TRANSACTIONS_INVALID
              else .ok (view, vTxContxt)

theorem checkNewBlock_ok {base : CBlockBase} {block : CBlock} {view : CBlockView}
    {vTxContxt : List CTxContxt} (h : checkNewBlock params base block = .ok (view, vTxContxt)) :
    block.validateBlock params.crypto params.hashGenesis params.nNetTime = MV_OK ∧
      vTxContxt.length = block.vtx.length ∧
      ∃ viewPrev, base.getBlockView params.crypto block.hashPrev = some viewPrev ∧
        view = (block.vtx.zip vTxContxt).foldl
          (fun v e => v.addTx (e.1.getHash params.crypto) e.1 e.2.destIn e.2.getValueIn)
          (if block.isVacant then viewPrev
            else viewPrev.addTx (block.txMint.getHash params.crypto) block.txMint CDestination.null 0) := by
  unfold checkNewBlock at h
  simp only at h
  split at h
  next => cases h
  split at h
  next => cases h
  next herr =>
  split at h
  next => cases h
  next pIndexPrev hprev =>
  split at h
  next => cases h
  next nReward hverify =>
  split at h
  next => cases h
  next viewPrev hviewPrev =>
  split at h
  next => cases h
  next view' vTxContxt' nTotalFee hadd =>
  split_ifs at h with hmint
  cases h
  obtain ⟨cs, hlen, hcs, hview, -⟩ := addBlockTxs_ok params hadd
  refine ⟨not_not.mp herr, by simp [hcs, hlen], viewPrev, hviewPrev, ?_⟩
  simp [hview, hcs]

/-- `AddNewBlock(block, update)` on the store of the block's fork: the store
after it, and the update for the pool when the block's chain outweighs the
fork's and the view is committed. A store that cannot read back the blocks
of the change keeps the commit and reports the error. -/
def addNewBlock (base : CBlockBase) (block : CBlock) :
    CBlockBase × Except MvErr (Option TxPool.CWorldLineUpdate) :=
  match checkNewBlock params base block with
  | .error err => (base, .error err)
  | .ok (view, vTxContxt) =>
    let hash := block.getHash params.crypto
    match base.addNew params.crypto hash ⟨block, vTxContxt⟩ with
    | none => (base, .error MV_ERR_SYS_STORAGE_ERROR)
    | some (stored, pIndexNew) =>
      let fuel := 2 * stored.mapIndex.size + 1
      let pIndexFork := stored.mapIndex.find stored.hashLast
      let outweighed := match pIndexFork with
        | some fork => decide (fork.nChainTrust > pIndexNew.nChainTrust) ||
            (fork.nChainTrust == pIndexNew.nChainTrust &&
              !CBlockBase.isEquivalent stored.mapIndex fuel pIndexNew fork)
        | none => false
      if outweighed then (stored, .ok none)
      else
        let committed := stored.commitBlockView view hash
        match committed.getBlockChanges fuel (some hash) (pIndexFork.map (·.hash)) [] [] with
        | none => (committed, .error MV_ERR_SYS_STORAGE_ERROR)
        | some (vBlockAddNew, vBlockRemove) =>
          (committed, .ok (some ⟨base.hashFork, pIndexNew.nHeight, view.getTxUpdated,
            vBlockAddNew, vBlockRemove⟩))

theorem addNewBlock_cases (base : CBlockBase) (block : CBlock) :
    (∃ err, addNewBlock params base block = (base, .error err)) ∨
    ∃ view vTxContxt stored pIndexNew,
      checkNewBlock params base block = .ok (view, vTxContxt) ∧
      base.addNew params.crypto (block.getHash params.crypto) ⟨block, vTxContxt⟩ =
        some (stored, pIndexNew) ∧
      (addNewBlock params base block = (stored, .ok none) ∨
        (addNewBlock params base block).1 =
            stored.commitBlockView view (block.getHash params.crypto) ∧
          ((addNewBlock params base block).2 = .error MV_ERR_SYS_STORAGE_ERROR ∨
            ∃ update, (addNewBlock params base block).2 = .ok (some update))) := by
  unfold addNewBlock
  cases hcheck : checkNewBlock params base block with
  | error err => exact .inl ⟨err, rfl⟩
  | ok r =>
    obtain ⟨view, vTxContxt⟩ := r
    dsimp only
    cases hadd : base.addNew params.crypto (block.getHash params.crypto) ⟨block, vTxContxt⟩ with
    | none => exact .inl ⟨MV_ERR_SYS_STORAGE_ERROR, rfl⟩
    | some p =>
      obtain ⟨stored, pIndexNew⟩ := p
      refine .inr ⟨view, vTxContxt, stored, pIndexNew, rfl, hadd, ?_⟩
      dsimp only
      -- a lighter chain keeps the fork; a commit may still fail to read the change back
      split_ifs
      · exact .inl rfl
      · split
        · exact .inr ⟨rfl, .inl rfl⟩
        · exact .inr ⟨rfl, .inr ⟨_, rfl⟩⟩

theorem addNewBlock_error_keeps_base {base : CBlockBase} {block : CBlock} {err : MvErr}
    (h : (addNewBlock params base block).2 = .error err) (hstorage : err ≠ MV_ERR_SYS_STORAGE_ERROR) :
    (addNewBlock params base block).1 = base := by
  rcases addNewBlock_cases params base block with
    ⟨e, he⟩ | ⟨view, vTxContxt, stored, pIndexNew, -, -, hr | ⟨-, hr | ⟨update, hr⟩⟩⟩
  · rw [he]
  · rw [hr] at h
    cases h
  · rw [hr] at h
    exact absurd (Except.error.inj h).symm hstorage
  · rw [hr] at h
    cases h

theorem addNewBlock_ok {base : CBlockBase} {block : CBlock}
    {update : Option TxPool.CWorldLineUpdate} (h : (addNewBlock params base block).2 = .ok update) :
    ((addNewBlock params base block).1.mapIndex.find (block.getHash params.crypto)).isSome ∧
      (∃ vTxContxt, vTxContxt.length = block.vtx.length ∧
        (addNewBlock params base block).1.tsBlock (block.getHash params.crypto) = some ⟨block, vTxContxt⟩) ∧
      (update.isSome → (addNewBlock params base block).1.hashLast = block.getHash params.crypto) := by
  rcases addNewBlock_cases params base block with
    ⟨e, he⟩ | ⟨view, vTxContxt, stored, pIndexNew, hcheck, hadd, hr⟩
  · rw [he] at h
    cases h
  obtain ⟨-, hlen, -⟩ := checkNewBlock_ok params hcheck
  obtain ⟨hfind, hblock, -⟩ := CBlockBase.addNew_eq_some hadd
  rcases hr with hr | ⟨hbase, hr | ⟨update', hr⟩⟩
  · rw [hr] at h ⊢
    cases h
    exact ⟨by simp [hfind], ⟨vTxContxt, hlen, hblock⟩, by simp⟩
  · rw [hr] at h
    cases h
  · rw [hr] at h
    cases h
    rw [hbase]
    exact ⟨by simp [hfind], ⟨vTxContxt, hlen, by simpa using hblock⟩, fun _ => rfl⟩

theorem addNewBlock_wellFormed {base : CBlockBase} (hwf : base.WellFormed) (block : CBlock) :
    (addNewBlock params base block).1.WellFormed := by
  rcases addNewBlock_cases params base block with
    ⟨e, he⟩ | ⟨view, vTxContxt, stored, pIndexNew, -, hadd, hr | ⟨hbase, -⟩⟩
  · rw [he]
    exact hwf
  · rw [hr]
    exact CBlockBase.addNew_wellFormed hwf hadd
  · -- the commit moves the last block to the one just filed
    have hstored := CBlockBase.addNew_wellFormed hwf hadd
    rw [hbase]
    exact CBlockBase.commitBlockView_wellFormed hstored (by simp [(CBlockBase.addNew_eq_some hadd).1])

/-- The store after the world line is handed blocks one after another, each
with what `AddNewBlock` sees at its time. -/
def addNewBlocks (base : CBlockBase) (steps : List (Params × CBlock)) : CBlockBase :=
  steps.foldl (fun base step => (addNewBlock step.1 base step.2).1) base

theorem addNewBlocks_wellFormed {base : CBlockBase} (hwf : base.WellFormed)
    (steps : List (Params × CBlock)) : (addNewBlocks base steps).WellFormed := by
  induction steps generalizing base with
  | nil => exact hwf
  | cons step steps ih => exact ih (addNewBlock_wellFormed step.1 hwf step.2)

theorem wellFormed_of_initiate (crypto : Crypto) (hashGenesis : Nat) (blockGenesis : CBlock)
    (steps : List (Params × CBlock)) :
    (addNewBlocks (CBlockBase.initiate crypto hashGenesis blockGenesis) steps).WellFormed :=
  addNewBlocks_wellFormed (CBlockBase.initiate_wellFormed crypto hashGenesis blockGenesis) steps

/-- `GetBlockLocation` and `GetTxUnspent` of the world line, as the pool
asks them of a fork's store. -/
def toWorldLine (base : CBlockBase) : TxPool.IWorldLine :=
  ⟨fun hashBlock => (base.mapIndex.find hashBlock).map fun idx => (base.hashFork, idx.nHeight),
    fun hashFork => if hashFork = base.hashFork then some base.dbUnspent else none⟩

set_option maxRecDepth 4000 in
/-- Two blocks in a row with one and the same work mint, then a branch from
the first of them that outweighs the second: the reorganisation takes the
mint's output out of the fork's unspent outputs, though the new chain, replayed
from its genesis block, still has it. -/
theorem addNewBlock_reorg_erases_repeated_mint :
    let crypto : Crypto :=
      ⟨fun bs => LittleEndian.decode bs % 1000003, fun _ _ _ => true, fun _ _ _ _ => none⟩
    let dest := CDestination.ofPubKey 1
    let mint (nTime hashAnchor : Nat) : CTransaction :=
      ⟨1, CTransaction.TX_WORK, nTime, 0, hashAnchor, [], dest, 15 * COIN, 0, [], []⟩
    let proof (nBits : UInt8) : List UInt8 := [1, nBits] ++ List.replicate 32 0
    let genesis : CBlock := ⟨1, CBlock.BLOCK_GENESIS, 0, 0, 0, [],
      ⟨1, CTransaction.TX_GENESIS, 0, 0, 0, [], dest, 1000, 0, [], []⟩, [], []⟩
    let hashGenesis := genesis.getHash crypto
    let params : Params := ⟨crypto, hashGenesis, 1000,
      fun _ block chain => verifyPrimaryBlock crypto none block chain, fun _ => false⟩
    let b1 : CBlock :=
      ⟨1, CBlock.BLOCK_PRIMARY, 60, hashGenesis, 0, proof 20, mint 60 hashGenesis, [], []⟩
    let b2 : CBlock :=
      ⟨1, CBlock.BLOCK_PRIMARY, 120, b1.getHash crypto, 0, proof 21, mint 60 hashGenesis, [], []⟩
    let n1 : CBlock := ⟨1, CBlock.BLOCK_PRIMARY, 121, b1.getHash crypto, 0, proof 21,
      mint 121 (b1.getHash crypto), [], []⟩
    let n2 : CBlock := ⟨1, CBlock.BLOCK_PRIMARY, 180, n1.getHash crypto, 0, proof 22,
      mint 180 (n1.getHash crypto), [], []⟩
    let out : CTxOutPoint := ⟨(mint 60 hashGenesis).getHash crypto, 0⟩
    let r1 := addNewBlock params (CBlockBase.initiate crypto hashGenesis genesis) b1
    let r2 := addNewBlock params r1.1 b2
    let r3 := addNewBlock params r2.1 n1
    let r4 := addNewBlock params r3.1 n2
    r1.2.isOk ∧ r2.2.isOk ∧ r3.2.isOk ∧ r4.2.isOk ∧
      r4.1.hashLast = n2.getHash crypto ∧
      r4.1.dbUnspent out = none ∧
      replayChain (CTransaction.getHash crypto) [genesis, b1, n1, n2] out =
        some ⟨dest, 15 * COIN, 60, 0⟩ := by
  decide

end Multiverse.WorldLine
