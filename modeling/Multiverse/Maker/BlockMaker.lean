import Multiverse.WorldLine.AddBlock

/-! # Assembling a proof-of-work block

`CBlockMaker` of `src/blockmaker.cpp` for a primary block on the proof-of-work
path: `PrepareBlock` lays out the header, `CreateProofOfWorkBlock` sets the
work mint and the proof, takes the time and nonce the hash search found,
fills the block from the pool (`ArrangeBlockTx`) and signs it.

The search and the signing key are outside the model: the profile signs a
hash, and the search's result is an argument.
-/

namespace Multiverse.Maker

open Storage WorldLine TxPool

/-- What `CBlockMakerProfile` gives the proof-of-work path: the algorithm, the
mint's destination, the size `GetSignatureSize` reserves and the signer. -/
structure CBlockMakerProfile where
  nAlgo : Nat
  destMint : CDestination
  nSignatureSize : Nat
  sign : Nat → List UInt8

/-- `CProofOfSecretShare::Save`: the weight byte, then the agreement. -/
def saveProofOfSecretShare (nWeight nAgreement : Nat) : List UInt8 :=
  UInt8.ofNat nWeight :: LittleEndian.encode 32 nAgreement

/-- `PrepareBlock(block, hashPrev, nPrevTime, nPrevHeight, agreement)`, where
`vchConsensusProof` is what the consensus appends for a non-zero agreement. -/
def prepareBlock (hashPrev nPrevTime : Nat) (agreement : CDelegateAgreement)
    (vchConsensusProof : List UInt8) : CBlock :=
  let vchProof := saveProofOfSecretShare agreement.nWeight agreement.nAgreement
  ⟨1, CBlock.BLOCK_PRIMARY, nPrevTime + 60, hashPrev, 0,
    if agreement.nAgreement ≠ 0 then vchProof ++ vchConsensusProof else vchProof,
    CTransaction.null, [], []⟩

/-- `CBlockMaker::ArrangeBlockTx(block, hashFork, profile)`: the pool fills
what `MAX_BLOCK_SIZE` leaves after the block so far and the signature (a
`size_t` difference), then the merkle root is set and the fees go to the mint. -/
def arrangeBlockTx (crypto : Crypto) (pool : CTxPool) (hashFork nSignatureSize : Nat)
    (block : CBlock) : CBlock :=
  let nMaxTxSize := (((MAX_BLOCK_SIZE : Int) - block.getSerializeSize - nSignatureSize) % 2 ^ 64).toNat
  let (vtx, nTotalTxFee) := pool.arrangeBlockTx hashFork block.getBlockTime nMaxTxSize block.vtx
  let block := { block with vtx := vtx }
  { block with
    hashMerkle := block.buildMerkleTree crypto
    txMint := { block.txMint with nAmount := block.txMint.nAmount + nTotalTxFee } }

theorem arrangeBlockTx_appends (crypto : Crypto) (pool : CTxPool) (hashFork nSignatureSize : Nat)
    (block : CBlock) :
    let made := arrangeBlockTx crypto pool hashFork nSignatureSize block
    ∃ cs : List CTransaction, made.vtx = block.vtx ++ cs ∧
      made.txMint.nAmount = block.txMint.nAmount + (cs.map (·.nTxFee)).sum ∧
      made.hashMerkle = made.buildMerkleTree crypto ∧
      made.hashPrev = block.hashPrev ∧ made.nTimeStamp = block.nTimeStamp ∧
      ∀ tx ∈ cs, tx.getTxTime ≤ block.getBlockTime := by
  intro made
  obtain ⟨cs, heq, -, -, htime⟩ := (pool.viewOf hashFork).arrangeBlockTx_spec block.vtx
    block.getBlockTime
    (((MAX_BLOCK_SIZE : Int) - block.getSerializeSize - nSignatureSize) % 2 ^ 64).toNat
  refine ⟨cs.map (·.2.2.tx), ?_, ?_, rfl, rfl, rfl, ?_⟩
  · dsimp only [made, arrangeBlockTx, CTxPool.arrangeBlockTx]
    rw [heq]
  · dsimp only [made, arrangeBlockTx, CTxPool.arrangeBlockTx]
    rw [heq, List.map_map]
    rfl
  · simp only [List.mem_map]
    rintro tx ⟨e, he, rfl⟩
    exact (htime e he).2

/-- `CreateProofOfWorkBlock(block)` on the store of the genesis fork, with the
time and nonce `CreateProofOfWork` found: the work mint takes the reward of
the previous block's target, the proof its bits, and after the pool's
transactions the profile signs the block. -/
def createProofOfWorkBlock (crypto : Crypto) (base : CBlockBase) (pool : CTxPool)
    (hashGenesis : Nat) (profile : CBlockMakerProfile) (nTime nNonce : Nat) (block : CBlock) :
    Option CBlock := do
  let pIndexPrev ← base.mapIndex.find block.hashPrev
  let chain := CBlockBase.chainOf base.mapIndex (2 * base.mapIndex.size + 1) pIndexPrev
  let (nBits, nReward) ← getProofOfWorkTarget chain profile.nAlgo
  let txMint : CTransaction := { block.txMint with
    nType := CTransaction.TX_WORK, hashAnchor := block.hashPrev, sendTo := profile.destMint,
    nAmount := nReward, nTimeStamp := nTime }
  let vchProof := block.vchProof ++ [UInt8.ofNat profile.nAlgo, UInt8.ofNat nBits.toNat] ++
    LittleEndian.encode 32 nNonce
  let block := arrangeBlockTx crypto pool hashGenesis profile.nSignatureSize
    { block with txMint := txMint, vchProof := vchProof, nTimeStamp := nTime }
  return { block with vchSig := profile.sign (block.getHash crypto) }

theorem createProofOfWorkBlock_ok {crypto : Crypto} {base : CBlockBase} {pool : CTxPool}
    {hashGenesis : Nat} {profile : CBlockMakerProfile} {nTime nNonce : Nat} {block made : CBlock}
    (h : createProofOfWorkBlock crypto base pool hashGenesis profile nTime nNonce block = some made) :
    made.hashPrev = block.hashPrev ∧ made.nTimeStamp = nTime ∧
      made.hashMerkle = made.buildMerkleTree crypto ∧
      ∃ pIndexPrev nBits nReward cs, base.mapIndex.find block.hashPrev = some pIndexPrev ∧
        getProofOfWorkTarget (CBlockBase.chainOf base.mapIndex (2 * base.mapIndex.size + 1) pIndexPrev)
          profile.nAlgo = some (nBits, nReward) ∧
        made.vtx = block.vtx ++ cs ∧ made.txMint.nAmount = nReward + (cs.map (·.nTxFee)).sum ∧
        ∀ tx ∈ cs, tx.getTxTime ≤ nTime := by
  unfold createProofOfWorkBlock at h
  simp only [Option.bind_eq_bind, Option.bind_eq_some_iff, Option.pure_def, Option.some.injEq] at h
  obtain ⟨pIndexPrev, hprev, ⟨nBits, nReward⟩, htarget, rfl⟩ := h
  obtain ⟨cs, hvtx, hmint, hmerkle, hhashPrev, htime, hcs⟩ :=
    arrangeBlockTx_appends crypto pool hashGenesis profile.nSignatureSize
      { block with
        txMint := { block.txMint with
          nType := CTransaction.TX_WORK, hashAnchor := block.hashPrev, sendTo := profile.destMint,
          nAmount := nReward, nTimeStamp := nTime }
        vchProof := block.vchProof ++ [UInt8.ofNat profile.nAlgo, UInt8.ofNat nBits.toNat] ++
          LittleEndian.encode 32 nNonce
        nTimeStamp := nTime }
  exact ⟨hhashPrev, htime, hmerkle, pIndexPrev, nBits, nReward, cs, hprev, htarget, hvtx, hmint, hcs⟩

theorem createProofOfWorkBlock_mint {crypto : Crypto} {base : CBlockBase} {pool : CTxPool}
    {hashGenesis : Nat} {profile : CBlockMakerProfile} {nTime nNonce hashPrev nPrevTime : Nat}
    {agreement : CDelegateAgreement} {vchConsensusProof : List UInt8} {made : CBlock}
    (h : createProofOfWorkBlock crypto base pool hashGenesis profile nTime nNonce
      (prepareBlock hashPrev nPrevTime agreement vchConsensusProof) = some made) :
    made.txMint.nAmount = getProofOfWorkReward + (made.vtx.map (·.nTxFee)).sum := by
  obtain ⟨-, -, -, pIndexPrev, nBits, nReward, cs, -, htarget, hvtx, hmint, -⟩ :=
    createProofOfWorkBlock_ok h
  have hnil : (prepareBlock hashPrev nPrevTime agreement vchConsensusProof).vtx = [] := rfl
  rw [hmint, hvtx, hnil, List.nil_append, getProofOfWorkTarget_reward htarget]

set_option maxRecDepth 4000 in
/-- A parent in a block, a child pushed into the pool, and a heavier branch
without the block: the pool takes the parent back after the child, and the
work block the maker assembles on the new tip lists the child first. It
passes `ValidateBlock`, but `AddNewBlock` cannot resolve the child's input. -/
theorem createProofOfWorkBlock_child_before_parent :
    let crypto : Crypto :=
      ⟨fun bs => LittleEndian.decode bs % 1000003, fun _ _ _ => true, fun _ _ _ _ => none⟩
    let dest := CDestination.ofPubKey 1
    let mint (nTime hashAnchor : Nat) : CTransaction :=
      ⟨1, CTransaction.TX_WORK, nTime, 0, hashAnchor, [], dest, 15 * COIN, 0, [], []⟩
    let proof (nBits : UInt8) : List UInt8 := saveProofOfSecretShare 0 0 ++ [1, nBits] ++ List.replicate 32 0
    let genesis : CBlock := ⟨1, CBlock.BLOCK_GENESIS, 0, 0, 0, [],
      ⟨1, CTransaction.TX_GENESIS, 0, 0, 0, [], dest, 1000, 0, [], []⟩, [], []⟩
    let hashGenesis := genesis.getHash crypto
    let params (pool : CTxPool) : Params := ⟨crypto, hashGenesis, 170,
      fun _ block chain => verifyPrimaryBlock crypto none block chain,
      fun txid => (pool.mapTx.find txid).isSome⟩
    let parent : CTransaction := ⟨1, CTransaction.TX_TOKEN, 50, 0, hashGenesis,
      [⟨⟨genesis.txMint.getHash crypto, 0⟩⟩], dest, 890, 110, [], [1]⟩
    let b1 : CBlock := ⟨1, CBlock.BLOCK_PRIMARY, 60, hashGenesis, parent.getHash crypto, proof 20,
      mint 60 hashGenesis, [parent], []⟩
    let child : CTransaction := ⟨1, CTransaction.TX_TOKEN, 70, 0, b1.getHash crypto,
      [⟨⟨parent.getHash crypto, 0⟩⟩], dest, 780, 110, [], [1]⟩
    let c1 : CBlock := ⟨1, CBlock.BLOCK_PRIMARY, 61, hashGenesis, 0, proof 20, mint 61 hashGenesis, [], []⟩
    let c2 : CBlock := ⟨1, CBlock.BLOCK_PRIMARY, 120, c1.getHash crypto, 0, proof 21,
      mint 120 (c1.getHash crypto), [], []⟩
    let r1 := addNewBlock (params CTxPool.empty) (CBlockBase.initiate crypto hashGenesis genesis) b1
    let pushed := CTxPool.empty.push crypto (toWorldLine r1.1) child
    let r2 := addNewBlock (params pushed.1) r1.1 c1
    let r3 := addNewBlock (params pushed.1) r2.1 c2
    let pool := match r3.2 with
      | .ok (some update) => (pushed.1.synchronizeWorldLine crypto (toWorldLine r3.1) update).1
      | _ => pushed.1
    let profile : CBlockMakerProfile := ⟨1, dest, 100, fun _ => []⟩
    let made := createProofOfWorkBlock crypto r3.1 pool hashGenesis profile 175 0
      (prepareBlock (c2.getHash crypto) 120 CDelegateAgreement.empty [])
    r1.2.isOk ∧ pushed.2.isOk ∧ r2.2 = .ok none ∧ (r3.2.map Option.isSome) = .ok true ∧
      made.map (·.vtx) = some [child, parent] ∧
      made.map (·.validateBlock crypto hashGenesis 170) = some MvErr.MV_OK ∧
      made.map (fun block => (addNewBlock (params pool) r3.1 block).2) =
        some (.error MvErr.MV_ERR_MISSING_PREV) := by
  decide

end Multiverse.Maker
