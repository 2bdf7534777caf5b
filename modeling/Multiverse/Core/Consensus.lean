import Multiverse.Common.BlockIndex
import Multiverse.Core.Protocol

/-! # Proof of work and the delegated proof of stake

`CWorldLine::VerifyBlock` for a primary block and the checks of
`CMvCoreProtocol` it calls. Before the first consensus interval, and whenever
the delegates' agreement elects nobody, a primary block takes the proof of
work path: `VerifyProofOfWork` checks the bits and the hash of the last 34
bytes of the proof against the target `GetProofOfWorkTarget` computes from the
earlier work blocks. Otherwise `VerifyDelegatedProofOfStake` checks the time
and that the mint pays the first elected delegate.

The chain of indices is a list from the previous block back to the genesis
block. What `GetBlockDelegateAgreement` computes from the delegates'
published shares is an input here.
-/

namespace Multiverse

open MvErr

def BLOCK_TARGET_SPACING : Int := 60
def PROOF_OF_WORK_DECAY_STEP : Int := BLOCK_TARGET_SPACING
def PROOF_OF_WORK_BITS_LIMIT : Int := 16
def PROOF_OF_WORK_BITS_INIT : Int := 20
def PROOF_OF_WORK_ADJUST_COUNT : Nat := 16
def PROOF_OF_WORK_ADJUST_DEBOUNCE : Int := 10
def PROOF_OF_WORK_TARGET_SPACING : Int := BLOCK_TARGET_SPACING + BLOCK_TARGET_SPACING / 2
def CM_BLAKE512 : Nat := 1
def CM_MAX : Nat := 2
def MV_CONSENSUS_DISTRIBUTE_INTERVAL : Nat := 15
def MV_CONSENSUS_ENROLL_INTERVAL : Nat := 30
def MV_CONSENSUS_INTERVAL : Nat := MV_CONSENSUS_DISTRIBUTE_INTERVAL + MV_CONSENSUS_ENROLL_INTERVAL + 1

/-- `GetProofOfWorkReward`. -/
def getProofOfWorkReward : Int := 15 * COIN

/-- `GetDelegatedProofOfStakeReward`. -/
def getDelegatedProofOfStakeReward : Int := 15 * COIN

/-- The inner `while` of `GetProofOfWorkTarget`: back to the latest work block
of the algorithm, or to the genesis block. -/
def skipToWork (nAlgo : Nat) : List CBlockIndex → List CBlockIndex
  | [] => []
  | [p] => [p]
  | p :: q :: rest =>
    if !p.isProofOfWork || p.nProofAlgo != nAlgo then skipToWork nAlgo (q :: rest) else p :: q :: rest

/-- One work block of the spacing loop, at weight `2 ^ nWIndex`: its distance
to the block before it. -/
def addSpacing (nWIndex : Nat) (p : CBlockIndex) (rest : List CBlockIndex) (acc : Int × Int) :
    Int × Int :=
  (acc.1 + ((p.nTimeStamp : Int) - ((rest.headD p).nTimeStamp : Int)) * 2 ^ nWIndex,
    acc.2 + 2 ^ nWIndex)

/-- The spacing loop of `GetProofOfWorkTarget`: the spacings of up to 16 work
blocks, the latest weighted most; the result is `(nSpacing, nWeight)`. -/
def workSpacing (nAlgo : Nat) : Nat → List CBlockIndex → Int × Int → Int × Int
  | _, [], acc => acc
  | 0, p :: rest, acc => if p.isProofOfWork then addSpacing 0 p rest acc else acc
  | n + 1, p :: rest, acc =>
    if p.isProofOfWork then workSpacing nAlgo n (skipToWork nAlgo rest) (addSpacing (n + 1) p rest acc)
    else acc

/-- `GetProofOfWorkTarget(pIndexPrev, nAlgo)`: the bits and the reward, or
`none` for an unknown algorithm or a previous block that is not primary. -/
def getProofOfWorkTarget (chain : List CBlockIndex) (nAlgo : Nat) : Option (Int × Int) :=
  match chain with
  | [] => none
  | pIndexPrev :: _ =>
    if nAlgo = 0 ∨ CM_MAX ≤ nAlgo ∨ !pIndexPrev.isPrimary then none
    else
      match skipToWork nAlgo chain with
      | [] => none
      | p :: rest =>
        if !p.isProofOfWork then some (PROOF_OF_WORK_BITS_INIT, getProofOfWorkReward)
        else
          let nBits : Int := p.nProofBits
          let (nSpacing, nWeight) := workSpacing nAlgo (PROOF_OF_WORK_ADJUST_COUNT - 1) (p :: rest) (0, 0)
          let nSpacing := nSpacing.tdiv nWeight
          let nBits :=
            if nSpacing > PROOF_OF_WORK_TARGET_SPACING + PROOF_OF_WORK_ADJUST_DEBOUNCE ∧
                nBits > PROOF_OF_WORK_BITS_LIMIT then nBits - 1
            else if nSpacing < PROOF_OF_WORK_TARGET_SPACING - PROOF_OF_WORK_ADJUST_DEBOUNCE then nBits + 1
            else nBits
          some (nBits, getProofOfWorkReward)

theorem getProofOfWorkTarget_reward {chain : List CBlockIndex} {nAlgo : Nat} {nBits nReward : Int}
    (h : getProofOfWorkTarget chain nAlgo = some (nBits, nReward)) :
    nReward = getProofOfWorkReward := by
  unfold getProofOfWorkTarget at h
  split at h
  · cases h
  split_ifs at h
  split at h
  · cases h
  split_ifs at h
  · cases h
    rfl
  · cases h
    rfl

/-- `GetProofOfWorkRunTimeBits`: one bit more for a block within the target
spacing, and one bit less for each decay step beyond it, down to the limit. -/
def getProofOfWorkRunTimeBits (nBits nTime nPrevTime : Int) : Int :=
  if nTime - nPrevTime < BLOCK_TARGET_SPACING then nBits + 1
  else max (nBits - (nTime - nPrevTime - BLOCK_TARGET_SPACING).tdiv PROOF_OF_WORK_DECAY_STEP)
    PROOF_OF_WORK_BITS_LIMIT

/-- `VerifyProofOfWork(block, pIndexPrev, nReward)`: the reward, or the error. -/
def verifyProofOfWork (crypto : Crypto) (block : CBlock) (chain : List CBlockIndex) :
    Except MvErr Int :=
  match chain with
  | [] => .error MV_ERR_BLOCK_PROOF_OF_WORK_INVALID
  | pIndexPrev :: _ =>
    if block.vchProof.length < PROOFHASHWORK_SIZE then .error MV_ERR_BLOCK_PROOF_OF_WORK_INVALID
    else if block.nTimeStamp < pIndexPrev.nTimeStamp then .error MV_ERR_BLOCK_TIMESTAMP_OUT_OF_RANGE
    else
      let proof := CProofOfHashWorkCompact.load block.vchProof
      match getProofOfWorkTarget chain proof.nAlgo with
      | none => .error MV_ERR_BLOCK_PROOF_OF_WORK_INVALID
      | some (nBits, nReward) =>
        if nBits ≠ proof.nBits ∨ proof.nAlgo ≠ CM_BLAKE512 then .error MV_ERR_BLOCK_PROOF_OF_WORK_INVALID
        else
          let hashTarget := (2 ^ 256 - 1) >>>
            (getProofOfWorkRunTimeBits nBits block.nTimeStamp pIndexPrev.nTimeStamp).toNat
          if crypto.cryptoHash block.serializedProofOfWorkData > hashTarget then
            .error MV_ERR_BLOCK_PROOF_OF_WORK_INVALID
          else .ok nReward

/-- `CDelegateAgreement`: the agreed value, its weight and the elected delegates. -/
structure CDelegateAgreement where
  nAgreement : Nat
  nWeight : Nat
  vBallot : List CDestination
  deriving DecidableEq, Repr

/-- `CDelegateAgreement()` after `Clear`. -/
def CDelegateAgreement.empty : CDelegateAgreement := ⟨0, 0, []⟩

def CDelegateAgreement.isProofOfWork (a : CDelegateAgreement) : Bool := a.vBallot.isEmpty

/-- `VerifyDelegatedProofOfStake(block, pIndexPrev, agreement, nReward)`. -/
def verifyDelegatedProofOfStake (block : CBlock) (pIndexPrev : CBlockIndex)
    (agreement : CDelegateAgreement) : Except MvErr Int :=
  if (block.nTimeStamp : Int) < pIndexPrev.nTimeStamp + BLOCK_TARGET_SPACING ∨
      (block.nTimeStamp : Int) ≥ pIndexPrev.nTimeStamp + BLOCK_TARGET_SPACING * 3 / 2 then
    .error MV_ERR_BLOCK_TIMESTAMP_OUT_OF_RANGE
  else if some block.txMint.sendTo ≠ agreement.vBallot.head? then
    .error MV_ERR_BLOCK_PROOF_OF_STAKE_INVALID
  else .ok getDelegatedProofOfStakeReward

/-- `VerifyBlock` of a primary block: the reward, or the error. Before the
first consensus interval the agreement is empty; after it, `agreement` is
what `GetBlockDelegateAgreement` computes, `none` when it fails. -/
def verifyPrimaryBlock (crypto : Crypto) (agreement : Option CDelegateAgreement) (block : CBlock)
    (chain : List CBlockIndex) : Except MvErr Int :=
  match chain with
  | [] => .error MV_ERR_BLOCK_INVALID_FORK
  | pIndexPrev :: _ =>
    if block.isOrigin then .error MV_ERR_BLOCK_INVALID_FORK
    else if !pIndexPrev.isPrimary then .error MV_ERR_BLOCK_INVALID_FORK
    else
      let agreement :=
        if pIndexPrev.nHeight + 1 < MV_CONSENSUS_INTERVAL then some CDelegateAgreement.empty
        else agreement
      match agreement with
      | none => .error MV_ERR_BLOCK_PROOF_OF_STAKE_INVALID
      | some a =>
        if a.isProofOfWork then verifyProofOfWork crypto block chain
        else verifyDelegatedProofOfStake block pIndexPrev a

/-- A primary block right after the genesis block takes the proof of work
path. Its mint is a stake mint and the first byte of its proof is 255: the
work checks, but `GetBlockTrust` gives 255 where a work block gives 1, and
`AddNewIndex` adds 255 to the chain trust. -/
theorem verifyPrimaryBlock_trust_from_proof_byte :
    let crypto : Crypto := ⟨fun _ => 0, fun _ _ _ => false, fun _ _ _ _ => none⟩
    let genesis : CBlockIndex :=
      ⟨1, none, 0, CTransaction.TX_GENESIS, 1, CBlock.BLOCK_GENESIS, 0, 0, 1, 0, 0, 0⟩
    let block : CBlock := ⟨1, CBlock.BLOCK_PRIMARY, 60, 1, 0, [255, 1, 20] ++ List.replicate 32 0,
      ⟨1, CTransaction.TX_STAKE, 60, 0, 0, [], .ofPubKey 9, 100, 0, [], []⟩, [], []⟩
    verifyPrimaryBlock crypto none block [genesis] = .ok getProofOfWorkReward ∧
      block.getBlockTrust = 255 ∧
      ((CBlockIndex.ofBlock crypto 2 block).linkPrev block (some genesis)).nChainTrust = 256 := by
  decide

end Multiverse
