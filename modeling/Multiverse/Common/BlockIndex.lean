import Multiverse.Common.Serialize

/-! # Block indices

`CBlockIndex` of `common/block.h`: what storage keeps in memory of every
block. The pointers to the previous block and the fork origin are block
hashes here; the storage looks them up. The random beacon and the disk
position are left out.
-/

namespace Multiverse

namespace CBlock

/-- `GetBlockMint()`: the mint amount less the fees of the transactions. -/
def getBlockMint (b : CBlock) : Int := b.txMint.nAmount - (b.vtx.map (·.nTxFee)).sum

/-- `GetSerializedProofOfWorkData`: the header fields a proof of work hashes. -/
def serializedProofOfWorkData (b : CBlock) : List UInt8 :=
  LittleEndian.encode 2 b.nVersion ++ LittleEndian.encode 2 b.nType ++
    LittleEndian.encode 4 b.nTimeStamp ++ LittleEndian.encode 32 b.hashPrev ++
    serializeBytes b.vchProof

/-- `GetHash`: the digest of the header and the mint. -/
def getHash (crypto : Crypto) (b : CBlock) : Nat :=
  crypto.cryptoHash (LittleEndian.encode 2 b.nVersion ++ LittleEndian.encode 2 b.nType ++
    LittleEndian.encode 4 b.nTimeStamp ++ LittleEndian.encode 32 b.hashPrev ++
    LittleEndian.encode 32 b.hashMerkle ++ serializeBytes b.vchProof ++ b.txMint.serialize)

end CBlock

/-- `CProofOfHashWorkCompact`: the algorithm, the bits and the nonce, in the
last 34 bytes of a block's proof. -/
structure CProofOfHashWorkCompact where
  nAlgo : Nat
  nBits : Nat
  nNonce : Nat
  deriving DecidableEq, Repr

def PROOFHASHWORK_SIZE : Nat := 34

/-- `CProofOfHashWorkCompact::Load`, on a proof of at least 34 bytes. -/
def CProofOfHashWorkCompact.load (vchProof : List UInt8) : CProofOfHashWorkCompact :=
  let p := vchProof.drop (vchProof.length - PROOFHASHWORK_SIZE)
  ⟨(p.headD 0).toNat, (p.getD 1 0).toNat, LittleEndian.decode (p.drop 2)⟩

structure CBlockIndex where
  hash : Nat
  pPrev : Option Nat
  txidMint : Nat
  nMintType : Nat
  nVersion : Nat
  nType : Nat
  nTimeStamp : Nat
  nHeight : Nat
  nChainTrust : Nat
  nMoneySupply : Int
  nProofAlgo : Nat
  nProofBits : Nat
  deriving DecidableEq, Repr

namespace CBlockIndex

def isOrigin (p : CBlockIndex) : Bool := p.nType >>> 15 != 0

def isPrimary (p : CBlockIndex) : Bool := p.nType &&& 1 != 0

def isExtended (p : CBlockIndex) : Bool := p.nType == CBlock.BLOCK_EXTENDED

def isVacant (p : CBlockIndex) : Bool := p.nType == CBlock.BLOCK_VACANT

def isProofOfWork (p : CBlockIndex) : Bool := p.nMintType == CTransaction.TX_WORK

/-- `CBlockIndex(block, nFile, nOffset)`, with the hash `phashBlock` points to:
no previous block yet, and the proof's algorithm and bits for a work mint. -/
def ofBlock (crypto : Crypto) (hash : Nat) (block : CBlock) : CBlockIndex :=
  let isWork := block.txMint.nType == CTransaction.TX_WORK
  let proof := CProofOfHashWorkCompact.load block.vchProof
  let hasProof := isWork && decide (PROOFHASHWORK_SIZE ≤ block.vchProof.length)
  { hash := hash
    pPrev := none
    txidMint := if block.isVacant then 0 else block.txMint.getHash crypto
    nMintType := block.txMint.nType
    nVersion := block.nVersion
    nType := block.nType
    nTimeStamp := block.nTimeStamp
    nHeight := 0
    nChainTrust := 0
    nMoneySupply := 0
    nProofAlgo := if hasProof then proof.nAlgo else 0
    nProofBits := if hasProof then proof.nBits else 0 }

/-- The links and sums `AddNewIndex` sets from the previous index, when there is one. -/
def linkPrev (p : CBlockIndex) (block : CBlock) (pIndexPrev : Option CBlockIndex) : CBlockIndex :=
  match pIndexPrev with
  | none => { p with nMoneySupply := block.getBlockMint, nChainTrust := block.getBlockTrust }
  | some prev =>
    { p with
      pPrev := some prev.hash
      nHeight := prev.nHeight + (if p.isExtended then 0 else 1)
      nMoneySupply := block.getBlockMint + prev.nMoneySupply
      nChainTrust := block.getBlockTrust + prev.nChainTrust }

@[simp] theorem linkPrev_hash (p : CBlockIndex) (block : CBlock) (prev : Option CBlockIndex) :
    (p.linkPrev block prev).hash = p.hash := by
  cases prev <;> rfl

theorem pPrev_linkPrev_ofBlock (crypto : Crypto) (hash : Nat) (block : CBlock)
    (prev : Option CBlockIndex) :
    ((ofBlock crypto hash block).linkPrev block prev).pPrev = prev.map (·.hash) := by
  cases prev <;> rfl

end CBlockIndex

end Multiverse
