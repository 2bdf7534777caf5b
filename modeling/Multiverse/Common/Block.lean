import Multiverse.Common.Transaction

/-! # Blocks

The data model of `common/block.h`: a block with its mint transaction and its
transactions, the stored form `CBlockEx` that adds one context per
transaction, and the trust a block adds to its chain.
-/

namespace Multiverse

structure CBlock where
  nVersion : Nat
  nType : Nat
  nTimeStamp : Nat
  hashPrev : Nat
  hashMerkle : Nat
  vchProof : List UInt8
  txMint : CTransaction
  vtx : List CTransaction
  vchSig : List UInt8
  deriving DecidableEq, Repr

namespace CBlock

def BLOCK_GENESIS : Nat := 0xffff
def BLOCK_ORIGIN : Nat := 0xff00
def BLOCK_PRIMARY : Nat := 0x0001
def BLOCK_SUBSIDIARY : Nat := 0x0002
def BLOCK_EXTENDED : Nat := 0x0004
def BLOCK_VACANT : Nat := 0x0008

def isOrigin (b : CBlock) : Bool := b.nType >>> 15 != 0

def isPrimary (b : CBlock) : Bool := b.nType &&& 1 != 0

def isExtended (b : CBlock) : Bool := b.nType == BLOCK_EXTENDED

def isVacant (b : CBlock) : Bool := b.nType == BLOCK_VACANT

def isProofOfWork (b : CBlock) : Bool := b.txMint.nType == CTransaction.TX_WORK

/-- `GetBlockTrust`: no trust for a vacant block, one for a block without proof
or with a work mint, and otherwise the first byte of the proof. -/
def getBlockTrust (b : CBlock) : Nat :=
  if b.isVacant then 0
  else if b.vchProof.isEmpty then 1
  else if b.isProofOfWork then 1
  else (b.vchProof.headD 0).toNat

def getBlockTime (b : CBlock) : Nat := b.nTimeStamp

/-- The transactions of a block in the order they take effect: the mint first. -/
def txs (b : CBlock) : List CTransaction := b.txMint :: b.vtx

end CBlock

/-- A block as storage keeps it: with one context per transaction. -/
structure CBlockEx extends CBlock where
  vTxContxt : List CTxContxt
  deriving DecidableEq, Repr

/-- The transactions of a stored block, each with its context. -/
def CBlockEx.txWithContxt (block : CBlockEx) : List (CTransaction × CTxContxt) :=
  block.vtx.mapIdx fun i tx => (tx, block.vTxContxt.getD i CTxContxt.null)

theorem CBlockEx.txWithContxt_eq_zip (block : CBlockEx)
    (h : block.vTxContxt.length = block.vtx.length) :
    block.txWithContxt = block.vtx.zip block.vTxContxt := by
  apply List.ext_getElem
  · simp [txWithContxt, h]
  · intro i h1 h2
    have hi : i < block.vTxContxt.length := by simp at h2; omega
    simp [txWithContxt, List.getElem?_eq_getElem hi]

end Multiverse
