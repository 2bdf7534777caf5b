import Multiverse.Core.Protocol
import Multiverse.Common.BlockIndex

/-! # Context-free checks of transactions and blocks

`CMvCoreProtocol::ValidateTransaction` and `ValidateBlock` of `src/core.cpp`:
what a transaction or a block must satisfy before anything is looked up.
A block's transactions are committed to by the merkle root of their hashes,
`CBlock::BuildMerkleTree`, whose levels pair neighbours and pair the last of
an odd level with itself.
-/

namespace Multiverse

open MvErr

def MAX_BLOCK_SIZE : Nat := 2000000
def MAX_TX_SIZE : Nat := MAX_BLOCK_SIZE / 20
def MAX_CLOCK_DRIFT : Int := 10 * 60

/-- The characters `binary_from_base64` takes. -/
def isBase64Char (c : UInt8) : Bool :=
  (65 ≤ c && c ≤ 90) || (97 ≤ c && c ≤ 122) || (48 ≤ c && c ≤ 57) || c == 43 || c == 47

/-- Whether `CHttpUtil::Base64Decode` succeeds: at most two `=`, all at the
end, and only base64 characters before them. -/
def base64Decode (s : List UInt8) : Bool :=
  let nPadding := s.count 61
  if nPadding != 0 && (nPadding > 2 || s.idxOf 61 != s.length - nPadding) then false
  else (s.take (s.length - nPadding)).all isBase64Char

/-- The description field of a token transaction's data: a UUID and a time
stamp take 20 bytes, then a length byte and that many bytes of base64. -/
def validateTxData (vchData : List UInt8) : MvErr :=
  if vchData.length < 21 then MV_ERR_TRANSACTION_INVALID
  else
    let szDesc := (vchData.getD 20 0).toNat
    if szDesc > 0 then
      if 20 + 1 + szDesc > vchData.length then MV_ERR_TRANSACTION_INVALID
      else if !base64Decode ((vchData.drop 21).take szDesc) then MV_ERR_TRANSACTION_INVALID
      else MV_OK
    else MV_OK

namespace CTransaction

/-- The inputs' check of `ValidateTransaction`: none is null or beyond output
1, and none repeats. -/
def validateInputs : List CTxIn → List CTxOutPoint → MvErr
  | [], _ => MV_OK
  | txin :: vInput, setInOutPoints =>
    if txin.prevout.isNull || txin.prevout.n > 1 then MV_ERR_TRANSACTION_INPUT_INVALID
    else if txin.prevout ∈ setInOutPoints then MV_ERR_TRANSACTION_INPUT_INVALID
    else validateInputs vInput (txin.prevout :: setInOutPoints)

/-- `ValidateTransaction(tx)`. The template id of the destination is compared
with the template type itself, as the source does. -/
def validateTransaction (tx : CTransaction) : MvErr :=
  let hasDesc := tx.nType == TX_TOKEN &&
    (tx.sendTo.isPubKey || (tx.sendTo.isTemplate &&
      (tx.sendTo.getTemplateId == TEMPLATE_WEIGHTED || tx.sendTo.getTemplateId == TEMPLATE_MULTISIG))) &&
    !tx.vchData.isEmpty
  let isMint := tx.nType == TX_GENESIS || tx.nType == TX_WORK || tx.nType == TX_STAKE
  if hasDesc && validateTxData tx.vchData != MV_OK then MV_ERR_TRANSACTION_INVALID
  else if tx.vInput.isEmpty && !isMint then MV_ERR_TRANSACTION_INVALID
  else if !tx.vInput.isEmpty && isMint then MV_ERR_TRANSACTION_INVALID
  else if !tx.vchSig.isEmpty && tx.isMintTx then MV_ERR_TRANSACTION_INVALID
  else if tx.sendTo.isNull then MV_ERR_TRANSACTION_OUTPUT_INVALID
  else if !moneyRange tx.nAmount then MV_ERR_TRANSACTION_OUTPUT_INVALID
  else if !moneyRange tx.nTxFee || (tx.nType != TX_TOKEN && tx.nTxFee != 0) ||
      (tx.nType == TX_TOKEN && tx.nTxFee < MIN_TX_FEE) then MV_ERR_TRANSACTION_OUTPUT_INVALID
  else if validateInputs tx.vInput [] != MV_OK then MV_ERR_TRANSACTION_INPUT_INVALID
  else if tx.serialize.length > MAX_TX_SIZE then MV_ERR_TRANSACTION_OVERSIZE
  else MV_OK

end CTransaction

namespace CBlock

/-- `CryptoHash(a, b)` of two 256-bit hashes. -/
def merkleHash (crypto : Crypto) (a b : Nat) : Nat :=
  crypto.cryptoHash (LittleEndian.encode 32 a ++ LittleEndian.encode 32 b)

/-- One level of the merkle tree from the one below. -/
def merkleLevel (crypto : Crypto) : List Nat → List Nat
  | [] => []
  | [a] => [merkleHash crypto a a]
  | a :: b :: rest => merkleHash crypto a b :: merkleLevel crypto rest

/-- The levels above `level` up to the root, with fuel. -/
def merkleRoot (crypto : Crypto) : Nat → List Nat → Nat
  | _, [] => 0
  | _, [a] => a
  | 0, _ => 0
  | fuel + 1, level => merkleRoot crypto fuel (merkleLevel crypto level)

/-- `BuildMerkleTree` (and `CalcMerkleTreeRoot`): the root over the hashes of
the transactions, zero for none. A level of `n ≥ 2` hashes has `(n + 1) / 2`
above it, so `n` rounds are more than enough. -/
def buildMerkleTree (crypto : Crypto) (b : CBlock) : Nat :=
  merkleRoot crypto b.vtx.length (b.vtx.map (·.getHash crypto))

def validateVacantBlock (b : CBlock) : MvErr :=
  if b.hashMerkle != 0 || b.txMint != CTransaction.null || !b.vtx.isEmpty then
    MV_ERR_BLOCK_TRANSACTIONS_INVALID
  else if !b.vchProof.isEmpty || !b.vchSig.isEmpty then MV_ERR_BLOCK_SIGNATURE_INVALID
  else MV_OK

/-- `CheckBlockSignature`: all but the genesis block are signed for the mint's
destination. -/
def checkBlockSignature (crypto : Crypto) (hashGenesis : Nat) (b : CBlock) : Bool :=
  if b.getHash crypto != hashGenesis then
    b.txMint.sendTo.verifyBlockSignature crypto (b.getHash crypto) b.vchSig
  else true

/-- `ValidateBlock(block)` at network time `nNetTime`. -/
def validateBlock (crypto : Crypto) (hashGenesis : Nat) (nNetTime : Int) (b : CBlock) : MvErr :=
  if (b.getBlockTime : Int) > nNetTime + MAX_CLOCK_DRIFT then MV_ERR_BLOCK_TIMESTAMP_OUT_OF_RANGE
  else if b.nType == BLOCK_EXTENDED && b.vtx.isEmpty then MV_ERR_BLOCK_TRANSACTIONS_INVALID
  else if b.nType == BLOCK_VACANT then b.validateVacantBlock
  else if !b.txMint.isMintTx || b.txMint.validateTransaction != MV_OK then
    MV_ERR_BLOCK_TRANSACTIONS_INVALID
  else if b.getSerializeSize > MAX_BLOCK_SIZE then MV_ERR_BLOCK_OVERSIZE
  else if b.nType == BLOCK_ORIGIN && !b.vtx.isEmpty then MV_ERR_BLOCK_TRANSACTIONS_INVALID
  else if b.hashMerkle != b.buildMerkleTree crypto then MV_ERR_BLOCK_TXHASH_MISMATCH
  else if !(b.vtx.map (·.getHash crypto)).Nodup then MV_ERR_BLOCK_DUPLICATED_TRANSACTION
  else if b.vtx.any (fun tx => tx.isMintTx || tx.validateTransaction != MV_OK) then
    MV_ERR_BLOCK_TRANSACTIONS_INVALID
  else if !b.checkBlockSignature crypto hashGenesis then MV_ERR_BLOCK_SIGNATURE_INVALID
  else MV_OK

end CBlock

end Multiverse
