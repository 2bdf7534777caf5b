import Multiverse.Common.Block
import Multiverse.Lib.LittleEndian

/-! # Serialization and hashes

Transactions and blocks as `CWalleveStream` writes them: fixed-width fields
little-endian, and every vector after its count in compact form. The size of
a serialization is what `GetSerializeSize` returns. The hashes of
transactions and blocks are `CryptoHash` of these bytes; `CryptoHash` and the
signature checks come from libsodium and are the parameters of `Crypto`.
-/

namespace Multiverse

open LittleEndian

/-- The primitives the code takes from libsodium through `crypto/crypto.cpp`. -/
structure Crypto where
  /-- `CryptoHash`: the 256-bit digest of a byte string. -/
  cryptoHash : List UInt8 → Nat
  /-- `CPubKey::Verify`: whether a signature of a hash checks against a key. -/
  verify : Nat → Nat → List UInt8 → Bool
  /-- `CryptoMultiVerify`: the keys of a set that took part in a signature of a
  hash with a seed, if the signature checks. -/
  multiVerify : List Nat → Nat → Nat → List UInt8 → Option (List Nat)

namespace CDestination

def encode (d : CDestination) : List UInt8 :=
  LittleEndian.encode 1 d.nPrefix ++ LittleEndian.encode 32 d.data

/-- A destination read off the front of a byte string. -/
def read (bs : List UInt8) : Option (CDestination × List UInt8) := do
  let (nPrefix, bs) ← LittleEndian.read 1 bs
  let (data, bs) ← LittleEndian.read 32 bs
  pure (⟨nPrefix, data⟩, bs)

/-- The fields fit the bytes they are written in. -/
def WellFormed (d : CDestination) : Prop := d.nPrefix < 256 ∧ d.data < 2 ^ 256

theorem read_encode_append {d : CDestination} (h : d.WellFormed) (rest : List UInt8) :
    read (d.encode ++ rest) = some (d, rest) := by
  obtain ⟨h1, h2⟩ := h
  rw [read, encode, List.append_assoc, LittleEndian.read_encode_append (by simpa using h1)]
  simp only [Option.bind_eq_bind, Option.bind_some]
  rw [LittleEndian.read_encode_append (by simpa using h2)]
  rfl

@[simp] theorem length_encode (d : CDestination) : d.encode.length = 33 := by
  simp [encode]

theorem read_eq_some {bs rest : List UInt8} {d : CDestination} (h : read bs = some (d, rest)) :
    bs = d.encode ++ rest := by
  simp only [read, Option.bind_eq_bind, Option.bind_eq_some_iff, Option.pure_def,
    Option.some.injEq] at h
  obtain ⟨⟨nPrefix, bs₁⟩, h₁, ⟨data, bs₂⟩, h₂, he⟩ := h
  obtain ⟨rfl, rfl⟩ := Prod.mk.inj he
  dsimp only at h₂ ⊢
  rw [LittleEndian.read_eq_some_encode h₁, LittleEndian.read_eq_some_encode h₂, encode,
    List.append_assoc]

end CDestination

/-- An `int64` in two's complement. -/
def serializeInt64 (n : Int) : List UInt8 := LittleEndian.encode 8 (n % 2 ^ 64).toNat

/-- A byte vector: its length, then its bytes. -/
def serializeBytes (bs : List UInt8) : List UInt8 := compactSize bs.length ++ bs

/-- A vector of records: its length, then each record. -/
def serializeList {α : Type} (f : α → List UInt8) (xs : List α) : List UInt8 :=
  compactSize xs.length ++ xs.flatMap f

def CTxOutPoint.serialize (o : CTxOutPoint) : List UInt8 :=
  LittleEndian.encode 32 o.hash ++ LittleEndian.encode 1 o.n

namespace CTransaction

/-- The fields `GetSignatureHash` hashes: all but the signature. -/
def serializeUnsigned (tx : CTransaction) : List UInt8 :=
  LittleEndian.encode 2 tx.nVersion ++ LittleEndian.encode 2 tx.nType ++
    LittleEndian.encode 4 tx.nTimeStamp ++ LittleEndian.encode 4 tx.nLockUntil ++
    LittleEndian.encode 32 tx.hashAnchor ++ serializeList (·.prevout.serialize) tx.vInput ++
    tx.sendTo.encode ++ serializeInt64 tx.nAmount ++ serializeInt64 tx.nTxFee ++
    serializeBytes tx.vchData

def serialize (tx : CTransaction) : List UInt8 := tx.serializeUnsigned ++ serializeBytes tx.vchSig

/-- `GetHash`: the time stamp in the top 32 bits over 224 bits of the digest. -/
def getHash (crypto : Crypto) (tx : CTransaction) : Nat :=
  tx.nTimeStamp * 2 ^ 224 + crypto.cryptoHash tx.serialize % 2 ^ 224

def getSignatureHash (crypto : Crypto) (tx : CTransaction) : Nat :=
  crypto.cryptoHash tx.serializeUnsigned

end CTransaction

namespace CBlock

def serialize (b : CBlock) : List UInt8 :=
  LittleEndian.encode 2 b.nVersion ++ LittleEndian.encode 2 b.nType ++
    LittleEndian.encode 4 b.nTimeStamp ++ LittleEndian.encode 32 b.hashPrev ++
    LittleEndian.encode 32 b.hashMerkle ++ serializeBytes b.vchProof ++ b.txMint.serialize ++
    serializeList CTransaction.serialize b.vtx ++ serializeBytes b.vchSig

/-- `GetSerializeSize(block)`. -/
def getSerializeSize (b : CBlock) : Nat := b.serialize.length

/-- `GetTxSerializedOffset()`: the bytes before `txMint`, the sizes of the
fixed fields and the serialized size of `vchProof`. -/
def getTxSerializedOffset (b : CBlock) : Nat := 2 + 2 + 4 + 32 + 32 + (serializeBytes b.vchProof).length

theorem drop_getTxSerializedOffset_serialize (b : CBlock) :
    b.serialize.drop b.getTxSerializedOffset =
      b.txMint.serialize ++ serializeList CTransaction.serialize b.vtx ++ serializeBytes b.vchSig := by
  have hsplit : b.serialize = (LittleEndian.encode 2 b.nVersion ++ LittleEndian.encode 2 b.nType ++
      LittleEndian.encode 4 b.nTimeStamp ++ LittleEndian.encode 32 b.hashPrev ++
      LittleEndian.encode 32 b.hashMerkle ++ serializeBytes b.vchProof) ++
      (b.txMint.serialize ++ serializeList CTransaction.serialize b.vtx ++ serializeBytes b.vchSig) := by
    simp only [serialize, List.append_assoc]
  rw [hsplit, List.drop_left' (by simp [getTxSerializedOffset]; omega)]

end CBlock

def CTxInContxt.serialize (c : CTxInContxt) : List UInt8 :=
  serializeInt64 c.nAmount ++ LittleEndian.encode 4 c.nTxTime ++ LittleEndian.encode 4 c.nLockUntil

def CTxContxt.serialize (c : CTxContxt) : List UInt8 :=
  c.destIn.encode ++ serializeList CTxInContxt.serialize c.vin

/-- A stored block: the block, then one context per transaction. -/
def CBlockEx.serialize (b : CBlockEx) : List UInt8 :=
  b.toCBlock.serialize ++ serializeList CTxContxt.serialize b.vTxContxt

/-! ## Reading back -/

/-- An `int64` read back from its two's complement. -/
def readInt64 (bs : List UInt8) : Option (Int × List UInt8) :=
  (read 8 bs).map fun p => (if p.1 < 2 ^ 63 then (p.1 : Int) else (p.1 : Int) - 2 ^ 64, p.2)

theorem readInt64_serializeInt64_append {n : Int} (h1 : -2 ^ 63 ≤ n) (h2 : n < 2 ^ 63) (rest : List UInt8) :
    readInt64 (serializeInt64 n ++ rest) = some (n, rest) := by
  have hlt : (n % 2 ^ 64).toNat < 256 ^ 8 := by omega
  rw [readInt64, serializeInt64, read_encode_append hlt, Option.map_some]
  split_ifs with h <;> congr 2 <;> omega

/-- A byte vector read back: its length, then that many bytes. -/
def readBytes (bs : List UInt8) : Option (List UInt8 × List UInt8) := do
  let (n, bs) ← readCompactSize bs
  take? n bs

theorem readBytes_serializeBytes_append {xs : List UInt8} (h : xs.length < 2 ^ 64) (rest : List UInt8) :
    readBytes (serializeBytes xs ++ rest) = some (xs, rest) := by
  rw [readBytes, serializeBytes, List.append_assoc, readCompactSize_compactSize_append h]
  exact take?_append xs rest

/-- A vector of records read back: its count, then each record. -/
def readVector {α : Type} (r : List UInt8 → Option (α × List UInt8)) (bs : List UInt8) :
    Option (List α × List UInt8) := do
  let (n, bs) ← readCompactSize bs
  readList r n bs

theorem readVector_serializeList_append {α : Type} {r : List UInt8 → Option (α × List UInt8)}
    {f : α → List UInt8} {xs : List α} (hlen : xs.length < 2 ^ 64)
    (h : ∀ x ∈ xs, ∀ rest, r (f x ++ rest) = some (x, rest)) (rest : List UInt8) :
    readVector r (serializeList f xs ++ rest) = some (xs, rest) := by
  rw [readVector, serializeList, List.append_assoc, readCompactSize_compactSize_append hlen]
  exact readList_flatMap_append h rest

def CTxOutPoint.read (bs : List UInt8) : Option (CTxOutPoint × List UInt8) := do
  let (hash, bs) ← LittleEndian.read 32 bs
  let (n, bs) ← LittleEndian.read 1 bs
  pure (⟨hash, n⟩, bs)

def CTxIn.read (bs : List UInt8) : Option (CTxIn × List UInt8) :=
  (CTxOutPoint.read bs).map fun p => (⟨p.1⟩, p.2)

theorem CTxIn.read_serialize_append {txin : CTxIn} (h1 : txin.prevout.hash < 2 ^ 256) (h2 : txin.prevout.n < 256)
    (rest : List UInt8) : CTxIn.read (txin.prevout.serialize ++ rest) = some (txin, rest) := by
  rw [CTxIn.read, CTxOutPoint.read, CTxOutPoint.serialize, List.append_assoc,
    read_encode_append (by simpa using h1)]
  simp only [Option.bind_eq_bind, Option.bind_some]
  rw [read_encode_append (by simpa using h2)]
  rfl

namespace CTransaction

/-- `fs >> tx`. -/
def read (bs : List UInt8) : Option (CTransaction × List UInt8) := do
  let (nVersion, bs) ← LittleEndian.read 2 bs
  let (nType, bs) ← LittleEndian.read 2 bs
  let (nTimeStamp, bs) ← LittleEndian.read 4 bs
  let (nLockUntil, bs) ← LittleEndian.read 4 bs
  let (hashAnchor, bs) ← LittleEndian.read 32 bs
  let (vInput, bs) ← readVector CTxIn.read bs
  let (sendTo, bs) ← CDestination.read bs
  let (nAmount, bs) ← readInt64 bs
  let (nTxFee, bs) ← readInt64 bs
  let (vchData, bs) ← readBytes bs
  let (vchSig, bs) ← readBytes bs
  pure (⟨nVersion, nType, nTimeStamp, nLockUntil, hashAnchor, vInput, sendTo, nAmount, nTxFee, vchData, vchSig⟩, bs)

/-- The fields of a transaction fit the widths the code gives them. -/
structure WellFormed (tx : CTransaction) : Prop where
  nVersion : tx.nVersion < 2 ^ 16
  nType : tx.nType < 2 ^ 16
  nTimeStamp : tx.nTimeStamp < 2 ^ 32
  nLockUntil : tx.nLockUntil < 2 ^ 32
  hashAnchor : tx.hashAnchor < 2 ^ 256
  vInput_length : tx.vInput.length < 2 ^ 64
  vInput : ∀ txin ∈ tx.vInput, txin.prevout.hash < 2 ^ 256 ∧ txin.prevout.n < 256
  sendTo : tx.sendTo.WellFormed
  nAmount : -2 ^ 63 ≤ tx.nAmount ∧ tx.nAmount < 2 ^ 63
  nTxFee : -2 ^ 63 ≤ tx.nTxFee ∧ tx.nTxFee < 2 ^ 63
  vchData : tx.vchData.length < 2 ^ 64
  vchSig : tx.vchSig.length < 2 ^ 64

theorem read_serialize_append {tx : CTransaction} (h : tx.WellFormed) (rest : List UInt8) :
    read (tx.serialize ++ rest) = some (tx, rest) := by
  have hin : ∀ txin ∈ tx.vInput, ∀ rest, CTxIn.read (txin.prevout.serialize ++ rest) = some (txin, rest) :=
    fun txin hmem rest => CTxIn.read_serialize_append (h.vInput txin hmem).1 (h.vInput txin hmem).2 rest
  unfold read
  rw [serialize, serializeUnsigned]
  simp only [List.append_assoc]
  rw [read_encode_append (by simpa using h.nVersion)]
  dsimp only [Option.bind_eq_bind, Option.bind_some]
  rw [read_encode_append (by simpa using h.nType)]
  dsimp only [Option.bind_eq_bind, Option.bind_some]
  rw [read_encode_append (by simpa using h.nTimeStamp)]
  dsimp only [Option.bind_eq_bind, Option.bind_some]
  rw [read_encode_append (by simpa using h.nLockUntil)]
  dsimp only [Option.bind_eq_bind, Option.bind_some]
  rw [read_encode_append (by simpa using h.hashAnchor)]
  dsimp only [Option.bind_eq_bind, Option.bind_some]
  rw [readVector_serializeList_append h.vInput_length hin]
  dsimp only [Option.bind_eq_bind, Option.bind_some]
  rw [CDestination.read_encode_append h.sendTo]
  dsimp only [Option.bind_eq_bind, Option.bind_some]
  rw [readInt64_serializeInt64_append h.nAmount.1 h.nAmount.2]
  dsimp only [Option.bind_eq_bind, Option.bind_some]
  rw [readInt64_serializeInt64_append h.nTxFee.1 h.nTxFee.2]
  dsimp only [Option.bind_eq_bind, Option.bind_some]
  rw [readBytes_serializeBytes_append h.vchData]
  dsimp only [Option.bind_eq_bind, Option.bind_some]
  rw [readBytes_serializeBytes_append h.vchSig]
  rfl

@[simp] theorem read_nil : read [] = none := rfl

theorem serialize_ne_nil (tx : CTransaction) : tx.serialize ≠ [] := by
  intro h
  have hlen := congrArg List.length h
  simp [serialize, serializeUnsigned] at hlen

end CTransaction

def CTxInContxt.read (bs : List UInt8) : Option (CTxInContxt × List UInt8) := do
  let (nAmount, bs) ← readInt64 bs
  let (nTxTime, bs) ← LittleEndian.read 4 bs
  let (nLockUntil, bs) ← LittleEndian.read 4 bs
  pure (⟨nAmount, nTxTime, nLockUntil⟩, bs)

def CTxContxt.read (bs : List UInt8) : Option (CTxContxt × List UInt8) := do
  let (destIn, bs) ← CDestination.read bs
  let (vin, bs) ← readVector CTxInContxt.read bs
  pure (⟨destIn, vin⟩, bs)

/-- `fs >> block`. -/
def CBlock.read (bs : List UInt8) : Option (CBlock × List UInt8) := do
  let (nVersion, bs) ← LittleEndian.read 2 bs
  let (nType, bs) ← LittleEndian.read 2 bs
  let (nTimeStamp, bs) ← LittleEndian.read 4 bs
  let (hashPrev, bs) ← LittleEndian.read 32 bs
  let (hashMerkle, bs) ← LittleEndian.read 32 bs
  let (vchProof, bs) ← readBytes bs
  let (txMint, bs) ← CTransaction.read bs
  let (vtx, bs) ← readVector CTransaction.read bs
  let (vchSig, bs) ← readBytes bs
  pure (⟨nVersion, nType, nTimeStamp, hashPrev, hashMerkle, vchProof, txMint, vtx, vchSig⟩, bs)

def CBlockEx.read (bs : List UInt8) : Option (CBlockEx × List UInt8) := do
  let (block, bs) ← CBlock.read bs
  let (vTxContxt, bs) ← readVector CTxContxt.read bs
  pure (⟨block, vTxContxt⟩, bs)

@[simp] theorem CBlockEx.read_nil : CBlockEx.read [] = none := rfl

theorem CTxOutPoint.read_serialize_append {o : CTxOutPoint} (h1 : o.hash < 2 ^ 256) (h2 : o.n < 256)
    (rest : List UInt8) : CTxOutPoint.read (o.serialize ++ rest) = some (o, rest) := by
  simp only [CTxOutPoint.read, CTxOutPoint.serialize, List.append_assoc,
    @read_encode_append 32 o.hash (by simpa using h1), @read_encode_append 1 o.n (by simpa using h2),
    Option.bind_eq_bind, Option.bind_some, Option.pure_def]

/-- The fields of an input's context fit their widths. -/
structure CTxInContxt.WellFormed (c : CTxInContxt) : Prop where
  nAmount : -2 ^ 63 ≤ c.nAmount ∧ c.nAmount < 2 ^ 63
  nTxTime : c.nTxTime < 2 ^ 32
  nLockUntil : c.nLockUntil < 2 ^ 32

theorem CTxInContxt.read_serialize_append {c : CTxInContxt} (h : c.WellFormed) (rest : List UInt8) :
    CTxInContxt.read (c.serialize ++ rest) = some (c, rest) := by
  simp only [CTxInContxt.read, CTxInContxt.serialize, List.append_assoc,
    readInt64_serializeInt64_append h.nAmount.1 h.nAmount.2,
    @read_encode_append 4 c.nTxTime (by simpa using h.nTxTime),
    @read_encode_append 4 c.nLockUntil (by simpa using h.nLockUntil),
    Option.bind_eq_bind, Option.bind_some, Option.pure_def]

structure CTxContxt.WellFormed (c : CTxContxt) : Prop where
  destIn : c.destIn.WellFormed
  vin_length : c.vin.length < 2 ^ 64
  vin : ∀ txin ∈ c.vin, txin.WellFormed

theorem CTxContxt.read_serialize_append {c : CTxContxt} (h : c.WellFormed) (rest : List UInt8) :
    CTxContxt.read (c.serialize ++ rest) = some (c, rest) := by
  have hvin : ∀ txin ∈ c.vin, ∀ rest, CTxInContxt.read (txin.serialize ++ rest) = some (txin, rest) :=
    fun txin htxin => CTxInContxt.read_serialize_append (h.vin txin htxin)
  simp only [CTxContxt.read, CTxContxt.serialize, List.append_assoc, CDestination.read_encode_append h.destIn,
    readVector_serializeList_append h.vin_length hvin, Option.bind_eq_bind, Option.bind_some, Option.pure_def]

/-- The fields of a block fit the widths the code gives them. -/
structure CBlock.WellFormed (b : CBlock) : Prop where
  nVersion : b.nVersion < 2 ^ 16
  nType : b.nType < 2 ^ 16
  nTimeStamp : b.nTimeStamp < 2 ^ 32
  hashPrev : b.hashPrev < 2 ^ 256
  hashMerkle : b.hashMerkle < 2 ^ 256
  vchProof : b.vchProof.length < 2 ^ 64
  txMint : b.txMint.WellFormed
  vtx_length : b.vtx.length < 2 ^ 64
  vtx : ∀ tx ∈ b.vtx, tx.WellFormed
  vchSig : b.vchSig.length < 2 ^ 64

theorem CBlock.read_serialize_append {b : CBlock} (h : b.WellFormed) (rest : List UInt8) :
    CBlock.read (b.serialize ++ rest) = some (b, rest) := by
  have hvtx : ∀ tx ∈ b.vtx, ∀ rest, CTransaction.read (tx.serialize ++ rest) = some (tx, rest) :=
    fun tx htx => CTransaction.read_serialize_append (h.vtx tx htx)
  simp only [CBlock.read, CBlock.serialize, List.append_assoc,
    @read_encode_append 2 b.nVersion (by simpa using h.nVersion),
    @read_encode_append 2 b.nType (by simpa using h.nType),
    @read_encode_append 4 b.nTimeStamp (by simpa using h.nTimeStamp),
    @read_encode_append 32 b.hashPrev (by simpa using h.hashPrev),
    @read_encode_append 32 b.hashMerkle (by simpa using h.hashMerkle),
    readBytes_serializeBytes_append h.vchProof, CTransaction.read_serialize_append h.txMint,
    readVector_serializeList_append h.vtx_length hvtx, readBytes_serializeBytes_append h.vchSig,
    Option.bind_eq_bind, Option.bind_some, Option.pure_def]

structure CBlockEx.WellFormed (b : CBlockEx) : Prop where
  toCBlock : b.toCBlock.WellFormed
  vTxContxt_length : b.vTxContxt.length < 2 ^ 64
  vTxContxt : ∀ c ∈ b.vTxContxt, c.WellFormed

theorem CBlockEx.read_serialize_append {b : CBlockEx} (h : b.WellFormed) (rest : List UInt8) :
    CBlockEx.read (b.serialize ++ rest) = some (b, rest) := by
  have hctx : ∀ c ∈ b.vTxContxt, ∀ rest, CTxContxt.read (c.serialize ++ rest) = some (c, rest) :=
    fun c hc => CTxContxt.read_serialize_append (h.vTxContxt c hc)
  simp only [CBlockEx.read, CBlockEx.serialize, List.append_assoc, CBlock.read_serialize_append h.toCBlock,
    readVector_serializeList_append h.vTxContxt_length hctx, Option.bind_eq_bind, Option.bind_some,
    Option.pure_def]

theorem CBlock.getTxSerializedOffset_le (b : CBlock) : b.getTxSerializedOffset ≤ b.serialize.length := by
  simp only [getTxSerializedOffset, CBlock.serialize, List.length_append, length_encode]
  omega

theorem CBlockEx.prefix_drop_serialize (b : CBlockEx) {i : Nat} (hi : i < b.vtx.length) :
    b.vtx[i].serialize <+: b.serialize.drop (b.getTxSerializedOffset + b.txMint.serialize.length +
      (compactSize b.vtx.length).length + ((b.vtx.take i).map fun tx => tx.serialize.length).sum) := by
  have hvtx : b.vtx.flatMap CTransaction.serialize = (b.vtx.take i).flatMap CTransaction.serialize ++
      (b.vtx[i].serialize ++ (b.vtx.drop (i + 1)).flatMap CTransaction.serialize) := by
    conv_lhs => rw [← List.take_append_drop i b.vtx, List.flatMap_append, List.drop_eq_getElem_cons hi]
    rw [List.flatMap_cons]
  have hsum : ((b.vtx.take i).map fun tx => tx.serialize.length).sum =
      ((b.vtx.take i).flatMap CTransaction.serialize).length := by
    simp [List.length_flatMap]
  rw [hsum, Nat.add_assoc, Nat.add_assoc, ← List.drop_drop, CBlockEx.serialize,
    List.drop_append_of_le_length b.toCBlock.getTxSerializedOffset_le,
    CBlock.drop_getTxSerializedOffset_serialize, serializeList, hvtx]
  simp only [List.append_assoc]
  rw [List.drop_length_add_append, List.drop_length_add_append, List.drop_left]
  exact List.prefix_append _ _

theorem CBlockEx.prefix_drop_serialize_mint (b : CBlockEx) :
    b.txMint.serialize <+: b.serialize.drop b.getTxSerializedOffset := by
  rw [CBlockEx.serialize, List.drop_append_of_le_length b.toCBlock.getTxSerializedOffset_le,
    CBlock.drop_getTxSerializedOffset_serialize]
  simp only [List.append_assoc]
  exact List.prefix_append _ _

theorem CBlockEx.serialize_ne_nil (b : CBlockEx) : b.serialize ≠ [] := by
  intro h
  have hlen := congrArg List.length h
  simp [CBlockEx.serialize, CBlock.serialize] at hlen

end Multiverse
