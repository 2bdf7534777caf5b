import Multiverse.Common.Serialize
import Multiverse.Walleve.Stream

/-! # The records of the chain on a `CWalleveStream`

Each class of `common/destination.h`, `common/transaction.h` and
`common/block.h` has one `WalleveSerialize` template that passes its fields
to the stream in order, under whichever of the three tags it is given. Its
codec here writes with `serialize`, reads with `read`, and adds up the sizes
of its fields as the `std::size_t&` instance does. The vectors and the
`int64` fields of the records are the stream's own codecs, so each record is
lawful on its well-formed values, and the size the stream computes for a
block is its `getSerializeSize`.
-/

namespace Multiverse

open CWalleveStream

/-! ## The fields of the records -/

theorem save_vector {α : Type} (c : Codec α) (t : List α) : (vector c).save t = serializeList c.save t := by
  simp only [vector, Codec.counted, CVarInt.codec, CVarInt.save_eq_compactSize, serializeList]

theorem load_vector {α : Type} (c : Codec α) (bs : List UInt8) : (vector c).load bs = readVector c.load bs :=
  rfl

theorem size_vector {α : Type} {c : Codec α} {valid : α → Prop} (hc : c.Lawful valid) (t : List α) :
    (vector c).size t = (serializeList c.save t).length := by
  rw [(lawful_vector hc).size_eq, save_vector]

theorem save_int64 (n : Int) : (fundamentalSigned 8).save n = serializeInt64 n := rfl

theorem load_int64 (bs : List UInt8) : (fundamentalSigned 8).load bs = readInt64 bs := rfl

theorem save_bytes (t : List UInt8) : (vectorFundamental uint8 1).save t = serializeBytes t := by
  simp only [vectorFundamental, uint8, List.flatMap_singleton', CVarInt.save_eq_compactSize, serializeBytes]

theorem readList_uint8 (raw : List UInt8) : LittleEndian.readList uint8.load raw.length raw = some (raw, []) := by
  have h := @LittleEndian.readList_flatMap_append _ _ _ raw (fun x _ rest => lawful_uint8.load_save_append x trivial rest) []
  simpa [uint8, List.flatMap_singleton'] using h

theorem length_of_take?_eq_some {n : Nat} {bs : List UInt8} {p : List UInt8 × List UInt8}
    (h : LittleEndian.take? n bs = some p) : p.1.length = n := by
  unfold LittleEndian.take? at h
  split at h
  · cases h
    simpa
  · cases h

theorem load_bytes (bs : List UInt8) : (vectorFundamental uint8 1).load bs = readBytes bs := by
  simp only [vectorFundamental, readBytes, Nat.one_mul, Option.bind_eq_bind, Option.pure_def]
  congr 1
  funext p
  cases h : LittleEndian.take? p.1 p.2 with
  | none => rfl
  | some q =>
    have hread := readList_uint8 q.1
    rw [length_of_take?_eq_some h] at hread
    simp only [Option.bind_some, hread]

theorem size_bytes (t : List UInt8) : (vectorFundamental uint8 1).size t = (serializeBytes t).length := by
  rw [(lawful_vectorFundamental lawful_uint8 fun _ => rfl).size_eq, save_bytes]

/-! ## The records -/

namespace CDestination

/-- `CDestination::WalleveSerialize`: `prefix`, then `data`. -/
def codec : Codec CDestination :=
  ⟨encode, read, fun dest => (fundamental 1).size dest.nPrefix + uint256.size dest.data⟩

theorem lawful_codec : codec.Lawful WellFormed where
  load_save_append _ h rest := read_encode_append h rest
  size_eq _ := by simp [codec, fundamental, uint256]

end CDestination

/-- `CTxOutPoint::WalleveSerialize`: `hash`, then `n`. -/
def CTxOutPoint.codec : Codec CTxOutPoint :=
  ⟨serialize, read, fun o => uint256.size o.hash + (fundamental 1).size o.n⟩

theorem CTxOutPoint.lawful_codec : codec.Lawful fun o => o.hash < 2 ^ 256 ∧ o.n < 256 where
  load_save_append _ h rest := read_serialize_append h.1 h.2 rest
  size_eq _ := by simp [codec, serialize, fundamental, uint256]

/-- `CTxIn::WalleveSerialize`: `prevout`. -/
def CTxIn.codec : Codec CTxIn := ⟨(·.prevout.serialize), read, fun txin => CTxOutPoint.codec.size txin.prevout⟩

theorem CTxIn.lawful_codec : codec.Lawful fun txin => txin.prevout.hash < 2 ^ 256 ∧ txin.prevout.n < 256 where
  load_save_append _ h rest := read_serialize_append h.1 h.2 rest
  size_eq txin := CTxOutPoint.lawful_codec.size_eq txin.prevout

namespace CTransaction

/-- `CTransaction::WalleveSerialize`: the fields in their order of declaration. -/
def codec : Codec CTransaction where
  save := serialize
  load := read
  size tx := (fundamental 2).size tx.nVersion + (fundamental 2).size tx.nType +
    (fundamental 4).size tx.nTimeStamp + (fundamental 4).size tx.nLockUntil + uint256.size tx.hashAnchor +
    (vector CTxIn.codec).size tx.vInput + CDestination.codec.size tx.sendTo +
    (fundamentalSigned 8).size tx.nAmount + (fundamentalSigned 8).size tx.nTxFee +
    (vectorFundamental uint8 1).size tx.vchData + (vectorFundamental uint8 1).size tx.vchSig

theorem lawful_codec : codec.Lawful WellFormed where
  load_save_append _ h rest := read_serialize_append h rest
  size_eq tx := by
    simp only [codec, size_vector CTxIn.lawful_codec, size_bytes, CDestination.lawful_codec.size_eq, serialize,
      serializeUnsigned, List.length_append]
    simp [fundamental, fundamentalSigned, uint256, CTxIn.codec, CDestination.codec, serializeInt64]

end CTransaction

/-- `CTxInContxt::WalleveSerialize`. -/
def CTxInContxt.codec : Codec CTxInContxt :=
  ⟨serialize, read, fun c => (fundamentalSigned 8).size c.nAmount + (fundamental 4).size c.nTxTime +
    (fundamental 4).size c.nLockUntil⟩

theorem CTxInContxt.lawful_codec : codec.Lawful WellFormed where
  load_save_append _ h rest := read_serialize_append h rest
  size_eq _ := by simp [codec, serialize, fundamental, fundamentalSigned, serializeInt64]

/-- `CTxContxt::WalleveSerialize`: `destIn`, then `vin`. -/
def CTxContxt.codec : Codec CTxContxt :=
  ⟨serialize, read, fun c => CDestination.codec.size c.destIn + (vector CTxInContxt.codec).size c.vin⟩

theorem CTxContxt.lawful_codec : codec.Lawful WellFormed where
  load_save_append _ h rest := read_serialize_append h rest
  size_eq c := by
    simp only [codec, size_vector CTxInContxt.lawful_codec, CDestination.lawful_codec.size_eq, serialize,
      List.length_append]
    rfl

namespace CBlock

/-- `CBlock::WalleveSerialize`: the fields in their order of declaration. -/
def codec : Codec CBlock where
  save := serialize
  load := read
  size b := (fundamental 2).size b.nVersion + (fundamental 2).size b.nType + (fundamental 4).size b.nTimeStamp +
    uint256.size b.hashPrev + uint256.size b.hashMerkle + (vectorFundamental uint8 1).size b.vchProof +
    CTransaction.codec.size b.txMint + (vector CTransaction.codec).size b.vtx +
    (vectorFundamental uint8 1).size b.vchSig

theorem lawful_codec : codec.Lawful WellFormed where
  load_save_append _ h rest := read_serialize_append h rest
  size_eq b := by
    simp only [codec, size_vector CTransaction.lawful_codec, size_bytes, CTransaction.lawful_codec.size_eq,
      serialize, List.length_append]
    simp [fundamental, uint256, CTransaction.codec]

theorem size_codec (b : CBlock) : codec.size b = b.getSerializeSize :=
  lawful_codec.size_eq b

end CBlock

/-- `CBlockEx::WalleveSerialize`: the block's fields, then `vTxContxt`. -/
def CBlockEx.codec : Codec CBlockEx :=
  ⟨serialize, read, fun b => CBlock.codec.size b.toCBlock + (vector CTxContxt.codec).size b.vTxContxt⟩

theorem CBlockEx.lawful_codec : codec.Lawful WellFormed where
  load_save_append _ h rest := read_serialize_append h rest
  size_eq b := by
    simp only [codec, size_vector CTxContxt.lawful_codec, CBlock.lawful_codec.size_eq, serialize,
      List.length_append]
    rfl

/-! ## Every serializable type -/

/-- Loading what `operator<<` wrote gives the value back and consumes exactly
its bytes, and `GetSerializeSize` is the number of bytes written: for
`CVarInt` over every `uint64`, for fundamentals and `uint256`, for strings,
for vectors, maps, multimaps and pairs of any lawful types, and for the
records of the chain. -/
theorem load_save_and_size :
    CVarInt.codec.Lawful (· < 2 ^ 64) ∧
    (∀ sizeOf, (fundamental sizeOf).Lawful (· < 256 ^ sizeOf)) ∧
    (∀ sizeOf, 0 < sizeOf → (fundamentalSigned sizeOf).Lawful
      fun t => -2 ^ (8 * sizeOf - 1) ≤ t ∧ t < 2 ^ (8 * sizeOf - 1)) ∧
    uint256.Lawful (· < 2 ^ 256) ∧
    string.Lawful (·.length < 2 ^ 64) ∧
    (∀ (α : Type) (c : Codec α) valid, c.Lawful valid →
      (vector c).Lawful fun t => t.length < 2 ^ 64 ∧ ∀ x ∈ t, valid x) ∧
    (∀ (α : Type) (c : Codec α) valid sizeOf, c.Lawful valid → (∀ a, c.size a = sizeOf) →
      (vectorFundamental c sizeOf).Lawful fun t => t.length < 2 ^ 64 ∧ ∀ x ∈ t, valid x) ∧
    (∀ (κ ν : Type) [LinearOrder κ] (ck : Codec κ) (cv : Codec ν) validKey validValue,
      ck.Lawful validKey → cv.Lawful validValue →
      (map ck cv).Lawful fun t => t.size < 2 ^ 64 ∧ ∀ e ∈ t.entries, validKey e.1 ∧ validValue e.2) ∧
    (∀ (κ ν : Type) [LinearOrder κ] (ck : Codec κ) (cv : Codec ν) validKey validValue,
      ck.Lawful validKey → cv.Lawful validValue →
      (multimap ck cv).Lawful fun t => Multimap.Sorted Prod.fst t ∧ t.length < 2 ^ 64 ∧
        ∀ e ∈ t, validKey e.1 ∧ validValue e.2) ∧
    (∀ (α β : Type) (ca : Codec α) (cb : Codec β) validFirst validSecond,
      ca.Lawful validFirst → cb.Lawful validSecond →
      (ca.pair cb).Lawful fun p => validFirst p.1 ∧ validSecond p.2) ∧
    CTransaction.codec.Lawful CTransaction.WellFormed ∧ CBlock.codec.Lawful CBlock.WellFormed ∧
    CBlockEx.codec.Lawful CBlockEx.WellFormed ∧ CTxContxt.codec.Lawful CTxContxt.WellFormed :=
  ⟨CVarInt.lawful, lawful_fundamental, fun _ h => lawful_fundamentalSigned h, lawful_uint256, lawful_string,
    fun _ _ _ hc => lawful_vector hc, fun _ _ _ _ hc hsize => lawful_vectorFundamental hc hsize,
    fun _ _ _ _ _ _ _ hk hv => lawful_map hk hv, fun _ _ _ _ _ _ _ hk hv => lawful_multimap hk hv,
    fun _ _ _ _ _ _ ha hb => ha.pair hb, CTransaction.lawful_codec, CBlock.lawful_codec,
    CBlockEx.lawful_codec, CTxContxt.lawful_codec⟩

/-- A vector of inputs and an `int64` below zero, each read back from its
bytes with one byte after them. -/
theorem load_save_and_size_of_inputs :
    (vector CTxIn.codec).load ((vector CTxIn.codec).save [⟨⟨7, 1⟩⟩] ++ [9]) = some ([⟨⟨7, 1⟩⟩], [9]) ∧
    (fundamentalSigned 8).load ((fundamentalSigned 8).save (-5) ++ [9]) = some (-5, [9]) :=
  ⟨(load_save_and_size.2.2.2.2.2.1 _ _ _ CTxIn.lawful_codec).load_save_append _
      ⟨by decide, fun txin htxin => by simp at htxin; subst htxin; decide⟩ [9],
    (load_save_and_size.2.2.1 8 (by decide)).load_save_append _ ⟨by decide, by decide⟩ [9]⟩

end Multiverse
