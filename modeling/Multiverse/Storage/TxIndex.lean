import Multiverse.Storage.TimeSeries

/-! # Where transactions are stored

`GetTxNewIndex` of `CBlockBase` records, for each block it adds to a fork,
the position of its mint transaction and of each of its transactions in the
block file, and `UpdateDelegate` records that of each enrollment
certificate. Both start from the block's position and add the serialized
sizes of what comes before: the fixed fields and the proof
(`GetTxSerializedOffset`), the mint transaction, the count of `vtx`, and the
transactions before. That is where `Write` put each transaction's bytes, so a
transaction reads back at its recorded position, from the write on, through
any calls on the block file that do not read a block there.

The walk along the branch that gives `GetTxNewIndex` its blocks is
`GetBranch`; here a block comes with its position and height.
-/

namespace Multiverse.Storage

open LittleEndian

/-- `CTxIndex`: where a transaction is stored, and the height of its block. -/
structure CTxIndex where
  nBlockHeight : Int
  nFile : Nat
  nOffset : Nat
  deriving DecidableEq, Repr

/-- The body of `GetTxNewIndex`'s loop for a block stored at `pos` at height `nHeight`. -/
def getTxNewIndexOfBlock (crypto : Crypto) (nHeight : Int) (pos : CDiskPos) (block : CBlockEx) :
    List (Nat × CTxIndex) :=
  let nOffset := pos.nOffset + block.getTxSerializedOffset
  let vTxNew := if block.txMint.isNull then [] else [(block.txMint.getHash crypto, ⟨nHeight, pos.nFile, nOffset⟩)]
  let nOffset := nOffset + block.txMint.serialize.length
  let nOffset := nOffset + (compactSize block.vtx.length).length
  (block.vtx.foldl (fun (acc : List (Nat × CTxIndex) × Nat) tx =>
    (acc.1 ++ [(tx.getHash crypto, ⟨nHeight, pos.nFile, acc.2⟩)], acc.2 + tx.serialize.length)) (vTxNew, nOffset)).1

/-- The `mapEnrollTx` inserts of `UpdateDelegate` for a block stored at
`posBlock`: for each certificate, its anchor, the destination of its inputs
and its position. -/
def updateDelegateEnrollTx (posBlock : CDiskPos) (block : CBlockEx) : List (Nat × CDestination × CDiskPos) :=
  let nOffset := posBlock.nOffset + block.getTxSerializedOffset + block.txMint.serialize.length +
    (compactSize block.vtx.length).length
  (block.txWithContxt.foldl (fun (acc : List (Nat × CDestination × CDiskPos) × Nat) e =>
    (acc.1 ++ (if e.1.nType = CTransaction.TX_CERT then [(e.1.hashAnchor, e.2.destIn, ⟨posBlock.nFile, acc.2⟩)] else []),
      acc.2 + e.1.serialize.length)) ([], nOffset)).1

/-- Where the `i`-th transaction of a block stored at `pos` starts. -/
def txOffset (pos : CDiskPos) (block : CBlock) (i : Nat) : Nat :=
  pos.nOffset + block.getTxSerializedOffset + block.txMint.serialize.length + (compactSize block.vtx.length).length +
    ((block.vtx.take i).map fun tx => tx.serialize.length).sum

/-! ## The loops that add up sizes -/

section Loop

variable {α β : Type} (size : α → Nat) (g : α → Nat → List β)

theorem foldl_emit_snd (xs : List α) (acc : List β) (o : Nat) :
    (xs.foldl (fun p x => (p.1 ++ g x p.2, p.2 + size x)) (acc, o)).2 = o + (xs.map size).sum := by
  induction xs generalizing acc o with
  | nil => simp
  | cons x xs ih =>
    rw [List.foldl_cons, ih, List.map_cons, List.sum_cons]
    omega

theorem foldl_emit_prefix (xs : List α) (acc : List β) (o : Nat) :
    acc <+: (xs.foldl (fun p x => (p.1 ++ g x p.2, p.2 + size x)) (acc, o)).1 := by
  induction xs generalizing acc o with
  | nil => exact List.prefix_refl _
  | cons x xs ih => exact (List.prefix_append _ _).trans (ih _ _)

theorem foldl_emit_getElem (xs : List α) (acc : List β) (o : Nat) {i : Nat} (hi : i < xs.length) :
    ((xs.take i).foldl (fun p x => (p.1 ++ g x p.2, p.2 + size x)) (acc, o)).1 ++
        g xs[i] (o + ((xs.take i).map size).sum) <+:
      (xs.foldl (fun p x => (p.1 ++ g x p.2, p.2 + size x)) (acc, o)).1 := by
  have hsplit : xs = xs.take i ++ xs[i] :: xs.drop (i + 1) := by
    conv_lhs => rw [← List.take_append_drop i xs, List.drop_eq_getElem_cons hi]
  conv_rhs => rw [hsplit, List.foldl_append, List.foldl_cons]
  rw [← foldl_emit_snd size g (xs.take i) acc o]
  exact foldl_emit_prefix size g _ _ _

theorem length_foldl_emit_single (f : α → Nat → β) (xs : List α) (acc : List β) (o : Nat) :
    (xs.foldl (fun p x => (p.1 ++ [f x p.2], p.2 + size x)) (acc, o)).1.length = acc.length + xs.length := by
  induction xs generalizing acc o with
  | nil => rfl
  | cons x xs ih =>
    simp only [List.foldl_cons, ih, List.length_append, List.length_cons, List.length_nil]
    omega

end Loop

theorem getElem?_of_prefix_append {γ : Type} {pre ys : List γ} {y : γ} (h : pre ++ [y] <+: ys) :
    ys[pre.length]? = some y := by
  have hlt : pre.length < (pre ++ [y]).length := by simp
  rw [List.getElem?_eq_getElem (lt_of_lt_of_le hlt h.length_le), ← h.getElem hlt]
  simp

theorem getTxNewIndexOfBlock_getElem (crypto : Crypto) (nHeight : Int) (pos : CDiskPos) (block : CBlockEx)
    {i : Nat} (hi : i < block.vtx.length) :
    (getTxNewIndexOfBlock crypto nHeight pos block)[(if block.txMint.isNull then 0 else 1) + i]? =
      some (block.vtx[i].getHash crypto, ⟨nHeight, pos.nFile, txOffset pos block.toCBlock i⟩) := by
  have h := foldl_emit_getElem (fun tx => tx.serialize.length)
    (fun tx off => [(tx.getHash crypto, (⟨nHeight, pos.nFile, off⟩ : CTxIndex))]) block.vtx
    (if block.txMint.isNull then [] else [(block.txMint.getHash crypto, ⟨nHeight, pos.nFile,
      pos.nOffset + block.getTxSerializedOffset⟩)])
    (pos.nOffset + block.getTxSerializedOffset + block.txMint.serialize.length + (compactSize block.vtx.length).length) hi
  have hlen := length_foldl_emit_single (fun tx => tx.serialize.length)
    (fun tx off => (tx.getHash crypto, (⟨nHeight, pos.nFile, off⟩ : CTxIndex))) (block.vtx.take i)
    (if block.txMint.isNull then [] else [(block.txMint.getHash crypto, ⟨nHeight, pos.nFile,
      pos.nOffset + block.getTxSerializedOffset⟩)])
    (pos.nOffset + block.getTxSerializedOffset + block.txMint.serialize.length + (compactSize block.vtx.length).length)
  have hidx : (if block.txMint.isNull then 0 else 1) + i =
      ((block.vtx.take i).foldl (fun p x => (p.1 ++ [(x.getHash crypto, (⟨nHeight, pos.nFile, p.2⟩ : CTxIndex))],
        p.2 + x.serialize.length)) ((if block.txMint.isNull then [] else [(block.txMint.getHash crypto,
          ⟨nHeight, pos.nFile, pos.nOffset + block.getTxSerializedOffset⟩)]), pos.nOffset + block.getTxSerializedOffset +
            block.txMint.serialize.length + (compactSize block.vtx.length).length)).1.length := by
    rw [hlen, List.length_take, min_eq_left hi.le]
    split <;> rfl
  rw [hidx]
  exact getElem?_of_prefix_append h

theorem map_fst_txWithContxt (block : CBlockEx) : block.txWithContxt.map Prod.fst = block.vtx := by
  apply List.ext_getElem <;> simp [CBlockEx.txWithContxt]

theorem mem_updateDelegateEnrollTx (posBlock : CDiskPos) (block : CBlockEx) {i : Nat} (hi : i < block.vtx.length)
    (hcert : block.vtx[i].nType = CTransaction.TX_CERT) :
    (block.vtx[i].hashAnchor, (block.vTxContxt.getD i CTxContxt.null).destIn,
      (⟨posBlock.nFile, txOffset posBlock block.toCBlock i⟩ : CDiskPos)) ∈ updateDelegateEnrollTx posBlock block := by
  have hlen : block.txWithContxt.length = block.vtx.length := by simp [CBlockEx.txWithContxt]
  have hi' : i < block.txWithContxt.length := hlen ▸ hi
  have hget : block.txWithContxt[i] = (block.vtx[i], block.vTxContxt.getD i CTxContxt.null) := by
    simp [CBlockEx.txWithContxt]
  have hsizes : (block.txWithContxt.take i).map (fun e => e.1.serialize.length) =
      (block.vtx.take i).map fun tx => tx.serialize.length := by
    rw [← map_fst_txWithContxt block, ← List.map_take, List.map_map]
    rfl
  have h := foldl_emit_getElem (fun e : CTransaction × CTxContxt => e.1.serialize.length)
    (fun e off => if e.1.nType = CTransaction.TX_CERT then [(e.1.hashAnchor, e.2.destIn, (⟨posBlock.nFile, off⟩ : CDiskPos))]
      else []) block.txWithContxt []
    (posBlock.nOffset + block.getTxSerializedOffset + block.txMint.serialize.length + (compactSize block.vtx.length).length) hi'
  rw [hget, hsizes] at h
  apply h.subset
  simp [hcert, txOffset]

/-! ## Transactions read back where they are recorded -/

theorem holdsAt_tx_of_write {st st' : CTimeSeriesCached} {pos : CDiskPos} {block : CBlockEx}
    (h : st.CacheInFiles) (hw : st.write block.serialize = some (st', pos)) {i : Nat} (hi : i < block.vtx.length) :
    st'.HoldsAt ⟨pos.nFile, txOffset pos block.toCBlock i⟩ block.vtx[i].serialize := by
  have hpos := CTimeSeriesCached.holdsAt_write_inside h hw (k := block.getTxSerializedOffset +
    block.txMint.serialize.length + (compactSize block.vtx.length).length +
      ((block.vtx.take i).map fun tx => tx.serialize.length).sum)
    (by simp [CBlock.getTxSerializedOffset]) (CTransaction.serialize_ne_nil _)
    (block.prefix_drop_serialize hi)
  simpa only [txOffset, Nat.add_assoc] using hpos

theorem holdsAt_mint_of_write {st st' : CTimeSeriesCached} {pos : CDiskPos} {block : CBlockEx}
    (h : st.CacheInFiles) (hw : st.write block.serialize = some (st', pos)) :
    st'.HoldsAt ⟨pos.nFile, pos.nOffset + block.getTxSerializedOffset⟩ block.txMint.serialize :=
  CTimeSeriesCached.holdsAt_write_inside h hw (by simp [CBlock.getTxSerializedOffset])
    (CTransaction.serialize_ne_nil _) block.prefix_drop_serialize_mint

theorem getTxNewIndexOfBlock_mint (crypto : Crypto) (nHeight : Int) (pos : CDiskPos) (block : CBlockEx)
    (hmint : block.txMint.isNull = false) :
    (getTxNewIndexOfBlock crypto nHeight pos block)[0]? =
      some (block.txMint.getHash crypto, ⟨nHeight, pos.nFile, pos.nOffset + block.getTxSerializedOffset⟩) := by
  have h := foldl_emit_prefix (fun tx => tx.serialize.length)
    (fun tx off => [(tx.getHash crypto, (⟨nHeight, pos.nFile, off⟩ : CTxIndex))]) block.vtx
    [(block.txMint.getHash crypto, ⟨nHeight, pos.nFile, pos.nOffset + block.getTxSerializedOffset⟩)]
    (pos.nOffset + block.getTxSerializedOffset + block.txMint.serialize.length + (compactSize block.vtx.length).length)
  have hstart : getTxNewIndexOfBlock crypto nHeight pos block = (block.vtx.foldl (fun p x =>
      (p.1 ++ [(x.getHash crypto, (⟨nHeight, pos.nFile, p.2⟩ : CTxIndex))], p.2 + x.serialize.length))
      ([(block.txMint.getHash crypto, ⟨nHeight, pos.nFile, pos.nOffset + block.getTxSerializedOffset⟩)],
        pos.nOffset + block.getTxSerializedOffset + block.txMint.serialize.length +
          (compactSize block.vtx.length).length)).1 := by
    simp [getTxNewIndexOfBlock, hmint]
  rw [hstart]
  exact getElem?_of_prefix_append (show [] ++ [_] <+: _ from h)

/-- After a block is written to the block file of any run from `Initialize`,
`GetTxNewIndex` records each of its transactions, and `UpdateDelegate` each
certificate, at the offset where its bytes start; the transaction reads back
there through any later calls that do not read a block at that offset. The
same holds for the mint transaction, right after the fields and the proof. -/
theorem getTxNewIndex_offsets_read_back (crypto : Crypto) (nHeight : Int) (files : SortedMap Nat (List UInt8))
    (calls₀ : List CTimeSeriesCached.Call) (block : CBlockEx) (hmint : block.txMint.WellFormed)
    (hvtx : ∀ tx ∈ block.vtx, tx.WellFormed) {st' : CTimeSeriesCached} {pos : CDiskPos}
    (hw : (calls₀.foldl CTimeSeriesCached.step (CTimeSeriesCached.initial files)).write block.serialize =
      some (st', pos)) :
    (∀ i (hi : i < block.vtx.length),
      (∃ file, st'.files.find pos.nFile = some file ∧
        block.vtx[i].serialize <+: file.drop (txOffset pos block.toCBlock i)) ∧
      (getTxNewIndexOfBlock crypto nHeight pos block)[(if block.txMint.isNull then 0 else 1) + i]? =
        some (block.vtx[i].getHash crypto, ⟨nHeight, pos.nFile, txOffset pos block.toCBlock i⟩) ∧
      (block.vtx[i].nType = CTransaction.TX_CERT →
        (block.vtx[i].hashAnchor, (block.vTxContxt.getD i CTxContxt.null).destIn,
          (⟨pos.nFile, txOffset pos block.toCBlock i⟩ : CDiskPos)) ∈ updateDelegateEnrollTx pos block) ∧
      ∀ calls : List CTimeSeriesCached.Call,
        (∀ c ∈ calls, c ≠ .readBlock ⟨pos.nFile, txOffset pos block.toCBlock i⟩) →
        ((calls.foldl CTimeSeriesCached.step st').read CTransaction.read CTransaction.serialize
          ⟨pos.nFile, txOffset pos block.toCBlock i⟩).1 = some block.vtx[i]) ∧
    (block.txMint.isNull = false → (getTxNewIndexOfBlock crypto nHeight pos block)[0]? =
      some (block.txMint.getHash crypto, ⟨nHeight, pos.nFile, pos.nOffset + block.getTxSerializedOffset⟩)) ∧
    ∀ calls : List CTimeSeriesCached.Call,
      (∀ c ∈ calls, c ≠ .readBlock ⟨pos.nFile, pos.nOffset + block.getTxSerializedOffset⟩) →
      ((calls.foldl CTimeSeriesCached.step st').read CTransaction.read CTransaction.serialize
        ⟨pos.nFile, pos.nOffset + block.getTxSerializedOffset⟩).1 = some block.txMint := by
  have hfiles := CTimeSeriesCached.run_cacheInFiles calls₀ (CTimeSeriesCached.initial_cacheInFiles files)
  refine ⟨fun i hi => ?_, getTxNewIndexOfBlock_mint crypto nHeight pos block,
    CTimeSeriesCached.read_run_of_holdsAt hmint (holdsAt_mint_of_write hfiles hw)⟩
  have hat := holdsAt_tx_of_write hfiles hw hi
  exact ⟨hat.file, getTxNewIndexOfBlock_getElem crypto nHeight pos block hi,
    mem_updateDelegateEnrollTx pos block hi,
    CTimeSeriesCached.read_run_of_holdsAt (hvtx _ (List.getElem_mem hi)) hat⟩

theorem getTxNewIndex_offsets_read_back_of_token_tx :
    let crypto : Crypto := ⟨LittleEndian.decode, fun _ _ _ => false, fun _ _ _ _ => none⟩
    let mint : CTransaction := ⟨1, CTransaction.TX_WORK, 10, 0, 0, [], .ofPubKey 9, 15, 0, [], []⟩
    let tx : CTransaction := ⟨1, CTransaction.TX_TOKEN, 10, 0, 0, [], .ofPubKey 7, 100, 1, [], []⟩
    let block : CBlockEx := ⟨⟨1, CBlock.BLOCK_PRIMARY, 10, 0, 0, [], mint, [tx], []⟩, [CTxContxt.null]⟩
    ∃ st' pos, (CTimeSeriesCached.initial SortedMap.empty).write block.serialize = some (st', pos) ∧
      (getTxNewIndexOfBlock crypto 1 pos block)[1]? = some (tx.getHash crypto, ⟨1, pos.nFile, txOffset pos block.toCBlock 0⟩) ∧
      (st'.read CTransaction.read CTransaction.serialize ⟨pos.nFile, txOffset pos block.toCBlock 0⟩).1 = some tx := by
  intro crypto mint tx block
  have hs : ((CTimeSeriesCached.initial SortedMap.empty).write block.serialize).isSome := by rfl
  obtain ⟨⟨st', pos⟩, hw⟩ := Option.isSome_iff_exists.mp hs
  have hmint : mint.WellFormed := by
    constructor <;> first | decide | exact ⟨by decide, by decide⟩
  have htx : tx.WellFormed := by
    constructor <;> first | decide | exact ⟨by decide, by decide⟩
  have hvtx : ∀ t ∈ block.vtx, t.WellFormed := by
    intro t ht
    rw [List.mem_singleton.mp ht]
    exact htx
  obtain ⟨hall, -, -⟩ := getTxNewIndex_offsets_read_back crypto 1 SortedMap.empty [] block hmint hvtx hw
  obtain ⟨-, hidx, -, hread⟩ := hall 0 (by decide)
  exact ⟨st', pos, hw, hidx, hread [] (by simp)⟩

end Multiverse.Storage
