import Multiverse.Storage.Replay
import Multiverse.Common.BlockIndex
import Multiverse.Lib.SortedMap

/-! # The block store of one fork

`CBlockBase` of `storage/blockbase.cpp`, for the blocks of one fork: their
indices by hash, the stored blocks with their contexts, the fork's last
block and the fork's unspent outputs. `GetBlockView(hash)` rolls a view from
the fork's last block back to the branch point `GetBranch` finds and forward
to `hash`; `CommitBlockView` writes the view's changes to the unspent outputs
and moves the fork's last block.

Index pointers are hashes; a walk that would step past a root fails. The
walks are fuelled with twice the number of indices, more than any walk over
an acyclic index takes.
-/

namespace Multiverse.Storage

open Overlay

structure CBlockBase where
  hashFork : Nat
  mapIndex : SortedMap Nat CBlockIndex
  tsBlock : Nat → Option CBlockEx
  hashLast : Nat
  dbUnspent : UnspentDB

namespace CBlockBase

/-- `GetBranch(pIndexRef, pIndex, vPath)`: step back the later of the two,
or both at one time, until they meet; `vPath` collects the blocks left on
`pIndex`'s side, the latest first. -/
def getBranch (mapIndex : SortedMap Nat CBlockIndex) :
    Nat → Nat → Nat → List Nat → Option (Nat × List Nat)
  | 0, _, _, _ => none
  | fuel + 1, pIndexRef, pIndex, vPath =>
    if pIndex = pIndexRef then some (pIndex, vPath)
    else
      match mapIndex.find pIndexRef, mapIndex.find pIndex with
      | some ref, some idx =>
        if ref.nTimeStamp > idx.nTimeStamp then
          match ref.pPrev with
          | some p => getBranch mapIndex fuel p pIndex vPath
          | none => none
        else if idx.nTimeStamp > ref.nTimeStamp then
          match idx.pPrev with
          | some p => getBranch mapIndex fuel pIndexRef p (vPath ++ [pIndex])
          | none => none
        else
          match ref.pPrev, idx.pPrev with
          | some p, some q => getBranch mapIndex fuel p q (vPath ++ [pIndex])
          | _, _ => none
      | _, _ => none

/-- The blocks from `p` back to `pBranch`, `pBranch` left out: the first loop
of `GetBlockView`. -/
def forkPath (mapIndex : SortedMap Nat CBlockIndex) : Nat → Nat → Nat → Option (List Nat)
  | 0, _, _ => none
  | fuel + 1, p, pBranch =>
    if p = pBranch then some []
    else
      match mapIndex.find p with
      | some idx =>
        match idx.pPrev with
        | some q => (forkPath mapIndex fuel q pBranch).map (p :: ·)
        | none => none
      | none => none

/-- The indices from `p` back to the root, `p` first. -/
def chainOf (mapIndex : SortedMap Nat CBlockIndex) : Nat → CBlockIndex → List CBlockIndex
  | 0, p => [p]
  | fuel + 1, p =>
    match p.pPrev.bind mapIndex.find with
    | some q => p :: chainOf mapIndex fuel q
    | none => [p]

/-- A block taken off a view: its transactions the last first, then its mint
unless it is null. -/
def undoBlock (crypto : Crypto) (view : CBlockView) (block : CBlockEx) : CBlockView :=
  let view := block.txWithContxt.reverse.foldl
    (fun v e => v.removeTx (e.1.getHash crypto) e.1 e.2) view
  if block.txMint.isNull then view
  else view.removeTx (block.txMint.getHash crypto) block.txMint CTxContxt.null

/-- A block put on a view: its mint, then its transactions with their contexts. -/
def redoBlock (crypto : Crypto) (view : CBlockView) (block : CBlockEx) : CBlockView :=
  let view := view.addTx (block.txMint.getHash crypto) block.txMint CDestination.null 0
  block.txWithContxt.foldl (fun v e => v.addTx (e.1.getHash crypto) e.1 e.2.destIn e.2.getValueIn) view

/-- `GetBlockView(hash, view)` on the fork. -/
def getBlockView (crypto : Crypto) (base : CBlockBase) (hash : Nat) : Option CBlockView := do
  let _ ← base.mapIndex.find hash
  let fuel := 2 * base.mapIndex.size + 1
  let (pBranch, vPath) ← getBranch base.mapIndex fuel base.hashLast hash []
  let vRemove ← forkPath base.mapIndex fuel base.hashLast pBranch
  let vBlockRemove ← vRemove.mapM base.tsBlock
  let vBlockAddNew ← vPath.reverse.mapM base.tsBlock
  return vBlockAddNew.foldl (redoBlock crypto) (vBlockRemove.foldl (undoBlock crypto) CBlockView.empty)

/-- `CommitBlockView(view, pIndexNew)` on the fork of the view. -/
def commitBlockView (base : CBlockBase) (view : CBlockView) (hashNew : Nat) : CBlockBase :=
  { base with
    dbUnspent := updateUnspent base.dbUnspent view.getUnspentChanges
    hashLast := hashNew }

/-- `AddNew(hash, block, &pIndexNew)`: the block is stored and indexed after
its previous block. -/
def addNew (crypto : Crypto) (base : CBlockBase) (hash : Nat) (block : CBlockEx) :
    Option (CBlockBase × CBlockIndex) :=
  if (base.mapIndex.find hash).isSome then none
  else
    let pIndexNew := (CBlockIndex.ofBlock crypto hash block.toCBlock).linkPrev block.toCBlock
      (base.mapIndex.find block.hashPrev)
    some ({ base with
      mapIndex := base.mapIndex.insert hash pIndexNew
      tsBlock := Function.update base.tsBlock hash (some block) }, pIndexNew)

/-- `CBlockIndex::IsEquivalent(pIndexCompare)`: only vacant blocks above it lie
between it and this index. -/
def isEquivalent (mapIndex : SortedMap Nat CBlockIndex) : Nat → CBlockIndex → CBlockIndex → Bool
  | 0, _, _ => false
  | fuel + 1, pIndex, pIndexCompare =>
    if pIndex.hash = pIndexCompare.hash then true
    else if pIndex.nType != CBlock.BLOCK_VACANT || pIndex.nHeight ≤ pIndexCompare.nHeight then false
    else
      match pIndex.pPrev.bind mapIndex.find with
      | some p => isEquivalent mapIndex fuel p pIndexCompare
      | none => false

/-- `CWorldLine::GetBlockChanges(pIndexNew, pIndexFork, ...)`: step back the
later of the two, the new side on a tie, collecting the stored blocks of each
side, the latest first, until they meet. -/
def getBlockChanges (base : CBlockBase) :
    Nat → Option Nat → Option Nat → List CBlockEx → List CBlockEx →
      Option (List CBlockEx × List CBlockEx)
  | 0, _, _, _, _ => none
  | fuel + 1, pIndexNew, pIndexFork, vBlockAddNew, vBlockRemove =>
    if pIndexNew = pIndexFork then some (vBlockAddNew, vBlockRemove)
    else
      let idxFork := pIndexFork.bind base.mapIndex.find
      let nLastBlockTime : Int := match idxFork with
        | some idx => idx.nTimeStamp
        | none => -1
      match pIndexNew.bind base.mapIndex.find with
      | none => none
      | some idxNew =>
        if (idxNew.nTimeStamp : Int) ≥ nLastBlockTime then
          match base.tsBlock idxNew.hash with
          | some block =>
            getBlockChanges base fuel idxNew.pPrev pIndexFork (vBlockAddNew ++ [block]) vBlockRemove
          | none => none
        else
          match idxFork with
          | some idx =>
            match base.tsBlock idx.hash with
            | some block =>
              getBlockChanges base fuel pIndexNew idx.pPrev vBlockAddNew (vBlockRemove ++ [block])
            | none => none
          | none => none

@[simp] theorem commitBlockView_mapIndex (base : CBlockBase) (view : CBlockView) (hashNew : Nat) :
    (base.commitBlockView view hashNew).mapIndex = base.mapIndex := rfl

@[simp] theorem commitBlockView_tsBlock (base : CBlockBase) (view : CBlockView) (hashNew : Nat) :
    (base.commitBlockView view hashNew).tsBlock = base.tsBlock := rfl

@[simp] theorem commitBlockView_hashLast (base : CBlockBase) (view : CBlockView) (hashNew : Nat) :
    (base.commitBlockView view hashNew).hashLast = hashNew := rfl

theorem addNew_eq_some {crypto : Crypto} {base stored : CBlockBase} {hash : Nat}
    {block : CBlockEx} {pIndexNew : CBlockIndex}
    (h : base.addNew crypto hash block = some (stored, pIndexNew)) :
    stored.mapIndex.find hash = some pIndexNew ∧ stored.tsBlock hash = some block ∧
      stored.hashLast = base.hashLast ∧ stored.dbUnspent = base.dbUnspent := by
  unfold addNew at h
  split_ifs at h
  cases h
  simp

/-- `Initiate`: the genesis block is the fork's first and last block, and its
mint its unspent outputs. -/
def initiate (crypto : Crypto) (hashGenesis : Nat) (blockGenesis : CBlock) : CBlockBase :=
  let genesis : CBlockEx := ⟨blockGenesis, []⟩
  let pIndexNew := (CBlockIndex.ofBlock crypto hashGenesis blockGenesis).linkPrev blockGenesis none
  let view := redoBlock crypto CBlockView.empty genesis
  { hashFork := hashGenesis
    mapIndex := SortedMap.empty.insert hashGenesis pIndexNew
    tsBlock := Function.update (fun _ => none) hashGenesis (some genesis)
    hashLast := hashGenesis
    dbUnspent := updateUnspent (fun _ => none) view.getUnspentChanges }

/-- What every store `Initiate` and `AddNewBlock` reach keeps: the fork's last
block is indexed, every index is filed under its own hash with its block
stored, and every link to a previous block points to an index filed earlier
(`rank` numbers the indices in the order they were filed), so that the links
form a forest. -/
structure WellFormed (base : CBlockBase) : Prop where
  last_indexed : (base.mapIndex.find base.hashLast).isSome
  indexed : ∀ hash idx, base.mapIndex.find hash = some idx →
    idx.hash = hash ∧ (base.tsBlock hash).isSome
  ranked : ∃ rank : Nat → Nat, ∀ hash idx, base.mapIndex.find hash = some idx →
    rank hash < base.mapIndex.size ∧
      ∀ p, idx.pPrev = some p → (base.mapIndex.find p).isSome ∧ rank p < rank hash

theorem initiate_wellFormed (crypto : Crypto) (hashGenesis : Nat) (blockGenesis : CBlock) :
    (initiate crypto hashGenesis blockGenesis).WellFormed := by
  refine ⟨by simp [initiate], ?_, ⟨fun _ => 0, ?_⟩⟩
  · intro hash idx h
    simp only [initiate, SortedMap.find_insert, SortedMap.find_empty] at h
    split_ifs at h with hh
    cases h
    subst hh
    simp [initiate, CBlockIndex.linkPrev, CBlockIndex.ofBlock]
  · intro hash idx h
    simp only [initiate, SortedMap.find_insert, SortedMap.find_empty] at h
    split_ifs at h with hh
    cases h
    refine ⟨?_, ?_⟩
    · -- the one index, filed first
      show 0 < (SortedMap.empty.insert hashGenesis _).size
      rw [SortedMap.size_insert _ (SortedMap.find_empty hashGenesis)]
      exact Nat.succ_pos _
    · intro p hp
      simp [CBlockIndex.linkPrev, CBlockIndex.ofBlock] at hp

theorem addNew_wellFormed {crypto : Crypto} {base stored : CBlockBase} {hash : Nat}
    {block : CBlockEx} {pIndexNew : CBlockIndex} (hwf : base.WellFormed)
    (h : base.addNew crypto hash block = some (stored, pIndexNew)) : stored.WellFormed := by
  unfold addNew at h
  split_ifs at h with hnew
  cases h
  have hfresh : base.mapIndex.find hash = none := Option.not_isSome_iff_eq_none.mp hnew
  obtain ⟨rank, hrank⟩ := hwf.ranked
  refine ⟨?_, ?_, ⟨Function.update rank hash base.mapIndex.size, ?_⟩⟩
  · simp only [SortedMap.find_insert]
    split_ifs
    · rfl
    · exact hwf.last_indexed
  · intro h' idx hfind
    simp only [SortedMap.find_insert] at hfind
    split_ifs at hfind with hh
    · cases hfind
      simp [hh, CBlockIndex.ofBlock]
    · obtain ⟨h1, h2⟩ := hwf.indexed h' idx hfind
      exact ⟨h1, by simp [hh, h2]⟩
  · intro h' idx hfind
    rw [SortedMap.size_insert _ hfresh]
    simp only [SortedMap.find_insert] at hfind
    split_ifs at hfind with hh
    · -- the new index links to its previous block only when that is filed
      cases hfind
      subst hh
      refine ⟨by simp, ?_⟩
      intro p hp
      rw [CBlockIndex.pPrev_linkPrev_ofBlock, Option.map_eq_some_iff] at hp
      obtain ⟨prev, hprev, rfl⟩ := hp
      obtain ⟨hhash, -⟩ := hwf.indexed _ _ hprev
      have hne : prev.hash ≠ h' := by
        rintro heq
        rw [← heq, hhash, hprev] at hfresh
        cases hfresh
      rw [hhash] at hne ⊢
      refine ⟨by simp [hne, hprev], ?_⟩
      simp only [Function.update_self, Function.update_of_ne hne]
      exact (hrank _ _ hprev).1
    · obtain ⟨hlt, hprev⟩ := hrank h' idx hfind
      refine ⟨by simp [hh]; omega, ?_⟩
      intro p hp
      obtain ⟨hp1, hp2⟩ := hprev p hp
      have hne : p ≠ hash := by
        rintro rfl
        simp [hfresh] at hp1
      exact ⟨by simp [hne, hp1], by simpa [hne, hh] using hp2⟩

theorem commitBlockView_wellFormed {base : CBlockBase} {view : CBlockView} {hashNew : Nat}
    (hwf : base.WellFormed) (hnew : (base.mapIndex.find hashNew).isSome) :
    (base.commitBlockView view hashNew).WellFormed :=
  ⟨hnew, hwf.indexed, hwf.ranked⟩

end CBlockBase

end Multiverse.Storage
