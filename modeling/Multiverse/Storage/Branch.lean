import Multiverse.Storage.BlockBase

/-! # Where two walks back meet

`GetBranch` of `CBlockBase` and `GetBlockChanges` of `CWorldLine` walk back
from two indices, stepping the side whose block is later, until they meet.
Whatever the block times, where they meet is a block both indices descend
from, and what they collect on each side is the path down to it, the latest
first (`getBranch_sound`, `getBlockChanges_sound`).

The meeting point need not be the lowest common ancestor. On a tie of times
`GetBranch` steps both sides and `GetBlockChanges` steps the new side, so a
walk can pass the lowest common ancestor: `GetBlockChanges` then lists it on
both sides, and `GetBranch` at a root steps to a null pointer, which the next
round dereferences.
-/

namespace Multiverse.Storage

namespace CBlockBase

/-- `ps` is the path of indices from `b` down to `a`, `a` left out, the latest
first; a pointer is a hash, or `none` for the null pointer below a root. -/
inductive Path (mapIndex : SortedMap Nat CBlockIndex) : Option Nat → Option Nat → List Nat → Prop
  | refl (a : Option Nat) : Path mapIndex a a []
  | step {b : Nat} {idx : CBlockIndex} {a : Option Nat} {ps : List Nat} :
      mapIndex.find b = some idx → Path mapIndex idx.pPrev a ps → Path mapIndex (some b) a (b :: ps)

/-- Whatever `GetBranch` returns is a block both indices descend from, and
`vPath` gains the path from `pIndex` down to it. -/
theorem getBranch_sound {mapIndex : SortedMap Nat CBlockIndex} {fuel pIndexRef pIndex c : Nat}
    {vPath vPath' : List Nat} (h : getBranch mapIndex fuel pIndexRef pIndex vPath = some (c, vPath')) :
    ∃ qs ps, Path mapIndex (some pIndexRef) (some c) qs ∧ Path mapIndex (some pIndex) (some c) ps ∧
      vPath' = vPath ++ ps := by
  induction fuel generalizing pIndexRef pIndex vPath with
  | zero => cases h
  | succ fuel ih =>
    unfold getBranch at h
    split_ifs at h with hmeet
    · -- they met: both paths are empty
      cases h
      exact ⟨[], [], hmeet ▸ .refl _, .refl _, by simp⟩
    split at h
    next ref idx href hidx =>
      split_ifs at h with hlater hearlier
      · -- the reference side is later and steps back
        split at h
        next p hp =>
          obtain ⟨qs, ps, hq, hps, rfl⟩ := ih h
          exact ⟨pIndexRef :: qs, ps, .step href (hp ▸ hq), hps, rfl⟩
        next => cases h
      · -- the other side is later and steps back, into the path
        split at h
        next p hp =>
          obtain ⟨qs, ps, hq, hps, rfl⟩ := ih h
          exact ⟨qs, pIndex :: ps, hq, .step hidx (hp ▸ hps), by simp⟩
        next => cases h
      · -- a tie: both step back
        split at h
        next p q hp hq' =>
          obtain ⟨qs, ps, hq, hps, rfl⟩ := ih h
          exact ⟨pIndexRef :: qs, pIndex :: ps, .step href (hp ▸ hq), .step hidx (hq' ▸ hps), by simp⟩
        next => cases h
    next => cases h

/-- The stored block of an index. -/
def blockAt (base : CBlockBase) (b : Nat) : Option CBlockEx :=
  (base.mapIndex.find b).bind fun idx => base.tsBlock idx.hash

/-- Whatever `GetBlockChanges` returns, the two walks met at a block both
indices descend from, and each list gains the blocks of the path down to it. -/
theorem getBlockChanges_sound {base : CBlockBase} {fuel : Nat} {pIndexNew pIndexFork : Option Nat}
    {vBlockAddNew vBlockRemove vBlockAddNew' vBlockRemove' : List CBlockEx}
    (h : getBlockChanges base fuel pIndexNew pIndexFork vBlockAddNew vBlockRemove =
      some (vBlockAddNew', vBlockRemove')) :
    ∃ c ps qs bs cs, Path base.mapIndex pIndexNew c ps ∧ Path base.mapIndex pIndexFork c qs ∧
      ps.mapM base.blockAt = some bs ∧ qs.mapM base.blockAt = some cs ∧
      vBlockAddNew' = vBlockAddNew ++ bs ∧ vBlockRemove' = vBlockRemove ++ cs := by
  induction fuel generalizing pIndexNew pIndexFork vBlockAddNew vBlockRemove with
  | zero => cases h
  | succ fuel ih =>
    unfold getBlockChanges at h
    split_ifs at h with hmeet
    · cases h
      exact ⟨pIndexNew, [], [], [], [], .refl _, hmeet ▸ .refl _, rfl, rfl, by simp, by simp⟩
    dsimp only at h
    split at h
    next => cases h
    next idxNew hnew =>
      obtain ⟨b, rfl, hb⟩ := Option.bind_eq_some_iff.mp hnew
      split_ifs at h with hlater
      · -- the new side is not earlier and steps back
        split at h
        next block hblock =>
          obtain ⟨c, ps, qs, bs, cs, hps, hqs, hbs, hcs, rfl, rfl⟩ := ih h
          have hat : base.blockAt b = some block := by simp [blockAt, hb, hblock]
          exact ⟨c, b :: ps, qs, block :: bs, cs, .step hb hps, hqs, by simp [hat, hbs], hcs,
            by simp, rfl⟩
        next => cases h
      · -- the fork side is later and steps back
        split at h
        next idx hfork =>
          obtain ⟨f, rfl, hf⟩ := Option.bind_eq_some_iff.mp hfork
          split at h
          next block hblock =>
            obtain ⟨c, ps, qs, bs, cs, hps, hqs, hbs, hcs, rfl, rfl⟩ := ih h
            have hat : base.blockAt f = some block := by simp [blockAt, hf, hblock]
            exact ⟨c, ps, f :: qs, bs, block :: cs, hps, .step hf hqs, hbs, by simp [hat, hcs],
              rfl, by simp⟩
          next => cases h
        next => cases h

/-- A genesis block `G` at time 5 and a block `C` on it at time 5, stored by
`Initiate` and `AddNew`: `GetBranch(C, G)` meets the tie and steps both
sides, `C` to `G` and `G` to the null pointer below it, which the next round
dereferences; it returns for no fuel, and `GetBlockView(G)` with `C` as the
fork's last block fails with it. -/
theorem getBranch_steps_past_root :
    let crypto : Crypto := ⟨LittleEndian.decode, fun _ _ _ => false, fun _ _ _ _ => none⟩
    let mint : CTransaction := ⟨1, CTransaction.TX_WORK, 5, 0, 0, [], .ofPubKey 9, 15, 0, [], []⟩
    let genesis : CBlock := ⟨1, CBlock.BLOCK_GENESIS, 5, 0, 0, [], mint, [], []⟩
    let child : CBlockEx := ⟨⟨1, CBlock.BLOCK_PRIMARY, 5, 1, 0, [], mint, [], []⟩, []⟩
    let stored := (initiate crypto 1 genesis).addNew crypto 2 child
    stored.isSome ∧
      (∀ fuel, (stored.bind fun r => getBranch r.1.mapIndex fuel 2 1 []) = none) ∧
      (stored.bind fun r => (r.1.commitBlockView CBlockView.empty 2).getBlockView crypto 1) = none := by
  intro crypto mint genesis child stored
  refine ⟨by decide, ?_, by decide⟩
  intro fuel
  cases fuel with
  | zero => rfl
  | succ fuel => rfl

/-- Blocks `A` at time 10 on a genesis block at time 5, and `F` and `N` at
time 10 on `A`, stored by `Initiate` and `AddNew`: `GetBlockChanges(N, F)`
steps the new side on each tie, from `N` to `A` and from `A` past it, so that
`A`, the lowest common ancestor of `N` and `F`, is both added and removed. -/
theorem getBlockChanges_lists_ancestor_twice :
    let crypto : Crypto := ⟨LittleEndian.decode, fun _ _ _ => false, fun _ _ _ _ => none⟩
    let block (hashPrev nTimeStamp : Nat) (nAmount : Int) : CBlockEx :=
      ⟨⟨1, CBlock.BLOCK_PRIMARY, nTimeStamp, hashPrev, 0, [],
        ⟨1, CTransaction.TX_WORK, nTimeStamp, 0, 0, [], .ofPubKey 9, nAmount, 0, [], []⟩, [], []⟩, []⟩
    let base := (((some (initiate crypto 1 (block 0 5 15).toCBlock)).bind fun b =>
      (b.addNew crypto 2 (block 1 10 15)).map (·.1)).bind fun b =>
        (b.addNew crypto 3 (block 2 10 16)).map (·.1)).bind fun b =>
          (b.addNew crypto 4 (block 2 10 17)).map (·.1)
    base.bind (fun b => b.getBlockChanges (2 * b.mapIndex.size + 1) (some 4) (some 3) [] []) =
      some ([block 2 10 17, block 1 10 15], [block 2 10 16, block 1 10 15]) := by
  decide

end CBlockBase

end Multiverse.Storage
