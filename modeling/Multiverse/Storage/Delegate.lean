import Multiverse.Storage.Replay
import Multiverse.Common.Template

/-! # The delegate vote tally

`CBlockBase::UpdateDelegate` stores, for every primary block, the votes of
every delegate template: those of the previous block, plus what the block's
transactions send to the delegate, minus what they spend from it (amount and
fee; the change returns to it). `CheckConsistency` at level 2 walks the chain
back and undoes each block's votes from the votes of the block after it, and
there it also takes back the amount of a stake mint.

Both walks add, per transaction, the same amount to each destination, so one
undoes the other exactly when the mint is not a stake. The tally leaves the
mint out, while the mint's output is an unspent output of the delegate it
pays.
-/

namespace Multiverse.Storage

/-- `GetTemplateId(tid) && tid.GetType() == TEMPLATE_DELEGATE`. -/
def isDelegateDest (d : CDestination) : Bool :=
  d.isTemplate && CTemplateId.getType d.getTemplateId == TEMPLATE_DELEGATE

/-- `mapDelegate[dest] += nAmount` on a map whose missing entries are 0. -/
def addVote (mapDelegate : CDestination → Int) (dest : CDestination) (nAmount : Int) :
    CDestination → Int :=
  Function.update mapDelegate dest (mapDelegate dest + nAmount)

/-- What one transaction moves to and from delegates. -/
def voteDelta (tx : CTransaction) (txContxt : CTxContxt) (d : CDestination) : Int :=
  (if isDelegateDest tx.sendTo ∧ d = tx.sendTo then tx.nAmount else 0) -
    (if isDelegateDest txContxt.destIn ∧ d = txContxt.destIn then tx.nAmount + tx.nTxFee else 0)

/-- The loop body of `UpdateDelegate`. -/
def voteTx (mapDelegate : CDestination → Int) (tx : CTransaction) (txContxt : CTxContxt) :
    CDestination → Int :=
  let m := if isDelegateDest tx.sendTo then addVote mapDelegate tx.sendTo tx.nAmount else mapDelegate
  if isDelegateDest txContxt.destIn then addVote m txContxt.destIn (-(tx.nAmount + tx.nTxFee)) else m

/-- The loop body of the delegate replay of `CheckConsistency`. -/
def unvoteTx (mapDelegate : CDestination → Int) (tx : CTransaction) (txContxt : CTxContxt) :
    CDestination → Int :=
  let m := if isDelegateDest tx.sendTo then addVote mapDelegate tx.sendTo (-tx.nAmount) else mapDelegate
  if isDelegateDest txContxt.destIn then addVote m txContxt.destIn (tx.nAmount + tx.nTxFee) else m

/-- The transactions of a stored block with their contexts, `vTxContxt[i]` for `vtx[i]`. -/
def txWithContxt (block : CBlockEx) : List (CTransaction × CTxContxt) :=
  block.vtx.zipIdx.map fun p => (p.1, block.vTxContxt.getD p.2 CTxContxt.null)

/-- The votes `UpdateDelegate(hash, block)` stores, from the previous block's. -/
def updateDelegate (mapPrev : CDestination → Int) (block : CBlockEx) : CDestination → Int :=
  (txWithContxt block).foldl (fun m p => voteTx m p.1 p.2) mapPrev

/-- The votes `CheckConsistency` expects of the previous block, from a block's. -/
def checkDelegate (mapNext : CDestination → Int) (block : CBlockEx) : CDestination → Int :=
  let m := if block.txMint.nType = CTransaction.TX_STAKE then
      addVote mapNext block.txMint.sendTo (-block.txMint.nAmount)
    else mapNext
  (txWithContxt block).foldl (fun m p => unvoteTx m p.1 p.2) m

theorem addVote_apply (m : CDestination → Int) (dest : CDestination) (n : Int) (d : CDestination) :
    addVote m dest n d = m d + if d = dest then n else 0 := by
  by_cases h : d = dest
  · subst h
    simp [addVote]
  · simp [addVote, h]

theorem voteTx_apply (m : CDestination → Int) (tx : CTransaction) (txContxt : CTxContxt)
    (d : CDestination) : voteTx m tx txContxt d = m d + voteDelta tx txContxt d := by
  unfold voteTx voteDelta
  split_ifs <;> simp_all [addVote_apply]
  omega

theorem unvoteTx_apply (m : CDestination → Int) (tx : CTransaction) (txContxt : CTxContxt)
    (d : CDestination) : unvoteTx m tx txContxt d = m d - voteDelta tx txContxt d := by
  unfold unvoteTx voteDelta
  split_ifs <;> simp_all [addVote_apply] <;> omega

theorem foldl_unvoteTx_voteTx (ps : List (CTransaction × CTxContxt)) (m : CDestination → Int) :
    ps.foldl (fun m p => unvoteTx m p.1 p.2) (ps.foldl (fun m p => voteTx m p.1 p.2) m) = m := by
  have hv : ∀ (ps : List (CTransaction × CTxContxt)) m d,
      ps.foldl (fun m p => voteTx m p.1 p.2) m d = m d + (ps.map fun p => voteDelta p.1 p.2 d).sum := by
    intro ps
    induction ps with
    | nil => simp
    | cons p ps ih =>
      intro m d
      rw [List.foldl_cons, ih, voteTx_apply, List.map_cons, List.sum_cons]
      ring
  have hu : ∀ (ps : List (CTransaction × CTxContxt)) m d,
      ps.foldl (fun m p => unvoteTx m p.1 p.2) m d = m d - (ps.map fun p => voteDelta p.1 p.2 d).sum := by
    intro ps
    induction ps with
    | nil => simp
    | cons p ps ih =>
      intro m d
      rw [List.foldl_cons, ih, unvoteTx_apply, List.map_cons, List.sum_cons]
      ring
  funext d
  rw [hu, hv]
  ring

theorem checkDelegate_updateDelegate (mapPrev : CDestination → Int) (block : CBlockEx) :
    checkDelegate (updateDelegate mapPrev block) block =
      if block.txMint.nType = CTransaction.TX_STAKE then
        addVote mapPrev block.txMint.sendTo (-block.txMint.nAmount)
      else mapPrev := by
  unfold checkDelegate updateDelegate
  split_ifs with hs
  · funext d
    have hv : ∀ (ps : List (CTransaction × CTxContxt)) (m : CDestination → Int) (dest : CDestination)
        (n : Int), addVote (ps.foldl (fun m p => voteTx m p.1 p.2) m) dest n =
          ps.foldl (fun m p => voteTx m p.1 p.2) (addVote m dest n) := by
      intro ps
      induction ps with
      | nil => simp
      | cons p ps ih =>
        intro m dest n
        rw [List.foldl_cons, List.foldl_cons, ih]
        congr 1
        funext e
        simp only [voteTx_apply, addVote_apply]
        ring
    rw [hv, foldl_unvoteTx_voteTx]
  · exact foldl_unvoteTx_voteTx _ _

set_option maxRecDepth 4000 in
/-- After a genesis block paying 1000 to a key, a primary block whose stake
mint pays 100 to a delegate template leaves that delegate an unspent output
of 100, but `UpdateDelegate` records no vote for it, and the backward replay
of `CheckConsistency` expects the previous block to have had -100. -/
theorem updateDelegate_misses_stake_mint :
    let hashOf : CTransaction → Nat :=
      CTransaction.getHash ⟨LittleEndian.decode, fun _ _ _ => false, fun _ _ _ _ => none⟩
    let d := CDestination.ofTemplateId (CTemplateId.ofType TEMPLATE_DELEGATE 1)
    let genesis : CBlock := ⟨1, CBlock.BLOCK_GENESIS, 0, 0, 0, [],
      ⟨1, CTransaction.TX_GENESIS, 0, 0, 0, [], .ofPubKey 9, 1000, 0, [], []⟩, [], []⟩
    let block : CBlockEx := ⟨⟨1, CBlock.BLOCK_PRIMARY, 60, 1, 0, [],
      ⟨1, CTransaction.TX_STAKE, 60, 0, 0, [], d, 100, 0, [], []⟩, [], []⟩, []⟩
    updateDelegate (fun _ => 0) block d = 0 ∧
      balance hashOf [genesis, block.toCBlock] d = 100 ∧
      checkDelegate (updateDelegate (fun _ => 0) block) block d = -100 := by
  decide

end Multiverse.Storage
