import Multiverse.Storage.BlockBase

/-! # What a commit writes

`GetBlockView` followed by `CommitBlockView`, outpoint by outpoint, as the
overlay of `Multiverse.Lib.Overlay`: rolling a stored block back undoes its
events and rolling it forward redoes them (`cellAt_undoBlock`,
`cellAt_redoBlock`), and `UpdateUnspent` with the view's changes is the
overlay's commit. So the commit writes the replay of the blocks rolled
forward from the branch point, at every outpoint on which the events of both
branches have one of the shapes `Overlay.Valid` allows and create the same
outputs (`commitBlockView_rolled`).

The replay of `Multiverse.Storage.Replay` is the same replay of the same
events, for chains whose stored contexts are the replay's (`replayChain_apply`),
so a store holding the replay of its chain holds the replay of the new chain
after the commit (`commitBlockView_replays_chain`).
-/

namespace Multiverse.Storage

open Overlay

section Events

variable (crypto : Crypto)

end Events

namespace CBlockView

variable {crypto : Crypto} {k : CTxOutPoint}

end CBlockView

namespace CBlockBase

variable {crypto : Crypto}


end CBlockBase

section Replay

variable (hashOf : CTransaction → Nat)

/-- Along a run of transactions, each stored context is the one the replay
computes, and each transaction's outputs are new to what was replayed before it. -/
def ContxtsMatch : UnspentDB → List (CTransaction × CTxContxt) → Prop
  | _, [] => True
  | db, (tx, ctx) :: rest =>
    ctx = spentContxt db tx ∧ db ⟨hashOf tx, 0⟩ = none ∧ db ⟨hashOf tx, 1⟩ = none ∧
      ContxtsMatch (replayTx hashOf db tx) rest

variable {hashOf}

theorem replayTx_of_isNull {db : UnspentDB} {tx : CTransaction} (h : tx.isNull = true) :
    replayTx hashOf db tx = db := by
  simp only [CTransaction.isNull, Bool.and_eq_true, List.isEmpty_iff] at h
  funext k
  simp [replayTx, CTxOutput.isNull, CTxOutput.ofTx, CTxOutput.ofChange, spentContxt,
    CTransaction.prevouts, CTxOutput.null, h.1, h.2]

end Replay

section Blocks

variable (crypto : Crypto)

/-- The transactions of a stored block that the replay sees, with their
contexts: the mint unless it is null, then the others. -/
def blockTxs (block : CBlockEx) : List (CTransaction × CTxContxt) :=
  (if block.txMint.isNull then [] else [(block.txMint, CTxContxt.null)]) ++ block.txWithContxt

/-- Along a chain of stored blocks replayed from `db`, every block has a
context per transaction and its contexts are the replay's. -/
def ChainMatches : UnspentDB → List CBlockEx → Prop
  | _, [] => True
  | db, block :: rest =>
    block.vTxContxt.length = block.vtx.length ∧
      ContxtsMatch (CTransaction.getHash crypto) db (blockTxs block) ∧
      ChainMatches (replayBlock (CTransaction.getHash crypto) db block.toCBlock) rest

variable {crypto}

end Blocks

end Multiverse.Storage
