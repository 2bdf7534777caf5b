import Multiverse.Storage.BlockView

/-! # Replaying a chain from scratch

The unspent outputs a chain of blocks leaves when it is replayed from nothing:
each block's mint and then its transactions, in order, each consuming its
inputs and creating output 0 and the change output 1 when they are not null.
The destination and the value of the inputs come from the outputs they spend
at that point of the replay. This is what the fork's unspent database is
compared with; `hashOf` is the transaction hash.
-/

namespace Multiverse.Storage

section Replay

variable (hashOf : CTransaction → Nat)

/-- The context the inputs of a transaction have in a set of unspent outputs:
the destination of the first one, and an entry for each. -/
def spentContxt (db : UnspentDB) (tx : CTransaction) : CTxContxt :=
  let vPrev := tx.prevouts.map fun k => (db k).getD CTxOutput.null
  ⟨(vPrev.headD CTxOutput.null).destTo, vPrev.map CTxInContxt.ofOutput⟩

def replayTx (db : UnspentDB) (tx : CTransaction) : UnspentDB :=
  let ctx := spentContxt db tx
  let output0 := CTxOutput.ofTx tx
  let output1 := CTxOutput.ofChange tx ctx.destIn ctx.getValueIn
  fun k =>
    if k = ⟨hashOf tx, 0⟩ ∧ output0.isNull = false then some output0
    else if k = ⟨hashOf tx, 1⟩ ∧ output1.isNull = false then some output1
    else if k ∈ tx.prevouts then none
    else db k

def replayBlock (db : UnspentDB) (b : CBlock) : UnspentDB := b.txs.foldl (replayTx hashOf) db

def replayChain (chain : List CBlock) : UnspentDB :=
  chain.foldl (replayBlock hashOf) fun _ => none

/-- The outpoints a chain creates. -/
def chainOutPoints (chain : List CBlock) : List CTxOutPoint :=
  (chain.flatMap CBlock.txs).flatMap fun tx => [⟨hashOf tx, 0⟩, ⟨hashOf tx, 1⟩]

/-- What a destination owns in the unspent outputs at the end of a chain. -/
def balance (chain : List CBlock) (d : CDestination) : Int :=
  ((((chainOutPoints hashOf chain).dedup.filterMap (replayChain hashOf chain)).filter
    (·.destTo = d)).map (·.nAmount)).sum

end Replay

end Multiverse.Storage
