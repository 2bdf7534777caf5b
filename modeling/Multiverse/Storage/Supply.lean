import Mathlib.Algebra.BigOperators.Group.Finset.Piecewise
import Mathlib.Algebra.Order.BigOperators.Group.Finset
import Multiverse.Storage.Commit
import Multiverse.Storage.Delegate

/-! # The money supply and the delegate votes

`nMoneySupply` of a block is the sum of `GetBlockMint`, the mint's amount less
the block's fees, over its chain. A chain `AddNewBlock` accepted block by
block has the contexts and new outputs of `ChainMatches`, and passes at each
transaction's point of the replay the checks of `ChainChecked`: `GetTxContxt`
finds the inputs unspent and going to one destination, `ValidateTransaction`
finds them distinct, the amount in range and a mint without inputs, and
`VerifyBlockTx` (or `VerifyTransaction`, for a transaction the pool holds)
finds the value in covering amount and fee.

Replaying such a chain keeps the value of the unspent outputs within the
money supply: a transaction destroys its fee and a mint creates at most its
amount (`Ledger`). The votes `UpdateDelegate` records move exactly with the
outputs of each delegate, except for the stake mints they leave out, which
only add to the outputs; so each delegate's votes stay within what its
unspent outputs hold (`VotesWithin`). Values are summed over a finite set `F`
of outpoints that holds every output the chain creates.
-/

namespace Multiverse.Storage

/-- `nMoneySupply` of a chain's last block: `AddNewIndex` adds each block's
`GetBlockMint` to its previous block's. -/
def moneySupply (chain : List CBlock) : Int := (chain.map CBlock.getBlockMint).sum

/-- What an unspent output holds for the destinations `p` accepts. -/
def outValue (p : CDestination → Bool) : Option CTxOutput → Int
  | none => 0
  | some o => if p o.destTo then o.nAmount else 0

/-- What the unspent outputs at the outpoints `F` hold for the destinations `p` accepts. -/
def heldBy (db : UnspentDB) (F : Finset CTxOutPoint) (p : CDestination → Bool) : Int :=
  ∑ k ∈ F, outValue p (db k)

/-- The votes `UpdateDelegate` stores for the last of `blocks`, from the empty
votes `Initiate` stores for the genesis block. -/
def delegateTally (blocks : List CBlockEx) : CDestination → Int :=
  blocks.foldl updateDelegate fun _ => 0

/-- The checks of a transaction at its point `db` of the chain. -/
structure TxChecked (db : UnspentDB) (tx : CTransaction) : Prop where
  inputs : ∀ k ∈ tx.prevouts, ∃ o, db k = some o ∧ o.destTo = (spentContxt db tx).destIn
  nodup : tx.prevouts.Nodup
  amount : 0 ≤ tx.nAmount
  value : tx.nAmount + tx.nTxFee ≤ (spentContxt db tx).getValueIn

section Checks

variable (hashOf : CTransaction → Nat)

/-- Every transaction of `txs` checked at its point of the replay from `db`. -/
def TxsChecked : UnspentDB → List CTransaction → Prop
  | _, [] => True
  | db, tx :: txs => TxChecked db tx ∧ TxsChecked (replayTx hashOf db tx) txs

/-- Every block of a chain checked at its point of the replay from `db`: the
mint without inputs and of an amount in range, the other transactions as
`TxChecked` says. -/
def ChainChecked : UnspentDB → List CBlockEx → Prop
  | _, [] => True
  | db, b :: bs => b.txMint.vInput = [] ∧ 0 ≤ b.txMint.nAmount ∧
      TxsChecked hashOf (replayTx hashOf db b.txMint) b.vtx ∧
      ChainChecked (replayBlock hashOf db b.toCBlock) bs

end Checks

/-- The unspent outputs of a replay: none null, all at outpoints of `F`, and
together within the money supply `S`. -/
structure Ledger (F : Finset CTxOutPoint) (S : Int) (db : UnspentDB) : Prop where
  notNull : ∀ k o, db k = some o → o.isNull = false
  support : ∀ k o, db k = some o → k ∈ F
  total : heldBy db F (fun _ => true) ≤ S

/-- Votes within what each delegate's unspent outputs hold, and none for
another destination. -/
structure VotesWithin (F : Finset CTxOutPoint) (db : UnspentDB) (mapDelegate : CDestination → Int) :
    Prop where
  delegate : ∀ d, isDelegateDest d = true → mapDelegate d ≤ heldBy db F (· == d)
  other : ∀ d, isDelegateDest d = false → mapDelegate d = 0

/-! ## Values of outputs -/

@[simp] theorem outValue_none (p : CDestination → Bool) : outValue p none = 0 := rfl

@[simp] theorem outValue_some (p : CDestination → Bool) (o : CTxOutput) :
    outValue p (some o) = if p o.destTo then o.nAmount else 0 := rfl

theorem outValue_toOption (p : CDestination → Bool) {o : CTxOutput} (ho : 0 ≤ o.nAmount) :
    outValue p o.toOption = if p o.destTo ∧ o.destTo.isNull = false then o.nAmount else 0 := by
  unfold CTxOutput.toOption CTxOutput.isNull
  by_cases hn : o.destTo.isNull
  · simp [hn]
  · by_cases h0 : o.nAmount ≤ 0
    · have hz : o.nAmount = 0 := by omega
      simp [hn, hz]
    · simp [hn, h0]

theorem outValue_nonneg (p : CDestination → Bool) {x : Option CTxOutput}
    (h : ∀ o, x = some o → o.isNull = false) : 0 ≤ outValue p x := by
  cases x with
  | none => exact le_refl 0
  | some o =>
    have ho := h o rfl
    simp only [CTxOutput.isNull, Bool.or_eq_false_iff, decide_eq_false_iff_not, not_le] at ho
    rw [outValue_some]
    split_ifs <;> omega

theorem outValue_le_true (p : CDestination → Bool) {x : Option CTxOutput}
    (h : ∀ o, x = some o → o.isNull = false) : outValue p x ≤ outValue (fun _ => true) x := by
  cases x with
  | none => exact le_refl 0
  | some o =>
    have ho := outValue_nonneg (fun _ => true) h
    rw [outValue_some, if_pos rfl] at ho
    rw [outValue_some, outValue_some, if_pos rfl]
    split_ifs <;> omega

theorem isNull_of_isDelegateDest {d : CDestination} (hd : isDelegateDest d = true) :
    d.isNull = false := by
  simp only [isDelegateDest, Bool.and_eq_true, CDestination.isTemplate, beq_iff_eq] at hd
  simp [CDestination.isNull, hd.1, CDestination.PREFIX_NULL, CDestination.PREFIX_TEMPLATE]

/-! ## One transaction of the replay -/

section Step

variable {hashOf : CTransaction → Nat} {db : UnspentDB} {tx : CTransaction}

theorem getValueIn_spentContxt :
    (spentContxt db tx).getValueIn = (tx.prevouts.map fun k => ((db k).getD CTxOutput.null).nAmount).sum := by
  simp [spentContxt, CTxContxt.getValueIn, CTxInContxt.ofOutput, Function.comp_def]

theorem replayTx_out (hlive : ∀ k ∈ tx.prevouts, db k ≠ none)
    (h0 : db ⟨hashOf tx, 0⟩ = none) (h1 : db ⟨hashOf tx, 1⟩ = none) :
    replayTx hashOf db tx ⟨hashOf tx, 0⟩ = (CTxOutput.ofTx tx).toOption ∧
      replayTx hashOf db tx ⟨hashOf tx, 1⟩ =
        (CTxOutput.ofChange tx (spentContxt db tx).destIn (spentContxt db tx).getValueIn).toOption := by
  have hm0 : (⟨hashOf tx, 0⟩ : CTxOutPoint) ∉ tx.prevouts := fun hm => hlive _ hm h0
  have hm1 : (⟨hashOf tx, 1⟩ : CTxOutPoint) ∉ tx.prevouts := fun hm => hlive _ hm h1
  constructor
  · unfold replayTx
    cases hn : (CTxOutput.ofTx tx).isNull <;> simp [hn, hm0, h0, CTxOutput.toOption]
  · unfold replayTx
    cases hn : (CTxOutput.ofChange tx (spentContxt db tx).destIn (spentContxt db tx).getValueIn).isNull <;>
      simp [hn, hm1, h1, CTxOutput.toOption]

theorem replayTx_of_ne {k : CTxOutPoint} (hk0 : k ≠ ⟨hashOf tx, 0⟩) (hk1 : k ≠ ⟨hashOf tx, 1⟩) :
    replayTx hashOf db tx k = if k ∈ tx.prevouts then none else db k := by
  simp [replayTx, hk0, hk1]

theorem sum_prevouts_outValue (p : CDestination → Bool)
    (hin : ∀ k ∈ tx.prevouts, ∃ o, db k = some o ∧ o.destTo = (spentContxt db tx).destIn)
    (hnodup : tx.prevouts.Nodup) :
    ∑ k ∈ tx.prevouts.toFinset, outValue p (db k) =
      if p (spentContxt db tx).destIn then (spentContxt db tx).getValueIn else 0 := by
  have hterm : ∀ k ∈ tx.prevouts, outValue p (db k) =
      if p (spentContxt db tx).destIn then ((db k).getD CTxOutput.null).nAmount else 0 := by
    intro k hk
    obtain ⟨o, ho, hdest⟩ := hin k hk
    rw [ho, outValue_some, hdest, Option.getD_some]
  rw [List.sum_toFinset _ hnodup, List.map_congr_left hterm, getValueIn_spentContxt]
  split_ifs <;> simp

theorem heldBy_replayTx (p : CDestination → Bool) {F : Finset CTxOutPoint}
    (hin : ∀ k ∈ tx.prevouts, ∃ o, db k = some o ∧ o.destTo = (spentContxt db tx).destIn)
    (hnodup : tx.prevouts.Nodup) (h0 : db ⟨hashOf tx, 0⟩ = none) (h1 : db ⟨hashOf tx, 1⟩ = none)
    (hF : ∀ k ∈ tx.prevouts, k ∈ F) (hF0 : ⟨hashOf tx, 0⟩ ∈ F) (hF1 : ⟨hashOf tx, 1⟩ ∈ F) :
    heldBy (replayTx hashOf db tx) F p =
      heldBy db F p - (if p (spentContxt db tx).destIn then (spentContxt db tx).getValueIn else 0) +
        outValue p (CTxOutput.ofTx tx).toOption +
        outValue p (CTxOutput.ofChange tx (spentContxt db tx).destIn (spentContxt db tx).getValueIn).toOption := by
  have hlive : ∀ k ∈ tx.prevouts, db k ≠ none := fun k hk => by
    obtain ⟨o, ho, -⟩ := hin k hk
    rw [ho]
    exact Option.some_ne_none o
  obtain ⟨hout0, hout1⟩ := @replayTx_out hashOf db tx hlive h0 h1
  have hm0 : (⟨hashOf tx, 0⟩ : CTxOutPoint) ∉ tx.prevouts.toFinset := by
    simpa using fun hm => hlive _ hm h0
  have hm1 : (⟨hashOf tx, 1⟩ : CTxOutPoint) ∉ tx.prevouts.toFinset := by
    simpa using fun hm => hlive _ hm h1
  have h01 : (⟨hashOf tx, 0⟩ : CTxOutPoint) ∉ insert ⟨hashOf tx, 1⟩ tx.prevouts.toFinset := by
    simp only [Finset.mem_insert, CTxOutPoint.mk.injEq, true_and]
    exact fun h => h.elim (by decide) hm0
  set S := insert ⟨hashOf tx, 0⟩ (insert ⟨hashOf tx, 1⟩ tx.prevouts.toFinset) with hSdef
  have hS : S ⊆ F := by
    intro k hk
    simp only [hSdef, Finset.mem_insert, List.mem_toFinset] at hk
    rcases hk with rfl | rfl | hk
    · exact hF0
    · exact hF1
    · exact hF k hk
  have hoff : ∀ k ∈ F \ S, outValue p (replayTx hashOf db tx k) = outValue p (db k) := by
    intro k hk
    simp only [hSdef, Finset.mem_sdiff, Finset.mem_insert, List.mem_toFinset, not_or] at hk
    rw [replayTx_of_ne hk.2.1 hk.2.2.1, if_neg hk.2.2.2]
  have hnew : ∑ k ∈ S, outValue p (replayTx hashOf db tx k) =
      outValue p (CTxOutput.ofTx tx).toOption +
        outValue p (CTxOutput.ofChange tx (spentContxt db tx).destIn (spentContxt db tx).getValueIn).toOption := by
    have hspent : ∑ k ∈ tx.prevouts.toFinset, outValue p (replayTx hashOf db tx k) = 0 := by
      refine Finset.sum_eq_zero fun k hk => ?_
      have hk' := List.mem_toFinset.mp hk
      rw [replayTx_of_ne (fun h => hm0 (h ▸ hk)) (fun h => hm1 (h ▸ hk)), if_pos hk', outValue_none]
    rw [hSdef, Finset.sum_insert h01, Finset.sum_insert hm1, hspent, hout0, hout1, add_zero]
  have hold : ∑ k ∈ S, outValue p (db k) =
      if p (spentContxt db tx).destIn then (spentContxt db tx).getValueIn else 0 := by
    rw [hSdef, Finset.sum_insert h01, Finset.sum_insert hm1, h0, h1, outValue_none, zero_add, zero_add,
      sum_prevouts_outValue p hin hnodup]
  have hsplit := Finset.sum_sdiff hS (f := fun k => outValue p (replayTx hashOf db tx k))
  have hsplit' := Finset.sum_sdiff hS (f := fun k => outValue p (db k))
  rw [Finset.sum_congr rfl hoff] at hsplit
  unfold heldBy
  rw [← hsplit, ← hsplit', hnew, hold]
  ring

end Step

/-! ## The ledger and the votes along the replay -/

section Invariants

variable {hashOf : CTransaction → Nat} {F : Finset CTxOutPoint} {S : Int} {db : UnspentDB}
  {tx : CTransaction}

theorem heldBy_nonneg (hl : Ledger F S db) (p : CDestination → Bool) : 0 ≤ heldBy db F p :=
  Finset.sum_nonneg fun k _ => outValue_nonneg p fun o ho => hl.notNull k o ho

theorem isNull_of_toOption {o v : CTxOutput} (h : o.toOption = some v) : v.isNull = false := by
  obtain ⟨hn, rfl⟩ := CTxOutput.toOption_eq_some.mp h
  exact hn

theorem replayTx_stored (hl : Ledger F S db) (hlive : ∀ k ∈ tx.prevouts, db k ≠ none)
    (h0 : db ⟨hashOf tx, 0⟩ = none) (h1 : db ⟨hashOf tx, 1⟩ = none)
    (hF0 : ⟨hashOf tx, 0⟩ ∈ F) (hF1 : ⟨hashOf tx, 1⟩ ∈ F) (k : CTxOutPoint) (o : CTxOutput)
    (hk : replayTx hashOf db tx k = some o) : o.isNull = false ∧ k ∈ F := by
  obtain ⟨hout0, hout1⟩ := @replayTx_out hashOf db tx hlive h0 h1
  by_cases hk0 : k = ⟨hashOf tx, 0⟩
  · subst hk0
    exact ⟨isNull_of_toOption (hout0 ▸ hk), hF0⟩
  by_cases hk1 : k = ⟨hashOf tx, 1⟩
  · subst hk1
    exact ⟨isNull_of_toOption (hout1 ▸ hk), hF1⟩
  rw [replayTx_of_ne hk0 hk1] at hk
  split_ifs at hk
  exact ⟨hl.notNull k o hk, hl.support k o hk⟩

theorem ledger_replayTx (hl : Ledger F S db) (hc : TxChecked db tx) (h0 : db ⟨hashOf tx, 0⟩ = none)
    (h1 : db ⟨hashOf tx, 1⟩ = none) (hF0 : ⟨hashOf tx, 0⟩ ∈ F) (hF1 : ⟨hashOf tx, 1⟩ ∈ F) :
    Ledger F (S - tx.nTxFee) (replayTx hashOf db tx) := by
  have hlive : ∀ k ∈ tx.prevouts, db k ≠ none := fun k hk => by
    obtain ⟨o, ho, -⟩ := hc.inputs k hk
    rw [ho]
    exact Option.some_ne_none o
  have hF : ∀ k ∈ tx.prevouts, k ∈ F := fun k hk => by
    obtain ⟨o, ho, -⟩ := hc.inputs k hk
    exact hl.support k o ho
  refine ⟨fun k o hk => (replayTx_stored hl hlive h0 h1 hF0 hF1 k o hk).1,
    fun k o hk => (replayTx_stored hl hlive h0 h1 hF0 hF1 k o hk).2, ?_⟩
  have hout0 : outValue (fun _ => true) (CTxOutput.ofTx tx).toOption ≤ tx.nAmount := by
    rw [outValue_toOption _ hc.amount]
    split_ifs
    · exact le_refl _
    · exact hc.amount
  have hchange : 0 ≤ (spentContxt db tx).getValueIn - tx.nAmount - tx.nTxFee := by
    have := hc.value
    omega
  have hout1 : outValue (fun _ => true)
      (CTxOutput.ofChange tx (spentContxt db tx).destIn (spentContxt db tx).getValueIn).toOption ≤
        (spentContxt db tx).getValueIn - tx.nAmount - tx.nTxFee := by
    rw [outValue_toOption _ hchange]
    split_ifs
    · exact le_refl _
    · exact hchange
  rw [heldBy_replayTx _ hc.inputs hc.nodup h0 h1 hF hF0 hF1, if_pos rfl]
  have htotal := hl.total
  omega

theorem votesWithin_replayTx {t : CDestination → Int} (hl : Ledger F S db) (hv : VotesWithin F db t)
    (hc : TxChecked db tx) (h0 : db ⟨hashOf tx, 0⟩ = none) (h1 : db ⟨hashOf tx, 1⟩ = none)
    (hF0 : ⟨hashOf tx, 0⟩ ∈ F) (hF1 : ⟨hashOf tx, 1⟩ ∈ F) :
    VotesWithin F (replayTx hashOf db tx) (voteTx t tx (spentContxt db tx)) := by
  have hF : ∀ k ∈ tx.prevouts, k ∈ F := fun k hk => by
    obtain ⟨o, ho, -⟩ := hc.inputs k hk
    exact hl.support k o ho
  constructor
  · intro d hd
    have hdn := isNull_of_isDelegateDest hd
    have hchange : 0 ≤ (spentContxt db tx).getValueIn - tx.nAmount - tx.nTxFee := by
      have := hc.value
      omega
    rw [voteTx_apply, heldBy_replayTx _ hc.inputs hc.nodup h0 h1 hF hF0 hF1,
      outValue_toOption _ hc.amount, outValue_toOption _ hchange]
    have hle := hv.delegate d hd
    unfold voteDelta
    simp only [CTxOutput.ofTx, CTxOutput.ofChange, CTransaction.getChange, beq_iff_eq, @eq_comm _ d]
    by_cases hs : tx.sendTo = d <;> by_cases hi : (spentContxt db tx).destIn = d <;>
      simp [hs, hi, hd, hdn] <;> omega
  · intro d hd
    rw [voteTx_apply, hv.other d hd]
    unfold voteDelta
    have hs : ¬(isDelegateDest tx.sendTo = true ∧ d = tx.sendTo) := fun h => by
      rw [← h.2, hd] at h
      exact Bool.false_ne_true h.1
    have hi : ¬(isDelegateDest (spentContxt db tx).destIn = true ∧ d = (spentContxt db tx).destIn) :=
      fun h => by
        rw [← h.2, hd] at h
        exact Bool.false_ne_true h.1
    rw [if_neg hs, if_neg hi]
    rfl

theorem votesWithin_zero (hl : Ledger F S db) : VotesWithin F db fun _ => 0 :=
  ⟨fun _ _ => heldBy_nonneg hl _, fun _ _ => rfl⟩

theorem spentContxt_of_vInput_nil (hin : tx.vInput = []) : spentContxt db tx = CTxContxt.null := by
  simp [spentContxt, CTransaction.prevouts, hin, CTxContxt.null, CTxOutput.null]

theorem mint_replayTx {t : CDestination → Int} (hl : Ledger F S db) (hv : VotesWithin F db t)
    (hin : tx.vInput = []) (hamount : 0 ≤ tx.nAmount) (h0 : db ⟨hashOf tx, 0⟩ = none)
    (h1 : db ⟨hashOf tx, 1⟩ = none) (hF0 : ⟨hashOf tx, 0⟩ ∈ F) (hF1 : ⟨hashOf tx, 1⟩ ∈ F) :
    Ledger F (S + tx.nAmount) (replayTx hashOf db tx) ∧ VotesWithin F (replayTx hashOf db tx) t := by
  have hnil : tx.prevouts = [] := by simp [CTransaction.prevouts, hin]
  have hinputs : ∀ k ∈ tx.prevouts, ∃ o, db k = some o ∧ o.destTo = (spentContxt db tx).destIn := by
    simp [hnil]
  have hlive : ∀ k ∈ tx.prevouts, db k ≠ none := by simp [hnil]
  have hF : ∀ k ∈ tx.prevouts, k ∈ F := by simp [hnil]
  have hnodup : tx.prevouts.Nodup := hnil ▸ List.nodup_nil
  -- the change goes to the null destination of an input-less context: it is never stored
  have hheld : ∀ p, heldBy (replayTx hashOf db tx) F p = heldBy db F p + outValue p (CTxOutput.ofTx tx).toOption := by
    intro p
    rw [heldBy_replayTx p hinputs hnodup h0 h1 hF hF0 hF1, spentContxt_of_vInput_nil hin]
    simp [CTxContxt.null, CTxContxt.getValueIn, CTxOutput.toOption, CTxOutput.isNull, CTxOutput.ofChange]
  have hout : ∀ p, 0 ≤ outValue p (CTxOutput.ofTx tx).toOption := fun p =>
    outValue_nonneg p fun o ho => isNull_of_toOption ho
  refine ⟨⟨fun k o hk => (replayTx_stored hl hlive h0 h1 hF0 hF1 k o hk).1,
    fun k o hk => (replayTx_stored hl hlive h0 h1 hF0 hF1 k o hk).2, ?_⟩, ⟨fun d hd => ?_, hv.other⟩⟩
  · have hle : outValue (fun _ => true) (CTxOutput.ofTx tx).toOption ≤ tx.nAmount := by
      rw [outValue_toOption _ hamount]
      split_ifs
      · exact le_refl _
      · exact hamount
    rw [hheld]
    have := hl.total
    omega
  · rw [hheld]
    have := hv.delegate d hd
    have := hout (· == d)
    omega

end Invariants

/-! ## Blocks and chains -/

section Chain

variable {crypto : Crypto} {F : Finset CTxOutPoint}

theorem txWithContxt_eq (block : CBlockEx) : txWithContxt block = block.txWithContxt := by
  apply List.ext_getElem
  · simp [txWithContxt, CBlockEx.txWithContxt]
  · intro i h1 h2
    simp [txWithContxt, CBlockEx.txWithContxt]

theorem accounts_foldl_replayTx :
    ∀ (l : List (CTransaction × CTxContxt)) (S : Int) (db : UnspentDB) (t : CDestination → Int),
      Ledger F S db → VotesWithin F db t → ContxtsMatch (CTransaction.getHash crypto) db l →
      TxsChecked (CTransaction.getHash crypto) db (l.map Prod.fst) →
      (∀ e ∈ l, (⟨e.1.getHash crypto, 0⟩ : CTxOutPoint) ∈ F ∧ (⟨e.1.getHash crypto, 1⟩ : CTxOutPoint) ∈ F) →
      Ledger F (S - (l.map (·.1.nTxFee)).sum) ((l.map Prod.fst).foldl (replayTx (CTransaction.getHash crypto)) db) ∧
        VotesWithin F ((l.map Prod.fst).foldl (replayTx (CTransaction.getHash crypto)) db)
          (l.foldl (fun m p => voteTx m p.1 p.2) t)
  | [], S, db, t, hl, hv, _, _, _ => by simpa using ⟨hl, hv⟩
  | (tx, ctx) :: l, S, db, t, hl, hv, hm, hc, hF => by
    obtain ⟨rfl, h0, h1, hm⟩ := hm
    obtain ⟨htx, hc⟩ := hc
    obtain ⟨hF0, hF1⟩ := hF _ List.mem_cons_self
    have ih := accounts_foldl_replayTx l _ _ _ (ledger_replayTx hl htx h0 h1 hF0 hF1)
      (votesWithin_replayTx hl hv htx h0 h1 hF0 hF1) hm hc fun e he => hF e (List.mem_cons_of_mem _ he)
    simp only [List.map_cons, List.foldl_cons, List.sum_cons]
    rwa [show S - (tx.nTxFee + (l.map (·.1.nTxFee)).sum) = S - tx.nTxFee - (l.map (·.1.nTxFee)).sum by ring]

theorem Ledger.mono {S S' : Int} {db : UnspentDB} (hl : Ledger F S db) (h : S ≤ S') : Ledger F S' db :=
  ⟨hl.notNull, hl.support, le_trans hl.total h⟩

theorem accounts_replayBlock {S : Int} {db : UnspentDB} {t : CDestination → Int} {b : CBlockEx}
    (hl : Ledger F S db) (hv : VotesWithin F db t) (hlen : b.vTxContxt.length = b.vtx.length)
    (hm : ContxtsMatch (CTransaction.getHash crypto) db (blockTxs b)) (hmint : b.txMint.vInput = [])
    (hamount : 0 ≤ b.txMint.nAmount)
    (hc : TxsChecked (CTransaction.getHash crypto) (replayTx (CTransaction.getHash crypto) db b.txMint) b.vtx)
    (hF : ∀ tx ∈ b.toCBlock.txs, (⟨tx.getHash crypto, 0⟩ : CTxOutPoint) ∈ F ∧ (⟨tx.getHash crypto, 1⟩ : CTxOutPoint) ∈ F) :
    Ledger F (S + b.getBlockMint) (replayBlock (CTransaction.getHash crypto) db b.toCBlock) ∧
      VotesWithin F (replayBlock (CTransaction.getHash crypto) db b.toCBlock) (updateDelegate t b) := by
  have hvtx : b.txWithContxt.map Prod.fst = b.vtx := by
    rw [CBlockEx.txWithContxt_eq_zip _ hlen, List.map_fst_zip (le_of_eq hlen.symm)]
  have hfees : (b.txWithContxt.map (·.1.nTxFee)).sum = (b.vtx.map (·.nTxFee)).sum := by
    rw [← hvtx, List.map_map]
    rfl
  -- the mint first: a null one changes nothing, another creates at most its amount
  have hafter : Ledger F (S + b.txMint.nAmount) (replayTx (CTransaction.getHash crypto) db b.txMint) ∧
      VotesWithin F (replayTx (CTransaction.getHash crypto) db b.txMint) t ∧
      ContxtsMatch (CTransaction.getHash crypto) (replayTx (CTransaction.getHash crypto) db b.txMint)
        b.txWithContxt := by
    unfold blockTxs at hm
    split_ifs at hm with hnull
    · rw [replayTx_of_isNull hnull]
      exact ⟨hl.mono (by omega), hv, hm⟩
    · obtain ⟨-, h0, h1, hm⟩ := hm
      obtain ⟨hF0, hF1⟩ := hF b.txMint List.mem_cons_self
      exact ⟨(mint_replayTx hl hv hmint hamount h0 h1 hF0 hF1).1,
        (mint_replayTx hl hv hmint hamount h0 h1 hF0 hF1).2, hm⟩
  obtain ⟨hl1, hv1, hm1⟩ := hafter
  have hFvtx : ∀ e ∈ b.txWithContxt, (⟨e.1.getHash crypto, 0⟩ : CTxOutPoint) ∈ F ∧
      (⟨e.1.getHash crypto, 1⟩ : CTxOutPoint) ∈ F := fun e he =>
    hF e.1 (List.mem_cons_of_mem _ (hvtx ▸ List.mem_map_of_mem he))
  have hrun := accounts_foldl_replayTx b.txWithContxt _ _ _ hl1 hv1 hm1 (hvtx ▸ hc) hFvtx
  rw [hvtx, hfees] at hrun
  unfold replayBlock updateDelegate
  rw [CBlock.txs, List.foldl_cons, txWithContxt_eq, CBlock.getBlockMint]
  rwa [show S + (b.txMint.nAmount - (b.vtx.map (·.nTxFee)).sum) =
    S + b.txMint.nAmount - (b.vtx.map (·.nTxFee)).sum by ring]

theorem accounts_foldl_replayBlock :
    ∀ (bs : List CBlockEx) (S : Int) (db : UnspentDB) (t : CDestination → Int),
      Ledger F S db → VotesWithin F db t → ChainMatches crypto db bs →
      ChainChecked (CTransaction.getHash crypto) db bs →
      (∀ tx ∈ (bs.map CBlockEx.toCBlock).flatMap CBlock.txs,
        (⟨tx.getHash crypto, 0⟩ : CTxOutPoint) ∈ F ∧ (⟨tx.getHash crypto, 1⟩ : CTxOutPoint) ∈ F) →
      Ledger F (S + moneySupply (bs.map CBlockEx.toCBlock))
          ((bs.map CBlockEx.toCBlock).foldl (replayBlock (CTransaction.getHash crypto)) db) ∧
        VotesWithin F ((bs.map CBlockEx.toCBlock).foldl (replayBlock (CTransaction.getHash crypto)) db)
          (bs.foldl updateDelegate t)
  | [], S, db, t, hl, hv, _, _, _ => by simpa [moneySupply] using ⟨hl, hv⟩
  | b :: bs, S, db, t, hl, hv, hm, hc, hF => by
    obtain ⟨hlen, hmb, hm⟩ := hm
    obtain ⟨hmint, hamount, hcb, hc⟩ := hc
    have hstep := accounts_replayBlock hl hv hlen hmb hmint hamount hcb fun tx htx =>
      hF tx (List.mem_flatMap.mpr ⟨b.toCBlock, List.mem_cons_self, htx⟩)
    have ih := accounts_foldl_replayBlock bs _ _ _ hstep.1 hstep.2 hm hc fun tx htx =>
      hF tx (by
        obtain ⟨b', hb', htx'⟩ := List.mem_flatMap.mp htx
        exact List.mem_flatMap.mpr ⟨b', List.mem_cons_of_mem _ hb', htx'⟩)
    simp only [List.map_cons, List.foldl_cons, moneySupply, List.sum_cons] at ih ⊢
    rwa [← add_assoc]

theorem heldBy_le_total {S : Int} {db : UnspentDB} (hl : Ledger F S db) (p : CDestination → Bool) :
    heldBy db F p ≤ heldBy db F fun _ => true :=
  Finset.sum_le_sum fun k _ => outValue_le_true p fun o ho => hl.notNull k o ho

theorem sum_heldBy_eq {db : UnspentDB} (E : Finset CDestination) :
    ∑ d ∈ E, heldBy db F (· == d) = heldBy db F fun d => decide (d ∈ E) := by
  unfold heldBy
  rw [Finset.sum_comm]
  refine Finset.sum_congr rfl fun k _ => ?_
  cases db k with
  | none => simp
  | some o => simp [Finset.sum_ite_eq]

theorem sum_delegateTally_le_moneySupply (genesis : CBlockEx) (blocks : List CBlockEx)
    (hm : ChainMatches crypto (fun _ => none) (genesis :: blocks))
    (hc : ChainChecked (CTransaction.getHash crypto) (fun _ => none) (genesis :: blocks))
    (E : Finset CDestination) :
    ∑ d ∈ E, max (delegateTally blocks d) 0 ≤ moneySupply ((genesis :: blocks).map CBlockEx.toCBlock) := by
  set F := (chainOutPoints (CTransaction.getHash crypto) ((genesis :: blocks).map CBlockEx.toCBlock)).toFinset
    with hFdef
  have hF : ∀ tx ∈ ((genesis :: blocks).map CBlockEx.toCBlock).flatMap CBlock.txs,
      (⟨tx.getHash crypto, 0⟩ : CTxOutPoint) ∈ F ∧ (⟨tx.getHash crypto, 1⟩ : CTxOutPoint) ∈ F := by
    intro tx htx
    simp only [hFdef, chainOutPoints, List.mem_toFinset]
    exact ⟨List.mem_flatMap.mpr ⟨tx, htx, by simp⟩, List.mem_flatMap.mpr ⟨tx, htx, by simp⟩⟩
  have hempty : Ledger F 0 fun _ => none := ⟨by simp, by simp, by simp [heldBy]⟩
  obtain ⟨hlen, hmg, hm⟩ := hm
  obtain ⟨hmint, hamount, hcg, hc⟩ := hc
  -- the genesis block's votes are the empty ones `Initiate` stores
  have hg := (accounts_replayBlock hempty (votesWithin_zero hempty) hlen hmg hmint hamount hcg
    fun tx htx => hF tx (List.mem_flatMap.mpr ⟨genesis.toCBlock, List.mem_cons_self, htx⟩)).1
  have hrun := accounts_foldl_replayBlock blocks _ _ _ hg (votesWithin_zero hg) hm hc fun tx htx => by
    obtain ⟨b, hb, htx'⟩ := List.mem_flatMap.mp htx
    exact hF tx (List.mem_flatMap.mpr ⟨b, List.mem_cons_of_mem _ hb, htx'⟩)
  obtain ⟨hl, hv⟩ := hrun
  have hS : 0 + genesis.toCBlock.getBlockMint + moneySupply (blocks.map CBlockEx.toCBlock) =
      moneySupply ((genesis :: blocks).map CBlockEx.toCBlock) := by
    simp [moneySupply]
  rw [← hS]
  have hterm : ∀ d ∈ E, max (delegateTally blocks d) 0 ≤
      heldBy ((blocks.map CBlockEx.toCBlock).foldl (replayBlock (CTransaction.getHash crypto))
        (replayBlock (CTransaction.getHash crypto) (fun _ => none) genesis.toCBlock)) F (· == d) := by
    intro d _
    have hnonneg := heldBy_nonneg hl (· == d)
    cases hd : isDelegateDest d
    · rw [delegateTally, hv.other d hd]
      exact max_le hnonneg hnonneg
    · exact max_le (hv.delegate d hd) hnonneg
  calc ∑ d ∈ E, max (delegateTally blocks d) 0
      ≤ ∑ d ∈ E, heldBy _ F (· == d) := Finset.sum_le_sum hterm
    _ = heldBy _ F fun d => decide (d ∈ E) := sum_heldBy_eq E
    _ ≤ heldBy _ F fun _ => true := heldBy_le_total hl _
    _ ≤ _ := hl.total

end Chain

end Multiverse.Storage
