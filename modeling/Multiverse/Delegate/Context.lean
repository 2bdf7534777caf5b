import Multiverse.TxPool.Pool

/-! # The coins of a local delegate

`CDelegateContext` of `src/consensus.cpp` follows, for a delegate template
run by this node, the transactions that pay it: tokens from its owner and its
own enrolment certificates. `mapTx` holds them by txid, and `mapUnspent`
points, for each output the delegate can still spend, at the `mapTx` entry of
the transaction that made it; a pointer is the key of that entry here.
`ChangeTxSet` takes the changes of the pool and the chain, and `BuildEnrollTx`
spends the unspent outputs, in outpoint order, until the fee is covered.

`ChangeTxSet` erases a removed transaction from `mapTx` and gives its inputs
back to `mapUnspent`, but leaves its own outputs there: they then point at an
erased entry, which `BuildEnrollTx` reads. The model reads such a pointer as
nothing, and `BuildEnrollTx` then fails.
-/

namespace Multiverse.Delegate

open TxPool

/-- `CDelegateTx`: what `BuildEnrollTx` needs of a transaction paying the delegate. -/
structure CDelegateTx where
  nVersion : Nat
  nType : Nat
  nTimeStamp : Nat
  nLockUntil : Nat
  nAmount : Int
  nChange : Int
  nBlockHeight : Int
  deriving DecidableEq, Repr

namespace CDelegateTx

def ofAssembled (tx : CAssembledTx) : CDelegateTx :=
  ⟨tx.tx.nVersion, tx.tx.nType, tx.tx.nTimeStamp, tx.tx.nLockUntil, tx.tx.nAmount, tx.getChange,
    tx.nBlockHeight⟩

/-- `IsLocked(n, nBlockHeight)`: the lock's top bit selects the output. -/
def isLocked (dtx : CDelegateTx) (n : Nat) (nBlockHeight : Int) : Bool :=
  if n = dtx.nLockUntil >>> 31 then decide (nBlockHeight < (dtx.nLockUntil &&& 0x7FFFFFFF : Nat))
  else false

def getTxTime (dtx : CDelegateTx) : Nat := dtx.nTimeStamp

end CDelegateTx

structure CDelegateContext where
  destDelegate : CDestination
  destOwner : CDestination
  mapTx : SortedMap Nat CDelegateTx
  mapUnspent : SortedMap CTxOutPoint Nat

namespace CDelegateContext

variable (crypto : Crypto)

def empty (destDelegate destOwner : CDestination) : CDelegateContext :=
  ⟨destDelegate, destOwner, SortedMap.empty, SortedMap.empty⟩

/-- The outputs a transaction paying the delegate gives it: output 0 of a
token from the owner, and outputs 0 and, with change, 1 of its own certificate. -/
def addOutputs (ctxt : CDelegateContext) (tx : CAssembledTx) : CDelegateContext :=
  let txid := tx.tx.getHash crypto
  let delegateTx := CDelegateTx.ofAssembled tx
  if tx.tx.sendTo = ctxt.destDelegate then
    if tx.tx.nType = CTransaction.TX_TOKEN ∧ tx.destIn = ctxt.destOwner then
      { ctxt with mapTx := ctxt.mapTx.insert txid delegateTx,
                  mapUnspent := ctxt.mapUnspent.insertNew ⟨txid, 0⟩ txid }
    else if tx.tx.nType = CTransaction.TX_CERT ∧ tx.destIn = ctxt.destDelegate then
      let mapUnspent := ctxt.mapUnspent.insertNew ⟨txid, 0⟩ txid
      { ctxt with mapTx := ctxt.mapTx.insert txid delegateTx,
                  mapUnspent := if delegateTx.nChange ≠ 0 then mapUnspent.insertNew ⟨txid, 1⟩ txid
                    else mapUnspent }
    else ctxt
  else ctxt

/-- `AddNewTx(tx)`: the outputs it pays the delegate, and its inputs spent
when the delegate sends it. -/
def addNewTx (ctxt : CDelegateContext) (tx : CAssembledTx) : CDelegateContext :=
  let ctxt := ctxt.addOutputs crypto tx
  if tx.destIn = ctxt.destDelegate then
    { ctxt with mapUnspent := tx.tx.vInput.foldl (fun m txin => m.erase txin.prevout) ctxt.mapUnspent }
  else ctxt

/-- One entry of `vTxRemove` in `ChangeTxSet`: the inputs of a known
transaction whose own transaction is known come back, and the transaction
leaves `mapTx`; its outputs stay in `mapUnspent`. -/
def removeTx (ctxt : CDelegateContext) (entry : Nat × List CTxIn) : CDelegateContext :=
  if (ctxt.mapTx.find entry.1).isSome then
    let mapUnspent := entry.2.foldl (fun m txin =>
      if (ctxt.mapTx.find txin.prevout.hash).isSome then m.insertNew txin.prevout txin.prevout.hash
      else m) ctxt.mapUnspent
    { ctxt with mapTx := ctxt.mapTx.erase entry.1, mapUnspent := mapUnspent }
  else ctxt

/-- One entry of `mapTxUpdate` in `ChangeTxSet`: a known transaction's new height. -/
def updateTx (ctxt : CDelegateContext) (txid : Nat) (nBlockHeight : Int) : CDelegateContext :=
  match ctxt.mapTx.find txid with
  | some dtx => { ctxt with mapTx := ctxt.mapTx.insert txid { dtx with nBlockHeight := nBlockHeight } }
  | none => ctxt

/-- `ChangeTxSet(change)`. -/
def changeTxSet (ctxt : CDelegateContext) (change : CTxSetChange) : CDelegateContext :=
  let ctxt := change.vTxRemove.foldl removeTx ctxt
  let ctxt := change.mapTxUpdate.entries.foldl (fun c e => c.updateTx e.1 e.2) ctxt
  change.vTxAddNew.foldl (addNewTx crypto) ctxt

/-- The loop of `BuildEnrollTx` over `mapUnspent`, with the inputs and the
value in so far: an unlocked output not later than the certificate is taken
until the value in exceeds the fee. `none` where a pointer leads to no entry. -/
def collectInputs (mapTx : SortedMap Nat CDelegateTx) (nBlockHeight : Int) (nTime : Nat)
    (nTxFee : Int) : List (CTxOutPoint × Nat) → List CTxIn → Int → Option (List CTxIn × Int)
  | [], vInput, nValueIn => some (vInput, nValueIn)
  | (txout, p) :: rest, vInput, nValueIn =>
    match mapTx.find p with
    | none => none
    | some pTx =>
      if pTx.isLocked txout.n nBlockHeight ∨ pTx.getTxTime > nTime then
        collectInputs mapTx nBlockHeight nTime nTxFee rest vInput nValueIn
      else
        let nValueIn := nValueIn + (if txout.n = 0 then pTx.nAmount else pTx.nChange)
        if nValueIn > nTxFee then some (vInput ++ [⟨txout⟩], nValueIn)
        else collectInputs mapTx nBlockHeight nTime nTxFee rest (vInput ++ [⟨txout⟩]) nValueIn

/-- `BuildEnrollTx(tx, nBlockHeight, nTime, hashAnchor, nTxFee, vchData)`,
before its signature: the certificate to the delegate and its inputs, or
`none` when the outputs do not cover the fee. -/
def buildEnrollTx (ctxt : CDelegateContext) (nBlockHeight : Int) (nTime : Nat) (hashAnchor : Nat)
    (nTxFee : Int) (vchData : List UInt8) : Option CTransaction := do
  let (vInput, nValueIn) ← collectInputs ctxt.mapTx nBlockHeight nTime nTxFee ctxt.mapUnspent.entries [] 0
  if nValueIn ≤ nTxFee then none
  else some ({ CTransaction.null with
    nType := CTransaction.TX_CERT, nTimeStamp := nTime, hashAnchor := hashAnchor,
    sendTo := ctxt.destDelegate, nAmount := nValueIn - nTxFee, nTxFee := nTxFee,
    vchData := vchData, vInput := vInput } : CTransaction)

/-- Each output `mapUnspent` holds points at the live entry of its own
transaction, which has that output. -/
def UnspentLive (ctxt : CDelegateContext) : Prop :=
  ∀ o p, ctxt.mapUnspent.find o = some p →
    p = o.hash ∧ ∃ dtx, ctxt.mapTx.find p = some dtx ∧ (o.n = 0 ∨ (o.n = 1 ∧ dtx.nChange ≠ 0))

theorem empty_unspentLive (destDelegate destOwner : CDestination) :
    (empty destDelegate destOwner).UnspentLive := by
  intro o p h
  simp [empty] at h

section Live

variable {ctxt : CDelegateContext} (hlive : ctxt.UnspentLive)
include hlive

theorem unspentLive_insertTx {txid : Nat} (hfresh : ctxt.mapTx.find txid = none) (dtx : CDelegateTx) :
    ({ ctxt with mapTx := ctxt.mapTx.insert txid dtx } : CDelegateContext).UnspentLive := by
  intro o p ho
  obtain ⟨rfl, dtx', hp, hn⟩ := hlive o p ho
  have hne : o.hash ≠ txid := by
    rintro heq
    rw [heq, hfresh] at hp
    cases hp
  exact ⟨rfl, dtx', by simpa [hne] using hp, hn⟩

theorem unspentLive_insertNew {txid n : Nat} {dtx : CDelegateTx} (hdtx : ctxt.mapTx.find txid = some dtx)
    (hn : n = 0 ∨ (n = 1 ∧ dtx.nChange ≠ 0)) :
    ({ ctxt with mapUnspent := ctxt.mapUnspent.insertNew ⟨txid, n⟩ txid } : CDelegateContext).UnspentLive := by
  intro o p ho
  simp only [SortedMap.find_insertNew] at ho
  split_ifs at ho with hk
  · subst hk
    cases hold : ctxt.mapUnspent.find ⟨txid, n⟩ with
    | none =>
      simp only [hold, Option.getD_none, Option.some.injEq] at ho
      subst ho
      exact ⟨rfl, dtx, hdtx, hn⟩
    | some q =>
      simp only [hold, Option.getD_some, Option.some.injEq] at ho
      subst ho
      exact hlive _ _ hold
  · exact hlive o p ho

theorem unspentLive_erase (outs : List CTxOutPoint) :
    ({ ctxt with mapUnspent := outs.foldl (fun m o => m.erase o) ctxt.mapUnspent } : CDelegateContext).UnspentLive := by
  induction outs generalizing ctxt with
  | nil => exact hlive
  | cons out outs ih =>
    have h1 : ({ ctxt with mapUnspent := ctxt.mapUnspent.erase out } : CDelegateContext).UnspentLive := by
      intro o p ho
      simp only [SortedMap.find_erase] at ho
      split_ifs at ho
      exact hlive o p ho
    exact ih h1

theorem addNewTx_unspentLive (tx : CAssembledTx) (hfresh : ctxt.mapTx.find (tx.tx.getHash crypto) = none) :
    (ctxt.addNewTx crypto tx).UnspentLive := by
  have hins : ∀ c : CDelegateContext, ({ c with mapTx := (c.mapTx.insert (tx.tx.getHash crypto)
      (CDelegateTx.ofAssembled tx)) } : CDelegateContext).mapTx.find (tx.tx.getHash crypto) =
        some (CDelegateTx.ofAssembled tx) := fun c => by simp
  have hout : (ctxt.addOutputs crypto tx).UnspentLive := by
    unfold addOutputs
    dsimp only
    split_ifs with hsend htoken hcert hchange
    · -- a token from the owner: output 0
      exact unspentLive_insertNew (unspentLive_insertTx hlive hfresh _) (hins ctxt) (.inl rfl)
    · -- a certificate with change: outputs 0 and 1
      have h0 := unspentLive_insertNew (unspentLive_insertTx hlive hfresh _) (hins ctxt) (.inl rfl)
      exact unspentLive_insertNew h0 (hins ctxt) (.inr ⟨rfl, hchange⟩)
    · exact unspentLive_insertNew (unspentLive_insertTx hlive hfresh _) (hins ctxt) (.inl rfl)
    · exact hlive
    · exact hlive
  unfold addNewTx
  dsimp only
  split_ifs
  · have h := unspentLive_erase hout (tx.tx.vInput.map (·.prevout))
    simpa [List.foldl_map] using h
  · exact hout

theorem updateTx_unspentLive (txid : Nat) (nBlockHeight : Int) : (ctxt.updateTx txid nBlockHeight).UnspentLive := by
  unfold updateTx
  split
  next dtx hdtx =>
    intro o p ho
    obtain ⟨rfl, dtx', hp, hn⟩ := hlive o p ho
    by_cases he : o.hash = txid
    · subst he
      rw [hdtx] at hp
      cases hp
      exact ⟨rfl, { dtx with nBlockHeight := nBlockHeight }, by simp, hn⟩
    · exact ⟨rfl, dtx', by simpa [he] using hp, hn⟩
  next => exact hlive

end Live

theorem removeTx_leaves_outputs (ctxt : CDelegateContext) (entry : Nat × List CTxIn)
    (h : (ctxt.mapTx.find entry.1).isSome) {o : CTxOutPoint} {p : Nat}
    (ho : ctxt.mapUnspent.find o = some p) :
    (ctxt.removeTx entry).mapUnspent.find o = some p ∧ (ctxt.removeTx entry).mapTx.find entry.1 = none := by
  -- giving the inputs back uses `std::map::insert`, which keeps an entry already there
  have hkeep : ∀ (vInput : List CTxIn) (m : SortedMap CTxOutPoint Nat), m.find o = some p →
      (vInput.foldl (fun m txin => if (ctxt.mapTx.find txin.prevout.hash).isSome then
        m.insertNew txin.prevout txin.prevout.hash else m) m).find o = some p := by
    intro vInput
    induction vInput with
    | nil => exact fun m hm => hm
    | cons txin vInput ih =>
      intro m hm
      rw [List.foldl_cons]
      apply ih
      split_ifs
      · rw [SortedMap.find_insertNew]
        split_ifs with hk
        · rw [← hk, hm]
          rfl
        · exact hm
      · exact hm
  unfold removeTx
  rw [if_pos h]
  exact ⟨hkeep entry.2 ctxt.mapUnspent ho, by simp⟩

set_option maxRecDepth 4000 in
/-- A token from the owner pays the delegate 100, and the chain then drops
it: `ChangeTxSet` erases it from `mapTx` but its output stays in
`mapUnspent`, pointing at the erased entry, and `BuildEnrollTx`, which spent
that output before, now reads the erased entry. -/
theorem changeTxSet_leaves_dangling_unspent :
    let crypto : Crypto := ⟨LittleEndian.decode, fun _ _ _ => false, fun _ _ _ _ => none⟩
    let destDelegate := CDestination.ofTemplateId (CTemplateId.ofType TEMPLATE_DELEGATE 1)
    let destOwner := CDestination.ofPubKey 7
    let tx : CAssembledTx := ⟨⟨1, CTransaction.TX_TOKEN, 10, 0, 0, [⟨⟨5, 0⟩⟩], destDelegate, 100, 100,
      [], []⟩, destOwner, 200, 3⟩
    let txid := tx.tx.getHash crypto
    let ctxt := (empty destDelegate destOwner).addNewTx crypto tx
    let removed := ctxt.changeTxSet crypto ⟨0, SortedMap.empty, [], [(txid, tx.tx.vInput)]⟩
    ctxt.mapUnspent.find ⟨txid, 0⟩ = some txid ∧ (ctxt.mapTx.find txid).isSome ∧
      removed.mapUnspent.find ⟨txid, 0⟩ = some txid ∧ removed.mapTx.find txid = none ∧
      (ctxt.buildEnrollTx 5 20 0 0 []).map (·.vInput) = some [⟨⟨txid, 0⟩⟩] ∧
      removed.buildEnrollTx 5 20 0 0 [] = none := by
  decide

end CDelegateContext

end Multiverse.Delegate
