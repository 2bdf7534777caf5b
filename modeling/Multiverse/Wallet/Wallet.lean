import Multiverse.Storage.WalletDB
import Multiverse.TxPool.Pool

/-! # The wallet

`CWallet` of `src/wallet.cpp`, its part that follows the world line: the
wallet transactions in memory by txid, the coins of each destination on each
fork, and the forks with their sublines. `SynchronizeTxSet` takes a
`CTxSetChange` of the pool, `AddNewTx` a pooled transaction, and `AddNewFork`
a fork the world line has made.

A transaction of a fork counts on every subline, not isolated, that comes off
the fork at its height or above (`GetWalletTxFork`): its coins are pushed to
all of them, but a removed transaction is taken off the synchronised fork
alone. Which destinations are the wallet's own (`IsMine`, its keys and
templates) and the profile the world line gives a new fork enter as arguments.
-/

namespace Multiverse.Wallet

open TxPool

/-- `CWalletFork`: the parent, the origin height and the sublines by their
origin height, a multimap kept as a list in key order. -/
structure CWalletFork where
  hashParent : Nat
  nOriginHeight : Int
  fIsolated : Bool
  mapSubline : List (Int × Nat)
  deriving DecidableEq, Repr

namespace CWalletFork

/-- `CWalletFork()`, what `mapFork[hash]` makes of a fork it does not know. -/
def default : CWalletFork := ⟨0, -1, true, []⟩

/-- `InsertSubline`: a multimap puts a new entry after those of the same key. -/
def insertSubline (fork : CWalletFork) (nHeight : Int) (hashSubline : Nat) : CWalletFork :=
  { fork with
    mapSubline := fork.mapSubline.filter (·.1 ≤ nHeight) ++
      (nHeight, hashSubline) :: fork.mapSubline.filter (nHeight < ·.1) }

/-- The sublines from `lower_bound(nHeight)` on. -/
def sublinesFrom (fork : CWalletFork) (nHeight : Int) : List Nat :=
  (fork.mapSubline.filter (nHeight ≤ ·.1)).map (·.2)

end CWalletFork

/-- The walk of `GetWalletTxFork`: the list is read at index `i` while the
sublines of each fork read are appended to it. On a tree of forks it reads
each fork once, so the number of forks is fuel enough. -/
def walkSubline (mapFork : SortedMap Nat CWalletFork) (nHeight : Int) :
    Nat → List (Nat × CWalletFork) → Nat → List (Nat × CWalletFork)
  | 0, vForkPtr, _ => vForkPtr
  | fuel + 1, vForkPtr, i =>
    match vForkPtr[i]? with
    | none => vForkPtr
    | some (_, fork) =>
      let vNext := (fork.sublinesFrom nHeight).filterMap fun hashSubline =>
        match mapFork.find hashSubline with
        | some subline => if subline.fIsolated then none else some (hashSubline, subline)
        | none => none
      walkSubline mapFork nHeight fuel (vForkPtr ++ vNext) (i + 1)

/-- `GetWalletTxFork(hashFork, nHeight, vFork)`: the forks a transaction of
`hashFork` at `nHeight` counts on; a pooled one counts on its fork alone. -/
def getWalletTxFork (mapFork : SortedMap Nat CWalletFork) (hashFork : Nat) (nHeight : Int) : List Nat :=
  let vForkPtr := match mapFork.find hashFork with
    | some fork => [(hashFork, fork)]
    | none => []
  let vForkPtr := if 0 ≤ nHeight then walkSubline mapFork nHeight mapFork.size vForkPtr 0 else vForkPtr
  vForkPtr.map Prod.fst

/-- `CWallet`, the part kept for the transactions: the objects the shared
pointers point to, `mapWalletTx` from txid to pointer, the coins, the forks
and the store. -/
structure CWallet where
  heap : Heap
  mapWalletTx : SortedMap Nat Nat
  mapWalletUnspent : SortedMap CDestination CWalletUnspent
  mapFork : SortedMap Nat CWalletFork
  dbWallet : CWalletDB

namespace CWallet

def empty : CWallet := ⟨[], SortedMap.empty, SortedMap.empty, SortedMap.empty, CWalletDB.empty⟩

/-- The object behind a pointer. -/
def get (w : CWallet) (p : Nat) : CWalletTx := w.heap.getD p CWalletTx.null

/-- `GetRefCount()` of the object behind a pointer. -/
def refCountAt (w : CWallet) (p : Nat) : Int := (w.get p).nRefCount

/-- `mapWalletUnspent[dest]`, a missing destination reading as no coins. -/
def unspentOf (w : CWallet) (dest : CDestination) : CWalletUnspent :=
  (w.mapWalletUnspent.find dest).getD SortedMap.empty

/-- `mapWalletUnspent[dest].Push(hashFork, spWalletTx, n)`. -/
def pushCoin (w : CWallet) (dest : CDestination) (hashFork : Nat) (out : CWalletTxOut) : CWallet :=
  let r := (w.unspentOf dest).push w.heap hashFork out
  { w with heap := r.2, mapWalletUnspent := w.mapWalletUnspent.insert dest r.1 }

/-- `mapWalletUnspent[dest].Pop(hashFork, spWalletTx, n)`. -/
def popCoin (w : CWallet) (dest : CDestination) (hashFork : Nat) (out : CWalletTxOut) : CWallet :=
  let r := (w.unspentOf dest).pop w.heap hashFork out
  { w with heap := r.2, mapWalletUnspent := w.mapWalletUnspent.insert dest r.1 }

/-- `mapWalletTx.erase(txid)`. -/
def eraseTx (w : CWallet) (txid : Nat) : CWallet := { w with mapWalletTx := w.mapWalletTx.erase txid }

/-- An object nothing refers to any more leaves `mapWalletTx`. -/
def eraseIfUnused (w : CWallet) (txid p : Nat) : CWallet :=
  if w.refCountAt p = 0 then w.eraseTx txid else w

/-- `LoadWalletTx(txid)`: the object in memory, or a new one read from the
store; no pointer for a null transaction. -/
def loadWalletTx (w : CWallet) (txid : Nat) : CWallet × Option Nat :=
  match w.mapWalletTx.find txid with
  | some p => (w, if (w.get p).isNull then none else some p)
  | none =>
    match w.dbWallet.retrieveTx txid with
    | none => (w, none)
    | some wtx =>
      let p := w.heap.length
      ({ w with heap := w.heap ++ [wtx], mapWalletTx := w.mapWalletTx.insert txid p },
        if wtx.isNull then none else some p)

/-- `InsertWalletTx(txid, tx, hashFork, fIsMine, fFromMe)`: a new object, or
the one in memory with the height and flags of `tx`. -/
def insertWalletTx (w : CWallet) (txid : Nat) (tx : CAssembledTx) (hashFork : Nat) (fIsMine fFromMe : Bool) :
    CWallet × Nat :=
  match w.mapWalletTx.find txid with
  | none =>
    let p := w.heap.length
    ({ w with
        heap := w.heap ++ [CWalletTx.ofAssembled txid tx hashFork fIsMine fFromMe]
        mapWalletTx := w.mapWalletTx.insert txid p }, p)
  | some p =>
    ({ w with heap := w.heap.modify p fun wtx => { wtx.setFlags fIsMine fFromMe with nBlockHeight := tx.nBlockHeight } },
      p)

/-- A coin joins a destination on every fork of `vFork`. -/
def pushCoins (w : CWallet) (dest : CDestination) (vFork : List Nat) (out : CWalletTxOut) : CWallet :=
  vFork.foldl (fun w hashFork => w.pushCoin dest hashFork out) w

/-- A coin leaves a destination on every fork of `vFork`. -/
def popCoins (w : CWallet) (dest : CDestination) (vFork : List Nat) (out : CWalletTxOut) : CWallet :=
  vFork.foldl (fun w hashFork => w.popCoin dest hashFork out) w

/-- An input of a transaction from the wallet: the coin it spends, if its
transaction is in memory, leaves the input destination on every fork of
`vFork`. -/
def spendPrevout (vFork : List Nat) (destIn : CDestination) (w : CWallet) (txin : CTxIn) : CWallet :=
  match w.mapWalletTx.find txin.prevout.hash with
  | none => w
  | some pPrev =>
    (w.popCoins destIn vFork ⟨pPrev, txin.prevout.n⟩).eraseIfUnused txin.prevout.hash pPrev

/-- `AddNewWalletTx(spWalletTx, vFork)`: on every fork of `vFork`, the coins a
transaction from the wallet spends leave the input destination and its change
joins it, and its payment joins the destination paid. -/
def addNewWalletTx (w : CWallet) (p : Nat) (vFork : List Nat) : CWallet :=
  let wtx := w.get p
  let w :=
    if wtx.isFromMe then (wtx.vInput.foldl (spendPrevout vFork wtx.destIn) w).pushCoins wtx.destIn vFork ⟨p, 1⟩
    else w
  if wtx.isMine then w.pushCoins wtx.sendTo vFork ⟨p, 0⟩ else w

/-- An input of a removed transaction from the wallet: the coin it spent
comes back to the input destination on `hashFork`, its transaction loaded
again if it left memory. -/
def restorePrevout (hashFork : Nat) (destIn : CDestination) (w : CWallet) (txin : CTxIn) : CWallet :=
  match w.loadWalletTx txin.prevout.hash with
  | (w, some pPrev) => w.pushCoin destIn hashFork ⟨pPrev, txin.prevout.n⟩
  | (w, none) => w

/-- `RemoveWalletTx(spWalletTx, hashFork)`: on `hashFork` alone, the coins a
transaction from the wallet spent come back and its own coins leave. -/
def removeWalletTx (w : CWallet) (p : Nat) (hashFork : Nat) : CWallet :=
  let wtx := w.get p
  let w :=
    if wtx.isFromMe then (wtx.vInput.foldl (restorePrevout hashFork wtx.destIn) w).popCoin wtx.destIn hashFork ⟨p, 1⟩
    else w
  if wtx.isMine then w.popCoin wtx.sendTo hashFork ⟨p, 0⟩ else w

/-- `unspent.Dup(hashParent, hashFork)` for every destination, in key order. -/
def dupUnspent (w : CWallet) (hashFrom hashTo : Nat) : CWallet :=
  w.mapWalletUnspent.keys.foldl
    (fun w dest =>
      let r := (w.unspentOf dest).dup w.heap hashFrom hashTo
      { w with heap := r.2, mapWalletUnspent := w.mapWalletUnspent.insert dest r.1 })
    w

/-- The loop of `AddNewFork` over the parent's transactions above the origin,
last first: each leaves the new fork; one that does not load stops it with
`false`. -/
def rollBackTx (hashFork : Nat) : CWallet → List Nat → CWallet × Bool
  | w, [] => (w, true)
  | w, txid :: vForkTx =>
    match w.loadWalletTx txid with
    | (w, none) => (w, false)
    | (w, some p) => rollBackTx hashFork ((w.removeWalletTx p hashFork).eraseIfUnused txid p) vForkTx

/-- A new fork in `mapFork`, and among the sublines of its parent. -/
def insertFork (mapFork : SortedMap Nat CWalletFork) (hashFork hashParent : Nat) (nOriginHeight : Int)
    (fIsolated : Bool) : SortedMap Nat CWalletFork :=
  let mapFork := mapFork.insert hashFork ⟨hashParent, nOriginHeight, fIsolated, []⟩
  if hashParent ≠ 0 then
    mapFork.insert hashParent
      (((mapFork.find hashParent).getD CWalletFork.default).insertSubline nOriginHeight hashFork)
  else mapFork

/-- `AddNewFork(hashFork, hashParent, nOriginHeight)`, with the answer of
`GetForkProfile`: whether the fork is isolated. A fork not isolated starts
with the parent's coins, less what the parent's transactions above the
origin did. -/
def addNewFork (w : CWallet) (hashFork hashParent : Nat) (nOriginHeight : Int) (profile : Option Bool) :
    CWallet × Bool :=
  match profile with
  | none => (w, false)
  | some fIsolated =>
    if (w.mapFork.find hashFork).isSome then (w, true)
    else
      let w := { w with mapFork := insertFork w.mapFork hashFork hashParent nOriginHeight fIsolated }
      if fIsolated then (w, true)
      else
        let w := w.dupUnspent hashParent hashFork
        rollBackTx hashFork w (w.dbWallet.listRollBackTx hashParent (nOriginHeight + 1)).reverse

section Synchronize

variable (crypto : Crypto) (isMine : CDestination → Bool)

/-- The removals of `SynchronizeTxSet`: each transaction the wallet has leaves
the synchronised fork and `mapWalletTx`. -/
def syncRemoveTx (hashFork : Nat) (acc : CWallet × List Nat) (txid : Nat) : CWallet × List Nat :=
  match acc.1.loadWalletTx txid with
  | (w, some p) => ((w.removeWalletTx p hashFork).eraseTx txid, acc.2 ++ [txid])
  | (w, none) => (w, acc.2)

/-- The new heights of `SynchronizeTxSet`. -/
def syncUpdateTx (acc : CWallet × List CWalletTx) (e : Nat × Int) : CWallet × List CWalletTx :=
  match acc.1.loadWalletTx e.1 with
  | (w, some p) =>
    let w := { w with heap := w.heap.modify p fun wtx => { wtx with nBlockHeight := e.2 } }
    (w, acc.2 ++ [w.get p])
  | (w, none) => (w, acc.2)

/-- A new transaction of `SynchronizeTxSet` or `AddNewTx` that pays or spends
the wallet's own, on the forks it counts on at its height. -/
def addWalletTx (hashFork : Nat) (w : CWallet) (tx : CAssembledTx) : Option (CWallet × Nat) :=
  let fIsMine := isMine tx.tx.sendTo
  let fFromMe := isMine tx.destIn
  if fFromMe || fIsMine then
    let r := w.insertWalletTx (tx.tx.getHash crypto) tx hashFork fIsMine fFromMe
    some (r.1.addNewWalletTx r.2 (getWalletTxFork r.1.mapFork hashFork (r.1.get r.2).nBlockHeight), r.2)
  else none

/-- The additions of `SynchronizeTxSet`. Its `mapPreFork` only keeps the forks
of each height once found, and the forks do not change meanwhile. -/
def syncAddNewTx (hashFork : Nat) (acc : CWallet × List CWalletTx) (tx : CAssembledTx) :
    CWallet × List CWalletTx :=
  match addWalletTx crypto isMine hashFork acc.1 tx with
  | some (w, p) => (w, acc.2 ++ [w.get p])
  | none => acc

/-- The last loop of `SynchronizeTxSet`: a written transaction that nothing
refers to leaves `mapWalletTx`. -/
def releaseTx (w : CWallet) (wtx : CWalletTx) : CWallet :=
  match w.mapWalletTx.find wtx.txid with
  | some p => w.eraseIfUnused wtx.txid p
  | none => w

/-- `SynchronizeTxSet(change)`: removals, new heights and new transactions,
then what nothing refers to leaves `mapWalletTx` and the store is updated. -/
def synchronizeTxSet (w : CWallet) (change : CTxSetChange) : CWallet :=
  let removed := (change.vTxRemove.map Prod.fst).foldl (syncRemoveTx change.hashFork) (w, [])
  let updated := change.mapTxUpdate.entries.foldl syncUpdateTx (removed.1, [])
  let added := change.vTxAddNew.foldl (syncAddNewTx crypto isMine change.hashFork) updated
  let w := added.2.foldl releaseTx added.1
  if added.2.isEmpty && removed.2.isEmpty then w
  else { w with dbWallet := w.dbWallet.updateTx added.2 removed.2 }

/-- `AddNewTx(hashFork, tx)`. -/
def addNewTx (w : CWallet) (hashFork : Nat) (tx : CAssembledTx) : CWallet :=
  match addWalletTx crypto isMine hashFork w tx with
  | some (w, p) =>
    let w := w.eraseIfUnused (tx.tx.getHash crypto) p
    { w with dbWallet := w.dbWallet.addNewTx (w.get p) }
  | none => w

end Synchronize

end CWallet

/-- The calls through which the wallet follows the world line and the pool. -/
inductive WalletUpdate
  | addNewFork (hashFork hashParent : Nat) (nOriginHeight : Int) (profile : Option Bool)
  | synchronizeTxSet (change : CTxSetChange)
  | addNewTx (hashFork : Nat) (tx : CAssembledTx)

namespace CWallet

variable (crypto : Crypto) (isMine : CDestination → Bool)

def update (w : CWallet) : WalletUpdate → CWallet
  | .addNewFork hashFork hashParent nOriginHeight profile => (w.addNewFork hashFork hashParent nOriginHeight profile).1
  | .synchronizeTxSet change => w.synchronizeTxSet crypto isMine change
  | .addNewTx hashFork tx => w.addNewTx crypto isMine hashFork tx

def run (w : CWallet) (updates : List WalletUpdate) : CWallet := updates.foldl (update crypto isMine) w

end CWallet

/-! ## Every run keeps the coin sets valued -/

namespace CWallet

/-- Every coin set of the wallet holds each coin once and no null coin, and
its total is the sum of its amounts. -/
def Valued (w : CWallet) : Prop := ∀ dest, (w.unspentOf dest).Valued w.heap

/-- A change of the wallet that keeps valued coin sets valued and every
output of the objects as it was. -/
@[reducible] def Keeps (w w' : CWallet) : Prop := w.Valued → w'.Valued ∧ w.heap.Keeps w'.heap

theorem Keeps.refl (w : CWallet) : w.Keeps w := fun hw => ⟨hw, Heap.Keeps.refl w.heap⟩

theorem Keeps.trans {w w' w'' : CWallet} (h : w.Keeps w') (h' : w'.Keeps w'') : w.Keeps w'' := by
  intro hw
  obtain ⟨hw', hk⟩ := h hw
  obtain ⟨hw'', hk'⟩ := h' hw'
  exact ⟨hw'', hk.trans hk'⟩

theorem keeps_ite {c : Prop} [Decidable c] {w w₁ w₂ : CWallet} (h₁ : w.Keeps w₁) (h₂ : w.Keeps w₂) :
    w.Keeps (if c then w₁ else w₂) := by
  split_ifs
  · exact h₁
  · exact h₂

theorem keeps_foldl {α β : Type} (wallet : β → CWallet) (f : β → α → β)
    (hf : ∀ b a, (wallet b).Keeps (wallet (f b a))) :
    ∀ (l : List α) (b : β), (wallet b).Keeps (wallet (l.foldl f b))
  | [], _ => Keeps.refl _
  | a :: l, b => (hf b a).trans (keeps_foldl wallet f hf l (f b a))

theorem empty_valued : CWallet.empty.Valued := fun _ => CWalletUnspent.valued_empty []

theorem keeps_of_heap {w w' : CWallet} (hu : w'.mapWalletUnspent = w.mapWalletUnspent)
    (hk : w.heap.Keeps w'.heap) : w.Keeps w' := by
  intro hw
  refine ⟨fun dest => ?_, hk⟩
  rw [unspentOf, hu]
  exact (hw dest).of_keeps hk

theorem keeps_setUnspent (w : CWallet) (dest : CDestination) (u : CWalletUnspent) (heap : Heap)
    (h : (w.unspentOf dest).Valued w.heap → u.Valued heap ∧ w.heap.Keeps heap) :
    w.Keeps { w with heap := heap, mapWalletUnspent := w.mapWalletUnspent.insert dest u } := by
  intro hw
  obtain ⟨hu, hk⟩ := h (hw dest)
  refine ⟨fun dest' => ?_, hk⟩
  by_cases hd : dest' = dest
  · subst hd
    simpa [unspentOf] using hu
  · simpa [unspentOf, hd] using (hw dest').of_keeps hk

theorem keeps_pushCoin (w : CWallet) (dest : CDestination) (hashFork : Nat) (out : CWalletTxOut) :
    w.Keeps (w.pushCoin dest hashFork out) :=
  w.keeps_setUnspent dest _ _ fun hu => hu.push hashFork out

theorem keeps_popCoin (w : CWallet) (dest : CDestination) (hashFork : Nat) (out : CWalletTxOut) :
    w.Keeps (w.popCoin dest hashFork out) :=
  w.keeps_setUnspent dest _ _ fun hu => hu.pop hashFork out

theorem keeps_pushCoins (w : CWallet) (dest : CDestination) (vFork : List Nat) (out : CWalletTxOut) :
    w.Keeps (w.pushCoins dest vFork out) :=
  keeps_foldl id _ (fun w hashFork => w.keeps_pushCoin dest hashFork out) vFork w

theorem keeps_popCoins (w : CWallet) (dest : CDestination) (vFork : List Nat) (out : CWalletTxOut) :
    w.Keeps (w.popCoins dest vFork out) :=
  keeps_foldl id _ (fun w hashFork => w.keeps_popCoin dest hashFork out) vFork w

theorem keeps_eraseTx (w : CWallet) (txid : Nat) : w.Keeps (w.eraseTx txid) :=
  keeps_of_heap rfl (Heap.Keeps.refl w.heap)

theorem keeps_eraseIfUnused (w : CWallet) (txid p : Nat) : w.Keeps (w.eraseIfUnused txid p) :=
  keeps_ite (w.keeps_eraseTx txid) (Keeps.refl w)

theorem keeps_loadWalletTx (w : CWallet) (txid : Nat) : w.Keeps (w.loadWalletTx txid).1 := by
  unfold loadWalletTx
  split
  · exact Keeps.refl w
  · split
    · exact Keeps.refl w
    · exact keeps_of_heap rfl (w.heap.keeps_append _)

theorem keeps_insertWalletTx (w : CWallet) (txid : Nat) (tx : CAssembledTx) (hashFork : Nat)
    (fIsMine fFromMe : Bool) : w.Keeps (w.insertWalletTx txid tx hashFork fIsMine fFromMe).1 := by
  unfold insertWalletTx
  split
  · exact keeps_of_heap rfl (w.heap.keeps_append _)
  · exact keeps_of_heap rfl (w.heap.keeps_modify _ fun _ => rfl)

theorem keeps_spendPrevout (vFork : List Nat) (destIn : CDestination) (w : CWallet) (txin : CTxIn) :
    w.Keeps (spendPrevout vFork destIn w txin) := by
  unfold spendPrevout
  split
  · exact Keeps.refl w
  · exact (w.keeps_popCoins _ _ _).trans (keeps_eraseIfUnused _ _ _)

theorem keeps_addNewWalletTx (w : CWallet) (p : Nat) (vFork : List Nat) : w.Keeps (w.addNewWalletTx p vFork) := by
  have hspend : w.Keeps (((w.get p).vInput.foldl (spendPrevout vFork (w.get p).destIn) w).pushCoins
      (w.get p).destIn vFork ⟨p, 1⟩) :=
    (keeps_foldl id _ (keeps_spendPrevout vFork _) _ w).trans (keeps_pushCoins _ _ _ _)
  exact (keeps_ite hspend (Keeps.refl w)).trans (keeps_ite (keeps_pushCoins _ _ _ _) (Keeps.refl _))

theorem keeps_restorePrevout (hashFork : Nat) (destIn : CDestination) (w : CWallet) (txin : CTxIn) :
    w.Keeps (restorePrevout hashFork destIn w txin) := by
  unfold restorePrevout
  have hload := w.keeps_loadWalletTx txin.prevout.hash
  split
  · next w' pPrev h =>
    rw [h] at hload
    exact hload.trans (w'.keeps_pushCoin _ _ _)
  · next w' h =>
    rw [h] at hload
    exact hload

theorem keeps_removeWalletTx (w : CWallet) (p hashFork : Nat) : w.Keeps (w.removeWalletTx p hashFork) := by
  have hrestore : w.Keeps (((w.get p).vInput.foldl (restorePrevout hashFork (w.get p).destIn) w).popCoin
      (w.get p).destIn hashFork ⟨p, 1⟩) :=
    (keeps_foldl id _ (keeps_restorePrevout hashFork _) _ w).trans (keeps_popCoin _ _ _ _)
  exact (keeps_ite hrestore (Keeps.refl w)).trans (keeps_ite (keeps_popCoin _ _ _ _) (Keeps.refl _))

theorem keeps_dupUnspent (w : CWallet) (hashFrom hashTo : Nat) : w.Keeps (w.dupUnspent hashFrom hashTo) :=
  keeps_foldl id _ (fun w dest => w.keeps_setUnspent dest _ _ fun hu => hu.dup hashFrom hashTo) _ w

theorem keeps_rollBackTx (hashFork : Nat) :
    ∀ (w : CWallet) (vForkTx : List Nat), w.Keeps (rollBackTx hashFork w vForkTx).1
  | w, [] => Keeps.refl w
  | w, txid :: vForkTx => by
    have hload := w.keeps_loadWalletTx txid
    unfold rollBackTx
    split
    · next w' h =>
      rw [h] at hload
      exact hload
    · next w' p h =>
      rw [h] at hload
      exact hload.trans (((w'.keeps_removeWalletTx p hashFork).trans (keeps_eraseIfUnused _ _ _)).trans
        (keeps_rollBackTx hashFork _ vForkTx))

theorem keeps_addNewFork (w : CWallet) (hashFork hashParent : Nat) (nOriginHeight : Int) (profile : Option Bool) :
    w.Keeps (w.addNewFork hashFork hashParent nOriginHeight profile).1 := by
  have hfork : ∀ mapFork, w.Keeps { w with mapFork := mapFork } := fun _ => keeps_of_heap rfl (Heap.Keeps.refl w.heap)
  unfold addNewFork
  split
  · exact Keeps.refl w
  · split_ifs
    · exact Keeps.refl w
    · exact hfork _
    · exact (hfork _).trans ((keeps_dupUnspent _ _ _).trans (keeps_rollBackTx _ _ _))

section Synchronize

variable (crypto : Crypto) (isMine : CDestination → Bool)

theorem keeps_addWalletTx {hashFork : Nat} {w w' : CWallet} {tx : CAssembledTx} {p : Nat}
    (h : addWalletTx crypto isMine hashFork w tx = some (w', p)) : w.Keeps w' := by
  unfold addWalletTx at h
  dsimp only at h
  split at h
  · obtain ⟨rfl, rfl⟩ := Prod.mk.inj (Option.some.inj h)
    exact (keeps_insertWalletTx _ _ _ _ _ _).trans (keeps_addNewWalletTx _ _ _)
  · cases h

theorem keeps_syncRemoveTx (hashFork : Nat) (acc : CWallet × List Nat) (txid : Nat) :
    acc.1.Keeps (syncRemoveTx hashFork acc txid).1 := by
  have hload := acc.1.keeps_loadWalletTx txid
  unfold syncRemoveTx
  split
  · next w p h =>
    rw [h] at hload
    exact hload.trans ((w.keeps_removeWalletTx p hashFork).trans (keeps_eraseTx _ _))
  · next w h =>
    rw [h] at hload
    exact hload

theorem keeps_syncUpdateTx (acc : CWallet × List CWalletTx) (e : Nat × Int) :
    acc.1.Keeps (syncUpdateTx acc e).1 := by
  have hload := acc.1.keeps_loadWalletTx e.1
  unfold syncUpdateTx
  split
  · next w p h =>
    rw [h] at hload
    exact hload.trans (keeps_of_heap rfl (w.heap.keeps_modify _ fun _ => rfl))
  · next w h =>
    rw [h] at hload
    exact hload

theorem keeps_syncAddNewTx (hashFork : Nat) (acc : CWallet × List CWalletTx) (tx : CAssembledTx) :
    acc.1.Keeps (syncAddNewTx crypto isMine hashFork acc tx).1 := by
  unfold syncAddNewTx
  split
  · next w p h => exact keeps_addWalletTx crypto isMine h
  · exact Keeps.refl _

theorem keeps_releaseTx (w : CWallet) (wtx : CWalletTx) : w.Keeps (w.releaseTx wtx) := by
  unfold releaseTx
  split
  · exact keeps_eraseIfUnused _ _ _
  · exact Keeps.refl w

theorem keeps_synchronizeTxSet (w : CWallet) (change : CTxSetChange) :
    w.Keeps (w.synchronizeTxSet crypto isMine change) := by
  let removed := (change.vTxRemove.map Prod.fst).foldl (syncRemoveTx change.hashFork) (w, [])
  let updated := change.mapTxUpdate.entries.foldl syncUpdateTx (removed.1, [])
  let added := change.vTxAddNew.foldl (syncAddNewTx crypto isMine change.hashFork) updated
  have hremove : w.Keeps removed.1 := keeps_foldl Prod.fst _ (keeps_syncRemoveTx change.hashFork) _ (w, [])
  have hupdate : removed.1.Keeps updated.1 := keeps_foldl Prod.fst _ keeps_syncUpdateTx _ (removed.1, [])
  have hadd : updated.1.Keeps added.1 :=
    keeps_foldl Prod.fst _ (keeps_syncAddNewTx crypto isMine change.hashFork) _ updated
  have hrelease : added.1.Keeps (added.2.foldl releaseTx added.1) := keeps_foldl id _ keeps_releaseTx _ _
  have hwrite : ∀ (w' : CWallet) (db : CWalletDB), w'.Keeps { w' with dbWallet := db } :=
    fun w' _ => keeps_of_heap rfl (Heap.Keeps.refl w'.heap)
  exact (hremove.trans (hupdate.trans (hadd.trans hrelease))).trans (keeps_ite (Keeps.refl _) (hwrite _ _))

theorem keeps_addNewTx (w : CWallet) (hashFork : Nat) (tx : CAssembledTx) :
    w.Keeps (w.addNewTx crypto isMine hashFork tx) := by
  unfold addNewTx
  split
  · next w' p h =>
    exact ((keeps_addWalletTx crypto isMine h).trans (keeps_eraseIfUnused _ _ _)).trans
      (keeps_of_heap rfl (Heap.Keeps.refl _))
  · exact Keeps.refl w

theorem keeps_update (w : CWallet) (u : WalletUpdate) : w.Keeps (w.update crypto isMine u) := by
  cases u with
  | addNewFork hashFork hashParent nOriginHeight profile =>
    exact w.keeps_addNewFork hashFork hashParent nOriginHeight profile
  | synchronizeTxSet change => exact w.keeps_synchronizeTxSet crypto isMine change
  | addNewTx hashFork tx => exact w.keeps_addNewTx crypto isMine hashFork tx

theorem run_valued (w : CWallet) (hw : w.Valued) (updates : List WalletUpdate) :
    (w.run crypto isMine updates).Valued :=
  (keeps_foldl id _ (keeps_update crypto isMine) updates w hw).1

end Synchronize

end CWallet

/-! ## What the coins of a fork should be -/

/-- The coins of `dest` in a ledger: each output of a transaction of the
ledger, not null and paying `dest`, that no transaction of the ledger spends,
with its amount. -/
def ledgerCoins (crypto : Crypto) (ledger : List CAssembledTx) (dest : CDestination) : List (CTxOutPoint × Int) :=
  ledger.flatMap fun tx =>
    let txid := tx.tx.getHash crypto
    (([0, 1] : List Nat).filter fun n =>
        !(tx.getOutput n).isNull && (tx.getOutput n).destTo == dest &&
          !ledger.any fun tx' => tx'.tx.vInput.any (·.prevout == ⟨txid, n⟩)).map
      fun n => (⟨txid, n⟩, (tx.getOutput n).nAmount)

/-- The coins of a set as outpoints with their amounts. -/
def CWalletCoins.outPoints (heap : Heap) (c : CWalletCoins) : List (CTxOutPoint × Int) :=
  c.setCoins.map fun out => (out.getTxOutPoint heap, out.getAmount heap)

set_option maxRecDepth 4000 in
/-- A mint is replaced in a reorganisation of a fork at the height a subline
comes off. The old mint leaves the fork alone, and the new one joins the fork
and the subline: the subline's coins of the destination hold both mints, 200
in all, where its ledger, the parent's up to the origin height when the
subline was made, holds the old mint alone. -/
theorem synchronizeTxSet_keeps_replaced_mint_on_subline :
    let crypto : Crypto := ⟨fun bs => (bs.map UInt8.toNat).sum, fun _ _ _ => true, fun _ _ _ _ => none⟩
    let dest := CDestination.ofPubKey 1
    let worldLine : IWorldLine := ⟨fun _ => none, fun _ => none⟩
    let mint : CTransaction := ⟨1, CTransaction.TX_WORK, 1, 0, 0, [], dest, 100, 0, [], []⟩
    let mint' : CTransaction := ⟨1, CTransaction.TX_WORK, 2, 0, 0, [], dest, 100, 0, [], []⟩
    let block : CBlockEx := ⟨⟨1, CBlock.BLOCK_PRIMARY, 1, 0, 0, [], mint, [], []⟩, []⟩
    let block' : CBlockEx := ⟨⟨1, CBlock.BLOCK_PRIMARY, 2, 0, 0, [], mint', [], []⟩, []⟩
    let synced := CTxPool.empty.synchronizeWorldLine crypto worldLine ⟨1, 1, [], [block], []⟩
    let reorg := synced.1.synchronizeWorldLine crypto worldLine ⟨1, 1, [], [block'], [block]⟩
    let w := CWallet.empty.run crypto (· == dest)
      [.addNewFork 1 0 0 (some true), .synchronizeTxSet synced.2, .addNewFork 2 1 1 (some false),
        .synchronizeTxSet reorg.2]
    ((w.unspentOf dest).getCoins 2).outPoints w.heap =
        [(⟨mint.getHash crypto, 0⟩, 100), (⟨mint'.getHash crypto, 0⟩, 100)] ∧
      ((w.unspentOf dest).getCoins 2).nTotalValue = 200 ∧
      ledgerCoins crypto [⟨mint, CDestination.null, 0, 1⟩] dest = [(⟨mint.getHash crypto, 0⟩, 100)] := by
  decide

end Multiverse.Wallet
