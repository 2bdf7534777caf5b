import Mathlib.Algebra.BigOperators.Group.List.Basic
import Mathlib.Data.List.Nodup
import Multiverse.Common.Transaction
import Multiverse.Lib.SortedMap

/-! # Wallet coins

`CWalletTx` and the coin sets of `wallet.h`. A coin `CWalletTxOut` is a
shared pointer to a wallet transaction and an output index, and coins compare
by the pointer: two loads of one transaction are two coins. The objects the
pointers point to form a heap, a list indexed by pointer, each object with the
reference count the coin sets holding it keep. `Push` adds a coin that is not
null and not yet in the set, `Pop` takes out one that is, and both move
`nTotalValue` and the count along.

A set is kept as a list without repetitions in the order of insertion; the
source's order by pointer only decides in which order `Dup` pushes, which
changes no result.
-/

namespace Multiverse

/-- `operator<` of `CDestination`: by prefix, then by data. -/
instance : LinearOrder CDestination :=
  LinearOrder.lift' (fun d => toLex (d.nPrefix, d.data)) fun a b h => by
    cases a
    cases b
    simp_all

namespace Wallet

/-- `CWalletTx`; the reference count lives in memory only. -/
structure CWalletTx where
  nVersion : Nat
  nType : Nat
  nTimeStamp : Nat
  nLockUntil : Nat
  vInput : List CTxIn
  sendTo : CDestination
  nAmount : Int
  nTxFee : Int
  destIn : CDestination
  nValueIn : Int
  nBlockHeight : Int
  nFlags : Nat
  txid : Nat
  hashFork : Nat
  nRefCount : Int
  deriving DecidableEq, Repr

namespace CWalletTx

def WTX_ISMINE : Nat := 1
def WTX_FROMME : Nat := 2

/-- `CWalletTx()`, after `SetNull`. -/
def null : CWalletTx :=
  ⟨0, 0, 0, 0, [], CDestination.null, 0, 0, CDestination.null, 0, 0, 0, 0, 0, 0⟩

def flags (fIsMine fFromMe : Bool) : Nat :=
  (if fIsMine then WTX_ISMINE else 0) ||| (if fFromMe then WTX_FROMME else 0)

/-- `CWalletTx(txid, tx, hashFork, fIsMine, fFromMe)`. -/
def ofAssembled (txid : Nat) (tx : CAssembledTx) (hashFork : Nat) (fIsMine fFromMe : Bool) : CWalletTx :=
  ⟨tx.tx.nVersion, tx.tx.nType, tx.tx.nTimeStamp, tx.tx.nLockUntil, tx.tx.vInput, tx.tx.sendTo,
    tx.tx.nAmount, tx.tx.nTxFee, tx.destIn, tx.nValueIn, tx.nBlockHeight, flags fIsMine fFromMe, txid,
    hashFork, 0⟩

def isNull (wtx : CWalletTx) : Bool := wtx.txid == 0

def isMine (wtx : CWalletTx) : Bool := wtx.nFlags &&& WTX_ISMINE != 0

def isFromMe (wtx : CWalletTx) : Bool := wtx.nFlags &&& WTX_FROMME != 0

def setFlags (wtx : CWalletTx) (fIsMine fFromMe : Bool) : CWalletTx :=
  { wtx with nFlags := flags fIsMine fFromMe }

def getChange (wtx : CWalletTx) : Int := wtx.nValueIn - wtx.nAmount - wtx.nTxFee

def getLockUntil (wtx : CWalletTx) (n : Nat) : Nat :=
  if n = wtx.nLockUntil >>> 31 then wtx.nLockUntil &&& 0x7FFFFFFF else 0

/-- `GetOutput(n)`: the payment, the change, or a null output. -/
def getOutput (wtx : CWalletTx) (n : Nat) : CTxOutput :=
  if n = 0 then ⟨wtx.sendTo, wtx.nAmount, wtx.nTimeStamp, wtx.getLockUntil 0⟩
  else if n = 1 then ⟨wtx.destIn, wtx.getChange, wtx.nTimeStamp, wtx.getLockUntil 1⟩
  else CTxOutput.null

/-- The fields the outputs of a wallet transaction are made of. -/
def outputs (wtx : CWalletTx) : CDestination × CDestination × Int × Int × Int × Nat × Nat :=
  (wtx.sendTo, wtx.destIn, wtx.nAmount, wtx.nTxFee, wtx.nValueIn, wtx.nTimeStamp, wtx.nLockUntil)

theorem getOutput_eq_of_outputs {wtx wtx' : CWalletTx} (h : wtx'.outputs = wtx.outputs) (n : Nat) :
    wtx'.getOutput n = wtx.getOutput n := by
  simp only [outputs, Prod.mk.injEq] at h
  obtain ⟨h1, h2, h3, h4, h5, h6, h7⟩ := h
  simp only [getOutput, getChange, getLockUntil, h1, h2, h3, h4, h5, h6, h7]

theorem getChange_eq_of_outputs {wtx wtx' : CWalletTx} (h : wtx'.outputs = wtx.outputs) :
    wtx'.getChange = wtx.getChange := by
  simp only [outputs, Prod.mk.injEq] at h
  simp only [getChange, h.2.2.1, h.2.2.2.1, h.2.2.2.2.1]

end CWalletTx

/-- The wallet transactions the shared pointers point to; a pointer is an index. -/
abbrev Heap := List CWalletTx

/-- `AddRef` and `Release`: the reference count of the object at `p` moves by `d`. -/
def Heap.addRef (heap : Heap) (p : Nat) (d : Int) : Heap :=
  heap.modify p fun wtx => { wtx with nRefCount := wtx.nRefCount + d }

/-- `CWalletTxOut(spWalletTx, n)`. -/
structure CWalletTxOut where
  spWalletTx : Nat
  n : Nat
  deriving DecidableEq, Repr

namespace CWalletTxOut

/-- `IsNull()`: a pointer to nothing, or a null output. -/
def isNull (heap : Heap) (out : CWalletTxOut) : Bool :=
  match heap[out.spWalletTx]? with
  | none => true
  | some wtx => (wtx.getOutput out.n).isNull

/-- `GetAmount()`: the payment for output 0, the change otherwise. -/
def getAmount (heap : Heap) (out : CWalletTxOut) : Int :=
  match heap[out.spWalletTx]? with
  | none => 0
  | some wtx => if out.n = 0 then wtx.nAmount else wtx.getChange

/-- `GetTxOutPoint()`: the txid of the object and the output index. -/
def getTxOutPoint (heap : Heap) (out : CWalletTxOut) : CTxOutPoint :=
  ⟨(heap.getD out.spWalletTx CWalletTx.null).txid, out.n⟩

end CWalletTxOut

/-- `CWalletCoins`. -/
structure CWalletCoins where
  nTotalValue : Int
  setCoins : List CWalletTxOut
  deriving DecidableEq, Repr

namespace CWalletCoins

def empty : CWalletCoins := ⟨0, []⟩

/-- `Push(out)`: a coin that is not null and new joins the set, its amount the
total and one reference its object. -/
def push (c : CWalletCoins) (heap : Heap) (out : CWalletTxOut) : CWalletCoins × Heap :=
  if out.isNull heap = false ∧ out ∉ c.setCoins then
    (⟨c.nTotalValue + out.getAmount heap, c.setCoins ++ [out]⟩, heap.addRef out.spWalletTx 1)
  else (c, heap)

/-- `Pop(out)`: a coin that is not null and in the set leaves it. -/
def pop (c : CWalletCoins) (heap : Heap) (out : CWalletTxOut) : CWalletCoins × Heap :=
  if out.isNull heap = false ∧ out ∈ c.setCoins then
    (⟨c.nTotalValue - out.getAmount heap, c.setCoins.erase out⟩, heap.addRef out.spWalletTx (-1))
  else (c, heap)

end CWalletCoins

/-- `CWalletUnspent`: the coins of one destination on each fork. -/
abbrev CWalletUnspent := SortedMap Nat CWalletCoins

namespace CWalletUnspent

/-- `GetCoins(hashFork)`, a missing fork reading as no coins. -/
def getCoins (u : CWalletUnspent) (hashFork : Nat) : CWalletCoins :=
  (u.find hashFork).getD CWalletCoins.empty

def push (u : CWalletUnspent) (heap : Heap) (hashFork : Nat) (out : CWalletTxOut) : CWalletUnspent × Heap :=
  let r := (u.getCoins hashFork).push heap out
  (u.insert hashFork r.1, r.2)

def pop (u : CWalletUnspent) (heap : Heap) (hashFork : Nat) (out : CWalletTxOut) : CWalletUnspent × Heap :=
  let r := (u.getCoins hashFork).pop heap out
  (u.insert hashFork r.1, r.2)

/-- `Dup(hashFrom, hashTo)`: every coin of one fork is pushed to the other. -/
def dup (u : CWalletUnspent) (heap : Heap) (hashFrom hashTo : Nat) : CWalletUnspent × Heap :=
  match u.find hashFrom with
  | none => (u, heap)
  | some coins =>
    coins.setCoins.foldl (fun r out => r.1.push r.2 hashTo out) (u.insert hashTo (u.getCoins hashTo), heap)

end CWalletUnspent

/-! ## What the coin sets keep -/

/-- A heap that keeps the outputs of every object of another: reference
counts, heights and flags may change, and objects may be added. -/
@[reducible] def Heap.Keeps (heap heap' : Heap) : Prop :=
  ∀ (p : Nat) (wtx : CWalletTx), heap[p]? = some wtx →
    ∃ wtx' : CWalletTx, heap'[p]? = some wtx' ∧ wtx'.outputs = wtx.outputs

theorem Heap.Keeps.refl (heap : Heap) : heap.Keeps heap := fun _ wtx h => ⟨wtx, h, rfl⟩

theorem Heap.Keeps.trans {heap heap' heap'' : Heap} (h : heap.Keeps heap') (h' : heap'.Keeps heap'') :
    heap.Keeps heap'' := by
  intro p wtx hp
  obtain ⟨wtx', hp', ho⟩ := h p wtx hp
  obtain ⟨wtx'', hp'', ho'⟩ := h' p wtx' hp'
  exact ⟨wtx'', hp'', ho'.trans ho⟩

theorem Heap.keeps_modify (heap : Heap) (p : Nat) {g : CWalletTx → CWalletTx}
    (hg : ∀ wtx, (g wtx).outputs = wtx.outputs) : heap.Keeps (heap.modify p g) := by
  intro q wtx hq
  rw [List.getElem?_modify, hq]
  by_cases hpq : p = q
  · exact ⟨g wtx, by simp [hpq], hg wtx⟩
  · exact ⟨wtx, by simp [hpq], rfl⟩

theorem Heap.keeps_addRef (heap : Heap) (p : Nat) (d : Int) : heap.Keeps (heap.addRef p d) :=
  heap.keeps_modify p fun _ => rfl

theorem Heap.keeps_append (heap : Heap) (wtx : CWalletTx) : heap.Keeps (heap ++ [wtx]) := by
  intro p wtx' hp
  have hlt : p < heap.length := (List.getElem?_eq_some_iff.mp hp).1
  exact ⟨wtx', by rw [List.getElem?_append_left hlt, hp], rfl⟩

theorem CWalletTxOut.isNull_of_keeps {heap heap' : Heap} (h : heap.Keeps heap') {out : CWalletTxOut}
    (hout : out.isNull heap = false) : out.isNull heap' = false ∧ out.getAmount heap' = out.getAmount heap := by
  unfold isNull at hout
  split at hout
  · cases hout
  · next wtx hp =>
    obtain ⟨wtx', hp', ho⟩ := h _ wtx hp
    have hamount : wtx'.nAmount = wtx.nAmount := by
      simp only [CWalletTx.outputs, Prod.mk.injEq] at ho
      exact ho.2.2.1
    simp only [isNull, getAmount, hp', hp, CWalletTx.getOutput_eq_of_outputs ho,
      CWalletTx.getChange_eq_of_outputs ho, hamount, hout, and_self]

/-- What `Push` and `Pop` keep of a coin set: no coin twice, no null coin, and
`nTotalValue` the sum of the amounts. -/
structure CWalletCoins.Valued (heap : Heap) (c : CWalletCoins) : Prop where
  nodup : c.setCoins.Nodup
  nonnull : ∀ out ∈ c.setCoins, out.isNull heap = false
  total : c.nTotalValue = (c.setCoins.map (CWalletTxOut.getAmount heap)).sum

namespace CWalletCoins

theorem valued_empty (heap : Heap) : empty.Valued heap := ⟨List.nodup_nil, by simp [empty], rfl⟩

theorem Valued.of_keeps {heap heap' : Heap} {c : CWalletCoins} (hc : c.Valued heap) (h : heap.Keeps heap') :
    c.Valued heap' := by
  refine ⟨hc.nodup, fun out hout => (CWalletTxOut.isNull_of_keeps h (hc.nonnull out hout)).1, ?_⟩
  rw [hc.total]
  congr 1
  exact List.map_congr_left fun out hout => (CWalletTxOut.isNull_of_keeps h (hc.nonnull out hout)).2.symm

theorem Valued.push {heap : Heap} {c : CWalletCoins} (hc : c.Valued heap) (out : CWalletTxOut) :
    (c.push heap out).1.Valued (c.push heap out).2 ∧ heap.Keeps (c.push heap out).2 := by
  have hk := heap.keeps_addRef out.spWalletTx 1
  unfold CWalletCoins.push
  split_ifs with hnew
  · obtain ⟨hnull, hnot⟩ := hnew
    have hc' := hc.of_keeps hk
    refine ⟨⟨List.nodup_append.mpr ⟨hc.nodup, List.nodup_singleton out, ?_⟩, ?_, ?_⟩, hk⟩
    · intro a ha b hb hab
      rw [List.mem_singleton.mp hb] at hab
      exact hnot (hab ▸ ha)
    · intro o ho
      rcases List.mem_append.mp ho with ho | ho
      · exact hc'.nonnull o ho
      · rw [List.mem_singleton.mp ho]
        exact (CWalletTxOut.isNull_of_keeps hk hnull).1
    · rw [List.map_append, List.sum_append, ← hc'.total, List.map_singleton, List.sum_singleton,
        (CWalletTxOut.isNull_of_keeps hk hnull).2]
  · exact ⟨hc, Heap.Keeps.refl heap⟩

theorem Valued.pop {heap : Heap} {c : CWalletCoins} (hc : c.Valued heap) (out : CWalletTxOut) :
    (c.pop heap out).1.Valued (c.pop heap out).2 ∧ heap.Keeps (c.pop heap out).2 := by
  have hk := heap.keeps_addRef out.spWalletTx (-1)
  unfold CWalletCoins.pop
  split_ifs with hin
  · obtain ⟨hnull, hmem⟩ := hin
    have hc' := hc.of_keeps hk
    refine ⟨⟨hc.nodup.erase out, fun o ho => hc'.nonnull o (List.mem_of_mem_erase ho), ?_⟩, hk⟩
    have hsum := List.sum_map_erase (CWalletTxOut.getAmount (heap.addRef out.spWalletTx (-1))) hmem
    dsimp only
    rw [hc'.total, (CWalletTxOut.isNull_of_keeps hk hnull).2.symm]
    omega
  · exact ⟨hc, Heap.Keeps.refl heap⟩

end CWalletCoins

/-- Every coin set of a destination is valued. -/
def CWalletUnspent.Valued (heap : Heap) (u : CWalletUnspent) : Prop :=
  ∀ hashFork, (u.getCoins hashFork).Valued heap

namespace CWalletUnspent

variable {heap : Heap} {u : CWalletUnspent}

theorem getCoins_insert (u : CWalletUnspent) (hashFork hashFork' : Nat) (c : CWalletCoins) :
    getCoins (u.insert hashFork c) hashFork' = if hashFork' = hashFork then c else u.getCoins hashFork' := by
  unfold getCoins
  rw [SortedMap.find_insert]
  split_ifs <;> rfl

theorem valued_empty (heap : Heap) : CWalletUnspent.Valued heap SortedMap.empty :=
  fun _ => CWalletCoins.valued_empty heap

theorem Valued.of_keeps {heap' : Heap} (hu : u.Valued heap) (h : heap.Keeps heap') : u.Valued heap' :=
  fun hashFork => (hu hashFork).of_keeps h

theorem Valued.insert (hu : u.Valued heap) {c : CWalletCoins} (hc : c.Valued heap) (hashFork : Nat) :
    CWalletUnspent.Valued heap (u.insert hashFork c) := by
  intro hashFork'
  rw [getCoins_insert]
  split_ifs
  · exact hc
  · exact hu hashFork'

theorem Valued.push (hu : u.Valued heap) (hashFork : Nat) (out : CWalletTxOut) :
    (u.push heap hashFork out).1.Valued (u.push heap hashFork out).2 ∧ heap.Keeps (u.push heap hashFork out).2 := by
  obtain ⟨hc, hk⟩ := (hu hashFork).push out
  exact ⟨(hu.of_keeps hk).insert hc hashFork, hk⟩

theorem Valued.pop (hu : u.Valued heap) (hashFork : Nat) (out : CWalletTxOut) :
    (u.pop heap hashFork out).1.Valued (u.pop heap hashFork out).2 ∧ heap.Keeps (u.pop heap hashFork out).2 := by
  obtain ⟨hc, hk⟩ := (hu hashFork).pop out
  exact ⟨(hu.of_keeps hk).insert hc hashFork, hk⟩

theorem Valued.dup (hu : u.Valued heap) (hashFrom hashTo : Nat) :
    (u.dup heap hashFrom hashTo).1.Valued (u.dup heap hashFrom hashTo).2 ∧
      heap.Keeps (u.dup heap hashFrom hashTo).2 := by
  unfold CWalletUnspent.dup
  split
  · exact ⟨hu, Heap.Keeps.refl heap⟩
  · next coins _ =>
    have hrun : ∀ (l : List CWalletTxOut) (r : CWalletUnspent × Heap), r.1.Valued r.2 → heap.Keeps r.2 →
        (l.foldl (fun r out => r.1.push r.2 hashTo out) r).1.Valued
          (l.foldl (fun r out => r.1.push r.2 hashTo out) r).2 ∧
        heap.Keeps (l.foldl (fun r out => r.1.push r.2 hashTo out) r).2 := by
      intro l
      induction l with
      | nil => exact fun r h hk => ⟨h, hk⟩
      | cons out l ih =>
        intro r h hk
        obtain ⟨h', hk'⟩ := h.push hashTo out
        exact ih _ h' (hk.trans hk')
    exact hrun _ _ (hu.insert (hu hashTo) hashTo) (Heap.Keeps.refl heap)

end CWalletUnspent

end Wallet

end Multiverse
