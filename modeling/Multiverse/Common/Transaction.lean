import Mathlib.Data.List.Basic
import Mathlib.Data.Prod.Lex
import Mathlib.Tactic.Ring

/-! # Destinations, transactions and their outputs

The data model of `common/destination.h` and `common/transaction.h`. A
`uint256` is a `Nat`, a byte vector is a `List UInt8`, the unsigned 8 to 32 bit
fields are `Nat` and `int64` amounts are `Int`; overflow plays no part in what
the development states about them. A transaction has two outputs: output 0 pays
`nAmount` to `sendTo`, output 1 returns the change to the input destination,
which is not part of the transaction and comes from its context.
-/

namespace Multiverse

/-- A destination: the `prefix` byte and 256 bits of data, a public key or a template id. -/
structure CDestination where
  nPrefix : Nat
  data : Nat
  deriving DecidableEq, Repr

namespace CDestination

def PREFIX_NULL : Nat := 0
def PREFIX_PUBKEY : Nat := 1
def PREFIX_TEMPLATE : Nat := 2

/-- `CDestination()`. -/
def null : CDestination := ⟨PREFIX_NULL, 0⟩

/-- `CDestination(const CPubKey&)`. -/
def ofPubKey (key : Nat) : CDestination := ⟨PREFIX_PUBKEY, key⟩

/-- `CDestination(const CTemplateId&)`. -/
def ofTemplateId (tid : Nat) : CDestination := ⟨PREFIX_TEMPLATE, tid⟩

def isNull (d : CDestination) : Bool := d.nPrefix == PREFIX_NULL

def isPubKey (d : CDestination) : Bool := d.nPrefix == PREFIX_PUBKEY

def isTemplate (d : CDestination) : Bool := d.nPrefix == PREFIX_TEMPLATE

def getPubKey (d : CDestination) : Nat := if d.nPrefix = PREFIX_PUBKEY then d.data else 0

def getTemplateId (d : CDestination) : Nat := if d.nPrefix = PREFIX_TEMPLATE then d.data else 0

@[simp] theorem isNull_null : null.isNull = true := rfl
@[simp] theorem isNull_ofPubKey (k : Nat) : (ofPubKey k).isNull = false := rfl
@[simp] theorem isNull_ofTemplateId (t : Nat) : (ofTemplateId t).isNull = false := rfl
@[simp] theorem isPubKey_ofPubKey (k : Nat) : (ofPubKey k).isPubKey = true := rfl
@[simp] theorem isTemplate_ofPubKey (k : Nat) : (ofPubKey k).isTemplate = false := rfl
@[simp] theorem isPubKey_ofTemplateId (t : Nat) : (ofTemplateId t).isPubKey = false := rfl
@[simp] theorem isTemplate_ofTemplateId (t : Nat) : (ofTemplateId t).isTemplate = true := rfl
@[simp] theorem getPubKey_ofPubKey (k : Nat) : (ofPubKey k).getPubKey = k := rfl
@[simp] theorem getTemplateId_ofTemplateId (t : Nat) : (ofTemplateId t).getTemplateId = t := rfl
@[simp] theorem getTemplateId_ofPubKey (k : Nat) : (ofPubKey k).getTemplateId = 0 := rfl

end CDestination

/-- A reference to output `n` of the transaction with hash `hash`. -/
structure CTxOutPoint where
  hash : Nat
  n : Nat
  deriving DecidableEq, Repr

/-- `CTxOutPoint::IsNull`: the hash is zero and `n` is the byte `-1`. -/
def CTxOutPoint.isNull (o : CTxOutPoint) : Bool := o.hash == 0 && o.n == 255

/-- `operator<` of `CTxOutPoint`: by hash, then by `n`; the order of the maps keyed by outpoints. -/
instance : LinearOrder CTxOutPoint :=
  LinearOrder.lift' (fun o => toLex (o.hash, o.n)) fun a b h => by
    cases a
    cases b
    simp_all

structure CTxIn where
  prevout : CTxOutPoint
  deriving DecidableEq, Repr

structure CTransaction where
  nVersion : Nat
  nType : Nat
  nTimeStamp : Nat
  nLockUntil : Nat
  hashAnchor : Nat
  vInput : List CTxIn
  sendTo : CDestination
  nAmount : Int
  nTxFee : Int
  vchData : List UInt8
  vchSig : List UInt8
  deriving DecidableEq, Repr

namespace CTransaction

def TX_TOKEN : Nat := 0x0000
def TX_CERT : Nat := 0xff00
def TX_GENESIS : Nat := 0x0100
def TX_STAKE : Nat := 0x0200
def TX_WORK : Nat := 0x0300

/-- `CTransaction()` after `SetNull`. -/
def null : CTransaction :=
  ⟨1, 0, 0, 0, 0, [], CDestination.null, 0, 0, [], []⟩

def isNull (tx : CTransaction) : Bool := tx.vInput.isEmpty && tx.sendTo.isNull

def isMintTx (tx : CTransaction) : Bool :=
  tx.nType == TX_GENESIS || tx.nType == TX_STAKE || tx.nType == TX_WORK

def getChange (tx : CTransaction) (nValueIn : Int) : Int := nValueIn - tx.nAmount - tx.nTxFee

/-- `GetLockUntil(n)`: the lock height, when its top bit selects output `n`. -/
def getLockUntil (tx : CTransaction) (n : Nat) : Nat :=
  if n = tx.nLockUntil >>> 31 then tx.nLockUntil &&& 0x7FFFFFFF else 0

def getTxTime (tx : CTransaction) : Nat := tx.nTimeStamp

/-- The outpoints the transaction consumes. -/
def prevouts (tx : CTransaction) : List CTxOutPoint := tx.vInput.map (·.prevout)

@[simp] theorem isNull_null : null.isNull = true := rfl

end CTransaction

/-- An unspent output: where it goes, how much, its time and its lock. -/
structure CTxOutput where
  destTo : CDestination
  nAmount : Int
  nTxTime : Nat
  nLockUntil : Nat
  deriving DecidableEq, Repr

namespace CTxOutput

/-- `CTxOutput()` after `SetNull`. -/
def null : CTxOutput := ⟨CDestination.null, 0, 0, 0⟩

def isNull (o : CTxOutput) : Bool := o.destTo.isNull || decide (o.nAmount ≤ 0)

/-- `IsLocked(nBlockHeight)`. -/
def isLocked (o : CTxOutput) (nBlockHeight : Int) : Bool :=
  decide (nBlockHeight < ((o.nLockUntil &&& 0x7FFFFFFF : Nat) : Int))

/-- `CTxOutput(const CTransaction&)`: output 0 of a transaction. -/
def ofTx (tx : CTransaction) : CTxOutput :=
  ⟨tx.sendTo, tx.nAmount, tx.nTimeStamp, tx.nLockUntil⟩

/-- `CTxOutput(tx, destIn, nValueIn)`: output 1, the change. -/
def ofChange (tx : CTransaction) (destIn : CDestination) (nValueIn : Int) : CTxOutput :=
  ⟨destIn, tx.getChange nValueIn, tx.nTimeStamp, 0⟩

/-- An output as a stored value: a null output is stored as absent. -/
def toOption (o : CTxOutput) : Option CTxOutput := if o.isNull then none else some o

@[simp] theorem isNull_null : null.isNull = true := rfl

theorem toOption_eq_some {o v : CTxOutput} : o.toOption = some v ↔ o.isNull = false ∧ o = v := by
  unfold toOption; split <;> simp_all

theorem toOption_eq_none {o : CTxOutput} : o.toOption = none ↔ o.isNull = true := by
  unfold toOption; split <;> simp_all

end CTxOutput

/-- What a block records of one input: the amount, time and lock it consumed. -/
structure CTxInContxt where
  nAmount : Int
  nTxTime : Nat
  nLockUntil : Nat
  deriving DecidableEq, Repr

/-- `CTxInContxt(const CTxOutput&)`. -/
def CTxInContxt.ofOutput (o : CTxOutput) : CTxInContxt := ⟨o.nAmount, o.nTxTime, o.nLockUntil⟩

/-- `CTxInContxt::IsLocked`. -/
def CTxInContxt.isLocked (c : CTxInContxt) (nBlockHeight : Int) : Bool :=
  decide (nBlockHeight < ((c.nLockUntil &&& 0x7FFFFFFF : Nat) : Int))

instance : Inhabited CTxInContxt := ⟨⟨0, 0, 0⟩⟩

/-- The context a block stores for a transaction: the destination of its inputs
and one entry per input. -/
structure CTxContxt where
  destIn : CDestination
  vin : List CTxInContxt
  deriving DecidableEq, Repr

namespace CTxContxt

/-- `CTxContxt()` after `SetNull`. -/
def null : CTxContxt := ⟨CDestination.null, []⟩

def getValueIn (c : CTxContxt) : Int := (c.vin.map (·.nAmount)).sum

/-- The output an input consumed, rebuilt from the context as `RemoveTx` does. -/
def restore (c : CTxContxt) (i : Nat) : CTxOutput :=
  let inc := c.vin.getD i default
  ⟨c.destIn, inc.nAmount, inc.nTxTime, inc.nLockUntil⟩

end CTxContxt

/-- A transaction with the input destination and value it was assembled with. -/
structure CAssembledTx where
  tx : CTransaction
  destIn : CDestination
  nValueIn : Int
  nBlockHeight : Int
  deriving DecidableEq, Repr

namespace CAssembledTx

def getChange (a : CAssembledTx) : Int := a.nValueIn - a.tx.nAmount - a.tx.nTxFee

/-- `CAssembledTx::GetOutput(n)`: the lock of each output is taken from
`GetLockUntil(n)`, unlike `CTxOutput(tx)` which keeps `nLockUntil` whole. -/
def getOutput (a : CAssembledTx) (n : Nat) : CTxOutput :=
  if n = 0 then ⟨a.tx.sendTo, a.tx.nAmount, a.tx.nTimeStamp, a.tx.getLockUntil 0⟩
  else if n = 1 then ⟨a.destIn, a.getChange, a.tx.nTimeStamp, a.tx.getLockUntil 1⟩
  else CTxOutput.null

end CAssembledTx

end Multiverse
