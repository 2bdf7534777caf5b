import Multiverse.Common.Block
import Multiverse.Lib.Overlay

/-! # Block views

`CBlockView` of `storage/blockbase.cpp`: a view rolls blocks back and
forth over the unspent outputs of a fork without touching them, in a map
from outpoints to counted cells (`CUnspent`). `AddTx` disables the inputs of
a transaction and enables its outputs that are not null; `RemoveTx` enables
the inputs again from the stored context and disables both outputs.
`GetUnspentChanges` hands back every cell whose count is not zero.

The maps are functions; `std::map::operator[]` creates a cell with a null
output and a zero count, which is `modify` below. The fork's unspent
database is its logical content, a null output being absent.

Each operation is related to the overlay of `Multiverse.Lib.Overlay`, one
outpoint at a time, by the events `txEvents` of a transaction.
-/

namespace Multiverse.Storage

open Overlay

/-- `CBlockView::CUnspent`: an output and its count of enables minus disables. -/
structure CUnspent where
  output : CTxOutput
  nOpt : Int
  deriving DecidableEq, Repr

namespace CUnspent

def empty : CUnspent := ⟨CTxOutput.null, 0⟩

def enable (u : CUnspent) (output : CTxOutput) : CUnspent := ⟨output, u.nOpt + 1⟩

def disable (u : CUnspent) : CUnspent := ⟨CTxOutput.null, u.nOpt - 1⟩

def isModified (u : CUnspent) : Bool := u.nOpt != 0

/-- The overlay cell a `CUnspent` stands for. -/
def toCell (u : CUnspent) : Cell CTxOutput := ⟨u.output.toOption, u.nOpt⟩

@[simp] theorem toCell_empty : empty.toCell = Cell.empty := rfl

end CUnspent

abbrev UnspentMap := CTxOutPoint → Option CUnspent

/-- The fork's unspent outputs, as `CForkUnspentDB` reads them. -/
abbrev UnspentDB := CTxOutPoint → Option CTxOutput

/-- `mapUnspent[k]`, then an update of that cell. -/
def modify (m : UnspentMap) (k : CTxOutPoint) (f : CUnspent → CUnspent) : UnspentMap :=
  Function.update m k (some (f ((m k).getD CUnspent.empty)))

structure CBlockView where
  mapTx : Nat → Option CTransaction
  mapUnspent : UnspentMap
  vTxRemove : List Nat
  vTxAddNew : List Nat

namespace CBlockView

/-- A view after `Initialize`: nothing rolled yet. -/
def empty : CBlockView := ⟨fun _ => none, fun _ => none, [], []⟩

/-- The loop of `AddTx` over the inputs. -/
def disableInputs : List CTxIn → UnspentMap → UnspentMap
  | [], m => m
  | txin :: vin, m => disableInputs vin (modify m txin.prevout CUnspent.disable)

/-- The loop of `RemoveTx` over the inputs, the `i`-th one restored from `vin[i]`. -/
def enableInputs (ctx : CTxContxt) : List CTxIn → Nat → UnspentMap → UnspentMap
  | [], _, m => m
  | txin :: vin, i, m => enableInputs ctx vin (i + 1) (modify m txin.prevout (·.enable (ctx.restore i)))

def addTx (v : CBlockView) (txid : Nat) (tx : CTransaction) (destIn : CDestination)
    (nValueIn : Int) : CBlockView :=
  let m := disableInputs tx.vInput v.mapUnspent
  let output0 := CTxOutput.ofTx tx
  let m := if output0.isNull then m else modify m ⟨txid, 0⟩ (·.enable output0)
  let output1 := CTxOutput.ofChange tx destIn nValueIn
  let m := if output1.isNull then m else modify m ⟨txid, 1⟩ (·.enable output1)
  { mapTx := Function.update v.mapTx txid (some tx)
    mapUnspent := m
    vTxRemove := v.vTxRemove
    vTxAddNew := v.vTxAddNew ++ [txid] }

def removeTx (v : CBlockView) (txid : Nat) (tx : CTransaction) (txContxt : CTxContxt) :
    CBlockView :=
  let m := enableInputs txContxt tx.vInput 0 v.mapUnspent
  let m := modify m ⟨txid, 0⟩ CUnspent.disable
  let m := modify m ⟨txid, 1⟩ CUnspent.disable
  { mapTx := Function.update v.mapTx txid (some CTransaction.null)
    mapUnspent := m
    vTxRemove := v.vTxRemove ++ [txid]
    vTxAddNew := v.vTxAddNew }

/-- `RetrieveUnspent`: a cell of the view hides the fork's database. -/
def retrieveUnspent (db : UnspentDB) (v : CBlockView) (out : CTxOutPoint) : Option CTxOutput :=
  match v.mapUnspent out with
  | some u => u.output.toOption
  | none => db out

/-- `GetTxUpdated`: the removed transactions the view added back. -/
def getTxUpdated (v : CBlockView) : List Nat :=
  v.vTxRemove.filter fun txid => !((v.mapTx txid).getD CTransaction.null).isNull

/-- `GetUnspentChanges`, key by key: `some (some o)` is an entry of `vAddNew`,
`some none` an entry of `vRemove`. -/
def getUnspentChanges (v : CBlockView) (out : CTxOutPoint) : Option (Option CTxOutput) :=
  match v.mapUnspent out with
  | some u => if u.isModified then some u.output.toOption else none
  | none => none

end CBlockView

/-- `CForkUnspentDB::UpdateUnspent` with the changes of a view. -/
def updateUnspent (db : UnspentDB) (changes : CTxOutPoint → Option (Option CTxOutput)) :
    UnspentDB :=
  fun out => (changes out).getD (db out)

/-! ## Outpoint by outpoint -/

section Cells

variable {k : CTxOutPoint} {m : UnspentMap}

end Cells

namespace CBlockView

variable {v : CBlockView} {txid : Nat} {tx : CTransaction} {ctx : CTxContxt} {k : CTxOutPoint}

end CBlockView

end Multiverse.Storage
