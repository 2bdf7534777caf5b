import Multiverse.Lib.LittleEndian
import Multiverse.Lib.SortedMap
import Multiverse.Wallet.Coins

/-! # The wallet's transaction store

`CWalletDB` of `storage/walletdb.cpp`: transactions of a block are kept in the
key-value database `CWalletTxDB`, pooled ones (height below zero) in the memory
list `CWalletTxCache`. The database keeps each transaction twice: a record
"wtx" by txid, with the sequence number it was first written under, and a record
"seq" by sequence number that says of which fork and at which height the
transaction was when that record was written. `ListRollBackTx` walks the "seq"
records in the order of their keys, which hold the sequence number in eight
little-endian bytes, and then the cache.

The reference count of a `CWalletTx` lives in memory only: a record read back
has a count of zero. Failures of the database itself are not modelled.
-/

namespace Multiverse.Wallet

/-- A transaction as a record holds it, without its reference count. -/
def CWalletTx.stored (wtx : CWalletTx) : CWalletTx := { wtx with nRefCount := 0 }

/-- `CWalletTxSeq`: what a "seq" record says of a transaction. -/
structure CWalletTxSeq where
  txid : Nat
  hashFork : Nat
  nBlockHeight : Int
  deriving DecidableEq, Repr

def CWalletTxSeq.ofWalletTx (wtx : CWalletTx) : CWalletTxSeq := ⟨wtx.txid, wtx.hashFork, wtx.nBlockHeight⟩

/-- The place of a "seq" record in the database: its eight key bytes compared one
by one, the least significant byte of the sequence number first. -/
def seqKey (nSeq : Nat) : Nat := LittleEndian.decode (LittleEndian.encode 8 nSeq).reverse

/-- `CWalletTxDB`: the "wtx" records by txid and the "seq" records by their key. -/
structure CWalletTxDB where
  mapWtx : SortedMap Nat (Nat × CWalletTx)
  mapSeq : SortedMap Nat CWalletTxSeq
  nSequence : Nat

namespace CWalletTxDB

def empty : CWalletTxDB := ⟨SortedMap.empty, SortedMap.empty, 0⟩

/-- Writing the two records of a transaction under a sequence number. -/
def write (db : CWalletTxDB) (nSeq : Nat) (wtx : CWalletTx) : CWalletTxDB :=
  { db with
    mapWtx := db.mapWtx.insert wtx.txid (nSeq, wtx.stored)
    mapSeq := db.mapSeq.insert (seqKey nSeq) (CWalletTxSeq.ofWalletTx wtx) }

/-- `AddNewTx(wtx)`: a transaction already there has its "wtx" record rewritten
and keeps its "seq" record as it was; a new one is written under the next
sequence number. -/
def addNewTx (db : CWalletTxDB) (wtx : CWalletTx) : CWalletTxDB :=
  match db.mapWtx.find wtx.txid with
  | some (nSeq, _) => { db with mapWtx := db.mapWtx.insert wtx.txid (nSeq, wtx.stored) }
  | none => { db.write db.nSequence wtx with nSequence := db.nSequence + 1 }

/-- The sequence numbers `UpdateTx` gives the transactions it writes, all read
before the first write: the old number of a transaction the database has, the
next new one otherwise. -/
def assignSequence (db : CWalletTxDB) (vWalletTx : List CWalletTx) : List (Nat × CWalletTx) × Nat :=
  vWalletTx.foldl
    (fun acc wtx =>
      match db.mapWtx.find wtx.txid with
      | some (nSeq, _) => (acc.1 ++ [(nSeq, wtx)], acc.2)
      | none => (acc.1 ++ [(acc.2, wtx)], acc.2 + 1))
    ([], db.nSequence)

/-- `UpdateTx(vWalletTx, vRemove)`: every transaction written with its two
records, then the records of every removed transaction erased. -/
def updateTx (db : CWalletTxDB) (vWalletTx : List CWalletTx) (vRemove : List Nat) : CWalletTxDB :=
  let (vTxUpdate, nSequence) := db.assignSequence vWalletTx
  let vTxRemove := vRemove.filterMap fun txid => (db.mapWtx.find txid).map fun r => (r.1, txid)
  let db := vTxUpdate.foldl (fun db r => db.write r.1 r.2) { db with nSequence := nSequence }
  vTxRemove.foldl
    (fun db r => { db with mapWtx := db.mapWtx.erase r.2, mapSeq := db.mapSeq.erase (seqKey r.1) }) db

def retrieveTx (db : CWalletTxDB) (txid : Nat) : Option CWalletTx := (db.mapWtx.find txid).map (·.2)

/-- The walk of `CWalletDBRollBackTxSeqWalker`: the txids of the "seq" records of
a fork in key order, those of pooled transactions and those at `nMinHeight` or
above. -/
def listRollBackTx (db : CWalletTxDB) (hashFork : Nat) (nMinHeight : Int) : List Nat :=
  (db.mapSeq.entries.filter fun e =>
      e.2.hashFork == hashFork && (decide (e.2.nBlockHeight < 0) || decide (nMinHeight ≤ e.2.nBlockHeight))).map
    (·.2.txid)

end CWalletTxDB

/-- `CWalletTxCache`: the pooled transactions in the order they came, at most
one for each txid. -/
abbrev CWalletTxCache := List CWalletTx

namespace CWalletTxCache

/-- `AddNew(wtx)`: the list's unique index on the txid turns a second one away. -/
def addNew (cache : CWalletTxCache) (wtx : CWalletTx) : CWalletTxCache :=
  if cache.any (·.txid == wtx.txid) then cache else cache ++ [wtx]

def remove (cache : CWalletTxCache) (txid : Nat) : CWalletTxCache := cache.filter (·.txid != txid)

/-- `Get(txid, wtx)`: a copy, with no references. -/
def get (cache : CWalletTxCache) (txid : Nat) : Option CWalletTx :=
  (cache.find? (·.txid == txid)).map CWalletTx.stored

/-- `ListForkTx(hashFork)`: the txids of a fork, in the order they came. -/
def listForkTx (cache : CWalletTxCache) (hashFork : Nat) : List Nat :=
  (cache.filter (·.hashFork == hashFork)).map (·.txid)

end CWalletTxCache

/-- `CWalletDB`, its transaction part. -/
structure CWalletDB where
  dbWtx : CWalletTxDB
  txCache : CWalletTxCache

namespace CWalletDB

def empty : CWalletDB := ⟨CWalletTxDB.empty, []⟩

/-- `AddNewTx(wtx)`: a pooled transaction goes to the cache. -/
def addNewTx (db : CWalletDB) (wtx : CWalletTx) : CWalletDB :=
  if wtx.nBlockHeight < 0 then { db with txCache := db.txCache.addNew wtx }
  else { db with dbWtx := db.dbWtx.addNewTx wtx }

/-- `UpdateTx(vWalletTx, vRemove)`: the database is updated and every
transaction named leaves the cache. -/
def updateTx (db : CWalletDB) (vWalletTx : List CWalletTx) (vRemove : List Nat) : CWalletDB :=
  let txCache := vWalletTx.foldl (fun c wtx => CWalletTxCache.remove c wtx.txid) db.txCache
  ⟨db.dbWtx.updateTx vWalletTx vRemove, vRemove.foldl CWalletTxCache.remove txCache⟩

/-- `RetrieveTx(txid, wtx)`: the cache first. -/
def retrieveTx (db : CWalletDB) (txid : Nat) : Option CWalletTx :=
  match db.txCache.get txid with
  | some wtx => some wtx
  | none => db.dbWtx.retrieveTx txid

/-- `ListRollBackTx(hashFork, nMinHeight, vForkTx)`. -/
def listRollBackTx (db : CWalletDB) (hashFork : Nat) (nMinHeight : Int) : List Nat :=
  db.dbWtx.listRollBackTx hashFork nMinHeight ++ db.txCache.listForkTx hashFork

end CWalletDB

end Multiverse.Wallet
