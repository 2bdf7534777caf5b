import Multiverse.Common.Block
import Multiverse.Lib.SortedMap
import Multiverse.Lib.Multimap

/-! # The schedule of inventory requests

`CSchedule` of `src/schedule.cpp`, one for each fork of `CNetChannel`, follows
what peers announce. For each inv it keeps the peers that know it, the peer it
is requested from (`nAssigned`, 0 for no one) and the object once received.
For each peer it keeps the known invs of each type, in the order of their
last announcement, and those requested from it. `ScheduleBlockInv` and
`ScheduleTxInv` give a peer with nothing outstanding every inv it knows that
no one is asked for; the peer's delivery, or the super node's, completes the
request.

A delivery from the super node completes the request of whoever `nAssigned`
names, 0 when no one was asked. The inv is then received with no one
assigned, so the next schedule of a peer that knows it requests it again. The
peer's answer to that request completes nothing, and the peer stays assigned
(`scheduleBlockInv_requests_received_block`).
-/

namespace Multiverse

namespace Network

/-- `network::CInv`. -/
structure CInv where
  nType : Nat
  nHash : Nat
  deriving DecidableEq, Repr

namespace CInv

def MSG_TX : Nat := 1

def MSG_BLOCK : Nat := 2

/-- `operator<`: by type, then by hash. -/
instance : LinearOrder CInv :=
  LinearOrder.lift' (fun inv => toLex (inv.nType, inv.nHash)) fun a b h => by
    cases a
    cases b
    simp_all

end CInv

end Network

open Network

/-- `walleve::SUPERNODE_INNER_NONCE`, the largest `uint64`. -/
def SUPERNODE_INNER_NONCE : Nat := 2 ^ 64 - 1

def isSuperNodeInnerNonce (nNonce : Nat) : Bool := nNonce == SUPERNODE_INNER_NONCE

/-- A `std::set` of nonces or hashes, in key order. -/
abbrev NatSet := SortedMap Nat Unit

/-! ## Orphans -/

/-- `COrphan`: `mapOrphanByPrev`, a multimap from a missing previous object to
the objects waiting on it. -/
structure COrphan where
  mapOrphanByPrev : List (Nat × Nat)
  deriving DecidableEq, Repr

namespace COrphan

def addNew (o : COrphan) (prev hash : Nat) : COrphan :=
  ⟨Multimap.insert Prod.fst (prev, hash) o.mapOrphanByPrev⟩

/-- `Remove(hash)`: every entry of `hash` leaves. -/
def remove (o : COrphan) (hash : Nat) : COrphan := ⟨o.mapOrphanByPrev.filter (·.2 ≠ hash)⟩

/-- `GetNext(prev, vNext, setHash)`: the objects waiting on `prev` that are
not in `setHash` yet, in order. -/
def getNext (o : COrphan) (prev : Nat) (vNext : List Nat) (setHash : NatSet) : List Nat × NatSet :=
  (o.mapOrphanByPrev.filter (·.1 = prev)).foldl
    (fun acc e => if (acc.2.find e.2).isSome then acc else (acc.1 ++ [e.2], acc.2.insert e.2 ())) (vNext, setHash)

/-- `RemoveNext(prev)`. -/
def removeNext (o : COrphan) (prev : Nat) : COrphan := ⟨o.mapOrphanByPrev.filter (·.1 ≠ prev)⟩

/-- The loop of `RemoveBranch` from `vBranch[i]` on. Every hash of `vBranch`
is a distinct object of the map, so its size is fuel enough. -/
def removeBranchLoop : Nat → COrphan → List Nat → NatSet → Nat → COrphan × List Nat
  | 0, o, vBranch, _, _ => (o, vBranch)
  | fuel + 1, o, vBranch, setBranch, i =>
    match vBranch[i]? with
    | none => (o, vBranch)
    | some hash =>
      let r := o.getNext hash vBranch setBranch
      removeBranchLoop fuel (o.removeNext hash) r.1 r.2 (i + 1)

/-- `RemoveBranch(root, vBranch)`: the objects waiting on `root`, those
waiting on them and so on leave the map, and are returned each once. -/
def removeBranch (o : COrphan) (root : Nat) : COrphan × List Nat :=
  let r := o.getNext root [] SortedMap.empty
  removeBranchLoop (o.mapOrphanByPrev.length + 1) (o.removeNext root) r.1 r.2 0

end COrphan

/-! ## Peers and invs -/

/-- `CInvPeer::CInvPeerState`: the known invs of one type in the order of
their last announcement, and those requested. -/
structure CInvPeerState where
  listKnown : List Nat
  setAssigned : NatSet

/-- `CInvPeer`: `invKnown[0]` for `MSG_TX` and `invKnown[1]` for `MSG_BLOCK`,
the two types the schedule is given. -/
structure CInvPeer where
  txState : CInvPeerState
  blockState : CInvPeerState

namespace CInvPeer

def empty : CInvPeer := ⟨⟨[], SortedMap.empty⟩, ⟨[], SortedMap.empty⟩⟩

/-- `invKnown[type - MSG_TX]`. -/
def state (peer : CInvPeer) (type : Nat) : CInvPeerState :=
  if type = CInv.MSG_TX then peer.txState else peer.blockState

def modify (peer : CInvPeer) (type : Nat) (f : CInvPeerState → CInvPeerState) : CInvPeer :=
  if type = CInv.MSG_TX then { peer with txState := f peer.txState } else { peer with blockState := f peer.blockState }

def getKnownList (peer : CInvPeer) (type : Nat) : List Nat := (peer.state type).listKnown

def getAssigned (peer : CInvPeer) (type : Nat) : NatSet := (peer.state type).setAssigned

/-- `Empty(type)`. -/
def isEmpty (peer : CInvPeer) (type : Nat) : Bool := (peer.getKnownList type).isEmpty

def getCount (peer : CInvPeer) (type : Nat) : Nat := (peer.getKnownList type).length

/-- `GetKnownInv`: the known blocks, then the known transactions. -/
def getKnownInv (peer : CInvPeer) : List CInv :=
  peer.blockState.listKnown.map (⟨CInv.MSG_BLOCK, ·⟩) ++ peer.txState.listKnown.map (⟨CInv.MSG_TX, ·⟩)

/-- `AddNewInv(inv)`: the hash moves to the end of the known list. -/
def addNewInv (peer : CInvPeer) (inv : CInv) : CInvPeer :=
  peer.modify inv.nType fun st => { st with listKnown := st.listKnown.filter (· ≠ inv.nHash) ++ [inv.nHash] }

def removeInv (peer : CInvPeer) (inv : CInv) : CInvPeer :=
  peer.modify inv.nType fun st => ⟨st.listKnown.filter (· ≠ inv.nHash), st.setAssigned.erase inv.nHash⟩

def assign (peer : CInvPeer) (inv : CInv) : CInvPeer :=
  peer.modify inv.nType fun st => { st with setAssigned := st.setAssigned.insert inv.nHash () }

def completed (peer : CInvPeer) (inv : CInv) : CInvPeer :=
  peer.modify inv.nType fun st => { st with setAssigned := st.setAssigned.erase inv.nHash }

def isAssigned (peer : CInvPeer) : Bool := !peer.txState.setAssigned.isEmpty || !peer.blockState.setAssigned.isEmpty

end CInvPeer

/-- `CSchedule::CInvObject`; `CNil` is `none`. -/
inductive CInvObject
  | block (block : CBlock)
  | tx (tx : CTransaction)

/-- `CSchedule::CInvState`. -/
structure CInvState where
  nAssigned : Nat
  objReceived : Option CInvObject
  setKnownPeer : NatSet

namespace CInvState

/-- `CInvState()`. -/
def default : CInvState := ⟨0, none, SortedMap.empty⟩

def isReceived (st : CInvState) : Bool := st.objReceived.isSome

end CInvState

/-! ## The schedule -/

structure CSchedule where
  orphanBlock : COrphan
  orphanTx : COrphan
  mapPeer : SortedMap Nat CInvPeer
  mapState : SortedMap CInv CInvState

namespace CSchedule

def MAX_INV_COUNT : Nat := 1024 * 256

def MAX_PEER_BLOCK_INV_COUNT : Nat := 1024

def MAX_PEER_TX_INV_COUNT : Nat := 1024 * 256

def empty : CSchedule := ⟨⟨[]⟩, ⟨[]⟩, SortedMap.empty, SortedMap.empty⟩

/-- `mapPeer[nPeerNonce]` as it reads: a new peer when there is none. -/
def peerAt (s : CSchedule) (nPeerNonce : Nat) : CInvPeer := (s.mapPeer.find nPeerNonce).getD CInvPeer.empty

/-- `mapState[inv]` as it reads. -/
def stateAt (s : CSchedule) (inv : CInv) : CInvState := (s.mapState.find inv).getD CInvState.default

def setPeer (s : CSchedule) (nPeerNonce : Nat) (peer : CInvPeer) : CSchedule :=
  { s with mapPeer := s.mapPeer.insert nPeerNonce peer }

def setState (s : CSchedule) (inv : CInv) (st : CInvState) : CSchedule :=
  { s with mapState := s.mapState.insert inv st }

/-- `RemoveOrphan(inv)`. -/
def removeOrphan (s : CSchedule) (inv : CInv) : CSchedule :=
  if inv.nType = CInv.MSG_TX then { s with orphanTx := s.orphanTx.remove inv.nHash }
  else if inv.nType = CInv.MSG_BLOCK then { s with orphanBlock := s.orphanBlock.remove inv.nHash }
  else s

/-- `for (nPeerNonce : setKnownPeer) mapPeer[nPeerNonce].RemoveInv(inv)`. -/
def removeKnown (s : CSchedule) (inv : CInv) (setKnownPeer : NatSet) : CSchedule :=
  setKnownPeer.keys.foldl (fun s p => s.setPeer p ((s.peerAt p).removeInv inv)) s

/-- `RemovePeer(nPeerNonce, setSchedPeer)`: the peer leaves the known peers of
its invs; an inv no one else knows leaves the schedule, and one requested from
the peer is requested from no one, the object dropped, and its other peers are
to be scheduled. -/
def removePeer (s : CSchedule) (nPeerNonce : Nat) : CSchedule × List Nat :=
  match s.mapPeer.find nPeerNonce with
  | none => (s, [])
  | some peer =>
    let r := peer.getKnownInv.foldl (fun (acc : CSchedule × List Nat) inv =>
      let st := acc.1.stateAt inv
      let st := { st with setKnownPeer := st.setKnownPeer.erase nPeerNonce }
      if st.setKnownPeer.isEmpty then
        let s := acc.1.removeOrphan inv
        ({ s with mapState := s.mapState.erase inv }, acc.2)
      else if st.nAssigned = nPeerNonce then
        (acc.1.setState inv { st with nAssigned := 0, objReceived := none }, acc.2 ++ st.setKnownPeer.keys)
      else (acc.1.setState inv st, acc.2)) (s, [])
    ({ r.1 with mapPeer := r.1.mapPeer.erase nPeerNonce }, r.2)

/-- `AddNewInv(inv, nPeerNonce)`: the peer knows the inv, while the schedule
and the peer's list have room. -/
def addNewInv (s : CSchedule) (inv : CInv) (nPeerNonce : Nat) : CSchedule :=
  let peer := s.peerAt nPeerNonce
  let nMaxPeerInv := if inv.nType = CInv.MSG_TX then MAX_PEER_TX_INV_COUNT else MAX_PEER_BLOCK_INV_COUNT
  if s.mapState.size < MAX_INV_COUNT ∧ peer.getCount inv.nType < nMaxPeerInv then
    let st := s.stateAt inv
    (s.setState inv { st with setKnownPeer := st.setKnownPeer.insert nPeerNonce () }).setPeer nPeerNonce
      (peer.addNewInv inv)
  else s.setPeer nPeerNonce peer

/-- `RemoveInv(inv, setKnownPeer)`: the inv leaves the schedule and its peers,
which are returned. -/
def removeInv (s : CSchedule) (inv : CInv) : CSchedule × List Nat :=
  match s.mapState.find inv with
  | none => (s, [])
  | some st =>
    let s := s.removeKnown inv st.setKnownPeer
    let s := if st.isReceived then s.removeOrphan inv else s
    ({ s with mapState := s.mapState.erase inv }, st.setKnownPeer.keys)

/-- `ReceiveBlock` and `ReceiveTx`: a delivery of an inv not yet received
completes the request, from the peer it was requested from, or from the super
node for whoever `nAssigned` names; the inv's peers are to be scheduled. -/
def receive (s : CSchedule) (nType nPeerNonce hash : Nat) (obj : CInvObject) : CSchedule × Bool × List Nat :=
  let inv : CInv := ⟨nType, hash⟩
  match s.mapState.find inv with
  | none => (s, false, [])
  | some st =>
    let complete (nAssigned : Nat) : CSchedule × Bool × List Nat :=
      let s := s.setState inv { st with objReceived := some obj }
      (s.setPeer nAssigned ((s.peerAt nAssigned).completed inv), true, st.setKnownPeer.keys)
    if !isSuperNodeInnerNonce nPeerNonce then
      if st.nAssigned = nPeerNonce ∧ !st.isReceived then complete nPeerNonce else (s, false, [])
    else if !st.isReceived then complete st.nAssigned
    else (s, false, [])

def receiveBlock (s : CSchedule) (nPeerNonce hash : Nat) (block : CBlock) : CSchedule × Bool × List Nat :=
  s.receive CInv.MSG_BLOCK nPeerNonce hash (.block block)

def receiveTx (s : CSchedule) (nPeerNonce txid : Nat) (tx : CTransaction) : CSchedule × Bool × List Nat :=
  s.receive CInv.MSG_TX nPeerNonce txid (.tx tx)

def addOrphanBlockPrev (s : CSchedule) (hash prev : Nat) : CSchedule :=
  { s with orphanBlock := s.orphanBlock.addNew prev hash }

def addOrphanTxPrev (s : CSchedule) (txid prev : Nat) : CSchedule :=
  { s with orphanTx := s.orphanTx.addNew prev txid }

/-- `InvalidateBlock` and `InvalidateTx`: the orphans waiting on the object,
and the object itself, leave the schedule and their peers, which are
returned as misbehaving. -/
def invalidate (s : CSchedule) (nType hash : Nat) : CSchedule × List Nat :=
  let r := (if nType = CInv.MSG_TX then s.orphanTx else s.orphanBlock).removeBranch hash
  let s := if nType = CInv.MSG_TX then { s with orphanTx := r.1 } else { s with orphanBlock := r.1 }
  let d := r.2.foldl (fun (acc : CSchedule × List Nat) hashInvalid =>
    let inv : CInv := ⟨nType, hashInvalid⟩
    match acc.1.mapState.find inv with
    | none => acc
    | some st =>
      let s := acc.1.removeKnown inv st.setKnownPeer
      ({ s with mapState := s.mapState.erase inv }, acc.2 ++ st.setKnownPeer.keys)) (s, [])
  let e := d.1.removeInv ⟨nType, hash⟩
  (e.1, d.2 ++ e.2)

def invalidateBlock (s : CSchedule) (hash : Nat) : CSchedule × List Nat := s.invalidate CInv.MSG_BLOCK hash

def invalidateTx (s : CSchedule) (txid : Nat) : CSchedule × List Nat := s.invalidate CInv.MSG_TX txid

/-- The loop of `ScheduleKnownInv` over the peer's known list: an inv no one
is asked for is requested from the peer, until `nMaxCount` are; the received
ones are counted. -/
def scheduleKnownLoop (nPeerNonce type nMaxCount : Nat) :
    CSchedule → List CInv → Nat → List Nat → CSchedule × List CInv × Nat
  | s, vInv, nReceived, [] => (s, vInv, nReceived)
  | s, vInv, nReceived, hash :: listKnown =>
    let inv : CInv := ⟨type, hash⟩
    let st := s.stateAt inv
    let s := s.setState inv st
    if st.nAssigned = 0 then
      let s := (s.setState inv { st with nAssigned := nPeerNonce }).setPeer nPeerNonce
        ((s.peerAt nPeerNonce).assign inv)
      let vInv := vInv ++ [inv]
      if nMaxCount ≤ vInv.length then (s, vInv, nReceived)
      else scheduleKnownLoop nPeerNonce type nMaxCount s vInv nReceived listKnown
    else if st.isReceived then scheduleKnownLoop nPeerNonce type nMaxCount s vInv (nReceived + 1) listKnown
    else scheduleKnownLoop nPeerNonce type nMaxCount s vInv nReceived listKnown

/-- `ScheduleKnownInv(nPeerNonce, peer, type, vInv, nMaxCount, fReceivedAll)`:
the schedule, the invs requested, `fReceivedAll` and the result. -/
def scheduleKnownInv (s : CSchedule) (nPeerNonce type nMaxCount : Nat) : CSchedule × List CInv × Bool × Bool :=
  let listKnown := (s.peerAt nPeerNonce).getKnownList type
  let r := scheduleKnownLoop nPeerNonce type nMaxCount s [] 0 listKnown
  (r.1, r.2.1, r.2.2 = listKnown.length ∧ r.2.2 ≠ 0, !r.2.1.isEmpty || listKnown.isEmpty)

/-- What `ScheduleBlockInv` returns besides the schedule: the result, the
invs requested, `fMissingPrev` and `fEmpty`. -/
structure BlockSched where
  fOk : Bool
  vInv : List CInv
  fMissingPrev : Bool
  fEmpty : Bool

/-- `ScheduleBlockInv(nPeerNonce, vInv, nMaxCount, fMissingPrev, fEmpty)`: a
peer with nothing outstanding is given the known blocks no one is asked for. -/
def scheduleBlockInv (s : CSchedule) (nPeerNonce nMaxCount : Nat) : CSchedule × BlockSched :=
  match s.mapPeer.find nPeerNonce with
  | none => (s, ⟨true, [], false, true⟩)
  | some peer =>
    let fEmpty := peer.isEmpty CInv.MSG_BLOCK
    if !peer.isAssigned then
      let r := s.scheduleKnownInv nPeerNonce CInv.MSG_BLOCK nMaxCount
      if !r.2.2.2 then
        (r.1, ⟨!r.2.2.1 || decide (peer.getCount CInv.MSG_BLOCK < MAX_PEER_BLOCK_INV_COUNT), r.2.1, r.2.2.1, fEmpty⟩)
      else (r.1, ⟨true, r.2.1, false, fEmpty⟩)
    else (s, ⟨true, [], false, fEmpty⟩)

/-- `ScheduleTxInv(nPeerNonce, vInv, nMaxCount)`: the result and the invs
requested. -/
def scheduleTxInv (s : CSchedule) (nPeerNonce nMaxCount : Nat) : CSchedule × Bool × List CInv :=
  match s.mapPeer.find nPeerNonce with
  | some peer =>
    if !peer.isAssigned then
      let r := s.scheduleKnownInv nPeerNonce CInv.MSG_TX nMaxCount
      if !r.2.2.2 then (r.1, !r.2.2.1 || decide (peer.getCount CInv.MSG_TX < MAX_PEER_TX_INV_COUNT), r.2.1)
      else (r.1, true, r.2.1)
    else (s, true, [])
  | none => (s, true, [])

end CSchedule

/-! ## The calls of `CNetChannel` -/

/-- The calls `CNetChannel` makes on the schedule of a fork. -/
inductive SchedOp
  | addNewInv (inv : CInv) (nPeerNonce : Nat)
  | scheduleBlockInv (nPeerNonce nMaxCount : Nat)
  | scheduleTxInv (nPeerNonce nMaxCount : Nat)
  | receiveBlock (nPeerNonce hash : Nat) (block : CBlock)
  | receiveTx (nPeerNonce txid : Nat) (tx : CTransaction)
  | removeInv (inv : CInv)
  | removePeer (nPeerNonce : Nat)
  | invalidateBlock (hash : Nat)
  | invalidateTx (txid : Nat)
  | addOrphanBlockPrev (hash prev : Nat)
  | addOrphanTxPrev (txid prev : Nat)

namespace CSchedule

def step (s : CSchedule) : SchedOp → CSchedule
  | .addNewInv inv nPeerNonce => s.addNewInv inv nPeerNonce
  | .scheduleBlockInv nPeerNonce nMaxCount => (s.scheduleBlockInv nPeerNonce nMaxCount).1
  | .scheduleTxInv nPeerNonce nMaxCount => (s.scheduleTxInv nPeerNonce nMaxCount).1
  | .receiveBlock nPeerNonce hash block => (s.receiveBlock nPeerNonce hash block).1
  | .receiveTx nPeerNonce txid tx => (s.receiveTx nPeerNonce txid tx).1
  | .removeInv inv => (s.removeInv inv).1
  | .removePeer nPeerNonce => (s.removePeer nPeerNonce).1
  | .invalidateBlock hash => (s.invalidateBlock hash).1
  | .invalidateTx txid => (s.invalidateTx txid).1
  | .addOrphanBlockPrev hash prev => s.addOrphanBlockPrev hash prev
  | .addOrphanTxPrev txid prev => s.addOrphanTxPrev txid prev

def run (s : CSchedule) (ops : List SchedOp) : CSchedule := ops.foldl step s

end CSchedule

/-- Peer 1000 announces block 10, which it is asked for, then block 20 while
it is busy. The super node delivers block 20, an orphan of a missing block 30,
so block 20 is received with no one assigned. When peer 1000 delivers block 10,
which joins the chain and leaves the schedule, its next schedule requests
block 20 from it again. Its answer then fails to complete the request, and
the peer stays assigned, with nothing else outstanding. -/
theorem scheduleBlockInv_requests_received_block :
    let blk (hash hashPrev : Nat) : CBlock := ⟨1, CBlock.BLOCK_PRIMARY, hash, hashPrev, 0, [], CTransaction.null, [], []⟩
    let sched := CSchedule.empty.run
      [.addNewInv ⟨CInv.MSG_BLOCK, 10⟩ 1000, .scheduleBlockInv 1000 8,
        .addNewInv ⟨CInv.MSG_BLOCK, 20⟩ 1000, .scheduleBlockInv 1000 8,
        .receiveBlock SUPERNODE_INNER_NONCE 20 (blk 20 30), .addOrphanBlockPrev 20 30, .scheduleBlockInv 1000 8,
        .receiveBlock 1000 10 (blk 10 0), .removeInv ⟨CInv.MSG_BLOCK, 10⟩, .scheduleBlockInv 1000 8]
    ((sched.peerAt 1000).getAssigned CInv.MSG_BLOCK).keys = [20] ∧
      (sched.stateAt ⟨CInv.MSG_BLOCK, 20⟩).nAssigned = 1000 ∧
      (sched.stateAt ⟨CInv.MSG_BLOCK, 20⟩).isReceived = true ∧
      (sched.receiveBlock 1000 20 (blk 20 30)).2.1 = false ∧
      ((sched.receiveBlock 1000 20 (blk 20 30)).1.peerAt 1000).isAssigned = true := by
  decide

end Multiverse
