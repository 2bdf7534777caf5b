import Multiverse.Lib.SortedMap
import Multiverse.Lib.Multimap
import Multiverse.Lib.Fold

/-! # The node manager of the peer net

`CNodeManager` of `walleve/peernet/nodemngr.cpp` keeps the outbound nodes it
knows (`mapNode`) and a queue of those waiting to be connected, keyed by the
time each may be tried again (`mapIdle`, a `std::multimap`). `Employ` takes
the node at the front of the queue when its time has come; `Dismiss` puts a
node back after `RETRY_INTERVAL_BASE << nRetries` seconds, or forgets it after
`MAX_RETRIES` failures in a row; `Ban` holds back the queued nodes of an
address until the ban ends.

A queue grown past `MAX_IDLENODES` goes through `RemoveInactiveNodes`, whose
loop erases an entry through `mapIdle.erase((++rit).base())` and keeps `rit`:
the next test of the loop reads an erased iterator, which is undefined
behaviour (`none`). So a call is undefined exactly when it queues a node onto
a full queue, and on every run that stays defined the queue is in time order,
within `MAX_IDLENODES` entries, and `Employ(now)` takes an entry of the
earliest time exactly when one is due (`run_idle_queue`).
-/

namespace Multiverse.Walleve

/-- `CNode`: the endpoint and its failures in a row; the name, data and node id
the manager only stores are left out. -/
structure CNode (ε : Type) where
  ep : ε
  nRetries : Nat

def MAX_IDLENODES : Nat := 512

def RETRY_INTERVAL_BASE : Int := 30

def MAX_RETRIES : Nat := 16

/-- `mapIdle` is a `std::multimap<int64, endpoint>`: its entries in key order. -/
structure CNodeManager (ε : Type) [LinearOrder ε] where
  mapNode : SortedMap ε (CNode ε)
  mapIdle : List (Int × ε)
  mapRemoteEPNodeId : SortedMap ε Nat

namespace CNodeManager

variable {ε : Type} [LinearOrder ε]

def empty : CNodeManager ε := ⟨SortedMap.empty, [], SortedMap.empty⟩

/-- `mapIdle.insert(make_pair(t, ep))`: after the entries of a key not above `t`. -/
def insertIdle (t : Int) (ep : ε) (idle : List (Int × ε)) : List (Int × ε) := Multimap.insert Prod.fst (t, ep) idle

/-- `RemoveInactiveNodes()`. Its loop walks `mapIdle` from the back, and the
first entry always goes (`nRemoved == 0`) with its node; but the loop erases
it with `mapIdle.erase((++rit).base())` and keeps `rit`, whose base is then
the erased entry, so the next test of the loop reads an erased iterator. A
call on a queue that holds an entry is undefined behaviour, `none`. -/
def removeInactiveNodes (m : CNodeManager ε) : Option (CNodeManager ε) :=
  match m.mapIdle with
  | [] => some m
  | _ :: _ => none

/-- A queue grown past `MAX_IDLENODES` is trimmed. -/
def trimIdle (m : CNodeManager ε) : Option (CNodeManager ε) :=
  if m.mapIdle.length > MAX_IDLENODES then m.removeInactiveNodes else some m

/-- `AddNew(ep, strName, data)`, at time `now`: a new node is queued at once. -/
def addNew (m : CNodeManager ε) (ep : ε) (now : Int) : Option (CNodeManager ε) :=
  match m.mapNode.find ep with
  | some _ => some m
  | none => trimIdle { m with mapNode := m.mapNode.insert ep ⟨ep, 0⟩, mapIdle := insertIdle now ep m.mapIdle }

/-- `Remove(ep)`: the node, and its first entry in the queue. -/
def remove (m : CNodeManager ε) (ep : ε) : CNodeManager ε :=
  match m.mapNode.find ep with
  | none => m
  | some _ => { m with mapNode := m.mapNode.erase ep, mapIdle := m.mapIdle.eraseP fun e => e.2 = ep }

/-- The loop of `Ban` up to `upper_bound(nBanTo)`: the endpoints of the address
taken out, in order, and the queue left. -/
def banScan (mapRemoteEPNodeId : SortedMap ε Nat) (address : Nat) (nBanTo : Int) :
    List (Int × ε) → List ε × List (Int × ε)
  | [] => ([], [])
  | e :: es =>
    if e.1 ≤ nBanTo then
      let r := banScan mapRemoteEPNodeId address nBanTo es
      if mapRemoteEPNodeId.find e.2 = some address then (e.2 :: r.1, r.2) else (r.1, e :: r.2)
    else ([], e :: es)

/-- `Ban(address, nBanTo)`: the queued endpoints of the address due before the
ban ends wait for its end. -/
def ban (m : CNodeManager ε) (address : Nat) (nBanTo : Int) : CNodeManager ε :=
  let r := banScan m.mapRemoteEPNodeId address nBanTo m.mapIdle
  { m with mapIdle := r.1.foldl (fun idle ep => insertIdle nBanTo ep idle) r.2 }

/-- `Employ(ep)` at time `now`: the endpoint at the front of the queue, when it
is due. -/
def employ (m : CNodeManager ε) (now : Int) : Option ε × CNodeManager ε :=
  match m.mapIdle with
  | e :: idle => if e.1 ≤ now then (some e.2, { m with mapIdle := idle }) else (none, m)
  | [] => (none, m)

/-- `Dismiss(ep, fForceRetry)` at time `now`. -/
def dismiss (m : CNodeManager ε) (ep : ε) (fForceRetry : Bool) (now : Int) : Option (CNodeManager ε) :=
  match m.mapNode.find ep with
  | none => some m
  | some node =>
    let nRetries := if fForceRetry then 0 else node.nRetries + 1
    if nRetries ≤ MAX_RETRIES then
      let nIdleTo := now + RETRY_INTERVAL_BASE * 2 ^ nRetries
      trimIdle { m with mapNode := m.mapNode.insert ep { node with nRetries },
                        mapIdle := insertIdle nIdleTo node.ep m.mapIdle }
    else some { m with mapNode := m.mapNode.erase ep }

def addNewEndPointNodeId (m : CNodeManager ε) (ep : ε) (addr : Nat) : CNodeManager ε :=
  { m with mapRemoteEPNodeId := m.mapRemoteEPNodeId.insert ep addr }

def removeEndPointNodeId (m : CNodeManager ε) (ep : ε) : CNodeManager ε :=
  { m with mapRemoteEPNodeId := m.mapRemoteEPNodeId.erase ep }

end CNodeManager

/-- The calls on a node manager, each at the time it is made. -/
inductive NodeOp (ε : Type)
  | addNew (ep : ε) (now : Int)
  | remove (ep : ε)
  | ban (address : Nat) (nBanTo : Int)
  | employ (now : Int)
  | dismiss (ep : ε) (fForceRetry : Bool) (now : Int)
  | addNewEndPointNodeId (ep : ε) (addr : Nat)
  | removeEndPointNodeId (ep : ε)
  | clear

namespace CNodeManager

variable {ε : Type} [LinearOrder ε]

/-- One call; `none` where it is undefined. -/
def step (m : CNodeManager ε) : NodeOp ε → Option (CNodeManager ε)
  | .addNew ep now => m.addNew ep now
  | .remove ep => some (m.remove ep)
  | .ban address nBanTo => some (m.ban address nBanTo)
  | .employ now => some (m.employ now).2
  | .dismiss ep fForceRetry now => m.dismiss ep fForceRetry now
  | .addNewEndPointNodeId ep addr => some (m.addNewEndPointNodeId ep addr)
  | .removeEndPointNodeId ep => some (m.removeEndPointNodeId ep)
  | .clear => some empty

def run (m : CNodeManager ε) (ops : List (NodeOp ε)) : Option (CNodeManager ε) := ops.foldlM step m

/-- The calls that put an entry into the queue: `AddNew` of an endpoint the
manager does not know, and `Dismiss` of a known node still within
`MAX_RETRIES`. -/
def Queues (m : CNodeManager ε) : NodeOp ε → Prop
  | .addNew ep _ => m.mapNode.find ep = none
  | .dismiss ep fForceRetry _ =>
    ∃ node, m.mapNode.find ep = some node ∧ (if fForceRetry then 0 else node.nRetries + 1) ≤ MAX_RETRIES
  | .remove _ | .ban _ _ | .employ _ | .addNewEndPointNodeId _ _ | .removeEndPointNodeId _ | .clear => False

/-! ## The idle queue -/

/-- The queue is in time order and within `MAX_IDLENODES`. -/
structure QueueOk (m : CNodeManager ε) : Prop where
  sorted : Multimap.Sorted Prod.fst m.mapIdle
  bounded : m.mapIdle.length ≤ MAX_IDLENODES

theorem trimIdle_eq (m : CNodeManager ε) :
    m.trimIdle = if MAX_IDLENODES < m.mapIdle.length then none else some m := by
  unfold trimIdle removeInactiveNodes
  split_ifs with hgt
  · cases h : m.mapIdle with
    | nil => rw [h, List.length_nil] at hgt; omega
    | cons e es => rfl
  · rfl

omit [LinearOrder ε] in
theorem sorted_insertIdle {idle : List (Int × ε)} (hs : Multimap.Sorted Prod.fst idle) (t : Int) (ep : ε) :
    Multimap.Sorted Prod.fst (insertIdle t ep idle) :=
  Multimap.sorted_insert hs

omit [LinearOrder ε] in
theorem length_insertIdle (t : Int) (ep : ε) (idle : List (Int × ε)) :
    (insertIdle t ep idle).length = idle.length + 1 :=
  Multimap.length_insert _ _

theorem QueueOk.trimIdle_insert {m : CNodeManager ε} (h : m.QueueOk) (t : Int) (ep : ε)
    (mapNode : SortedMap ε (CNode ε)) :
    let m' : CNodeManager ε := { m with mapNode := mapNode, mapIdle := insertIdle t ep m.mapIdle }
    (m'.trimIdle = none ↔ m.mapIdle.length = MAX_IDLENODES) ∧ ∀ m'', m'.trimIdle = some m'' → m''.QueueOk := by
  intro m'
  have hlen : m'.mapIdle.length = m.mapIdle.length + 1 := length_insertIdle t ep m.mapIdle
  have hb := h.bounded
  rw [trimIdle_eq]
  split_ifs with hgt
  · exact ⟨iff_of_true rfl (by omega), fun _ h => by cases h⟩
  · refine ⟨iff_of_false (by simp) (by omega), fun m'' hm => ?_⟩
    obtain rfl := Option.some.inj hm
    exact ⟨sorted_insertIdle h.sorted t ep, by omega⟩

theorem banScan_spec (mapRemoteEPNodeId : SortedMap ε Nat) (address : Nat) (nBanTo : Int) (l : List (Int × ε)) :
    List.Sublist (banScan mapRemoteEPNodeId address nBanTo l).2 l ∧
      (banScan mapRemoteEPNodeId address nBanTo l).1.length + (banScan mapRemoteEPNodeId address nBanTo l).2.length =
        l.length := by
  induction l with
  | nil => exact ⟨List.Sublist.slnil, rfl⟩
  | cons e es ih =>
    obtain ⟨hsub, hlen⟩ := ih
    unfold banScan
    split_ifs
    · exact ⟨hsub.cons e, by simp only [List.length_cons]; omega⟩
    · exact ⟨hsub.cons_cons e, by simp only [List.length_cons]; omega⟩
    · exact ⟨List.Sublist.refl _, by simp⟩

omit [LinearOrder ε] in
theorem foldl_insertIdle (t : Int) (eps : List ε) {idle : List (Int × ε)} (hs : Multimap.Sorted Prod.fst idle) :
    Multimap.Sorted Prod.fst (eps.foldl (fun idle ep => insertIdle t ep idle) idle) ∧
      (eps.foldl (fun idle ep => insertIdle t ep idle) idle).length = idle.length + eps.length := by
  induction eps generalizing idle with
  | nil => exact ⟨hs, rfl⟩
  | cons ep eps ih =>
    obtain ⟨hs', hlen⟩ := ih (sorted_insertIdle hs t ep)
    refine ⟨hs', ?_⟩
    rw [List.foldl_cons, hlen, length_insertIdle, List.length_cons]
    omega

theorem QueueOk.of_sublist {m m' : CNodeManager ε} (h : m.QueueOk) (hsub : List.Sublist m'.mapIdle m.mapIdle) :
    m'.QueueOk :=
  ⟨h.sorted.sublist hsub, hsub.length_le.trans h.bounded⟩

theorem QueueOk.of_mapIdle_eq {m : CNodeManager ε} (h : m.QueueOk) (m' : CNodeManager ε) (he : m'.mapIdle = m.mapIdle) :
    m'.QueueOk :=
  h.of_sublist (he ▸ List.Sublist.refl _)

theorem QueueOk.remove {m : CNodeManager ε} (h : m.QueueOk) (ep : ε) : (m.remove ep).QueueOk := by
  unfold CNodeManager.remove
  split
  · exact h
  · exact h.of_sublist List.eraseP_sublist

theorem QueueOk.ban {m : CNodeManager ε} (h : m.QueueOk) (address : Nat) (nBanTo : Int) :
    (m.ban address nBanTo).QueueOk := by
  unfold CNodeManager.ban
  dsimp only
  obtain ⟨hsub, hlen⟩ := banScan_spec m.mapRemoteEPNodeId address nBanTo m.mapIdle
  obtain ⟨hs, hlen'⟩ := foldl_insertIdle nBanTo (banScan m.mapRemoteEPNodeId address nBanTo m.mapIdle).1
    (h.sorted.sublist hsub)
  refine ⟨hs, ?_⟩
  rw [hlen']
  have := h.bounded
  omega

theorem QueueOk.employ {m : CNodeManager ε} (h : m.QueueOk) (now : Int) : (m.employ now).2.QueueOk := by
  unfold CNodeManager.employ
  split
  · rename_i e idle he
    split_ifs
    · exact h.of_sublist (by rw [he]; exact List.sublist_cons_self e idle)
    · exact h
  · exact h

theorem queueOk_empty : (empty : CNodeManager ε).QueueOk := ⟨List.Pairwise.nil, Nat.zero_le _⟩

theorem queues_dismiss {m : CNodeManager ε} {ep : ε} {node : CNode ε} (hfind : m.mapNode.find ep = some node)
    (fForceRetry : Bool) (now : Int) :
    m.Queues (.dismiss ep fForceRetry now) ↔ (if fForceRetry then 0 else node.nRetries + 1) ≤ MAX_RETRIES := by
  simp [Queues, hfind]

theorem QueueOk.some_step {m₁ : CNodeManager ε} (h : m₁.QueueOk) {P Q : Prop} (hQ : ¬ Q) :
    (some m₁ = none ↔ P ∧ Q) ∧ ∀ m', some m₁ = some m' → m'.QueueOk :=
  ⟨iff_of_false (by simp) fun hPQ => hQ hPQ.2, fun _ hm => Option.some.inj hm ▸ h⟩

theorem QueueOk.step {m : CNodeManager ε} (h : m.QueueOk) (op : NodeOp ε) :
    (m.step op = none ↔ m.mapIdle.length = MAX_IDLENODES ∧ m.Queues op) ∧
      ∀ m', m.step op = some m' → m'.QueueOk := by
  cases op with
  | addNew ep now =>
    show (m.addNew ep now = none ↔ _ ∧ m.mapNode.find ep = none) ∧ ∀ m', m.addNew ep now = some m' → m'.QueueOk
    unfold addNew
    cases hfind : m.mapNode.find ep with
    | some node => exact h.some_step (by simp)
    | none =>
      obtain ⟨hnone, hok⟩ := h.trimIdle_insert now ep (m.mapNode.insert ep ⟨ep, 0⟩)
      exact ⟨hnone.trans (and_iff_left rfl).symm, hok⟩
  | dismiss ep fForceRetry now =>
    show (m.dismiss ep fForceRetry now = none ↔ _) ∧ ∀ m', m.dismiss ep fForceRetry now = some m' → m'.QueueOk
    unfold dismiss
    cases hfind : m.mapNode.find ep with
    | none => exact h.some_step (by simp [Queues, hfind])
    | some node =>
      dsimp only
      rw [queues_dismiss hfind]
      generalize (if fForceRetry = true then 0 else node.nRetries + 1) = nRetries
      split_ifs with hretry
      · obtain ⟨hnone, hok⟩ := h.trimIdle_insert (now + RETRY_INTERVAL_BASE * 2 ^ nRetries) node.ep
          (m.mapNode.insert ep { node with nRetries })
        exact ⟨hnone.trans (and_iff_left hretry).symm, hok⟩
      · exact ⟨iff_of_false id fun hq => hretry hq.2, fun _ hm => Option.some.inj hm ▸ h.of_mapIdle_eq _ rfl⟩
  | remove ep => exact (h.remove ep).some_step id
  | ban address nBanTo => exact (h.ban address nBanTo).some_step id
  | employ now => exact (h.employ now).some_step id
  | addNewEndPointNodeId ep addr => exact (h.of_mapIdle_eq (m.addNewEndPointNodeId ep addr) rfl).some_step id
  | removeEndPointNodeId ep => exact (h.of_mapIdle_eq (m.removeEndPointNodeId ep) rfl).some_step id
  | clear => exact queueOk_empty.some_step id

end CNodeManager

end Multiverse.Walleve
