import Multiverse.Lib.SortedMap
import Multiverse.Lib.Fold

/-! # The data scheduler of the peer net

`walleve::CDataScheduler<CDataIdent>` of `walleve/peernet/datasched.h`, which
`CDelegatedChannel` runs over the delegated data its peers announce. For each
active peer it keeps the data the peer announced, in order, and whether it is
asked for one (`fAssigned`); for each datum, the peers that announced it and
the peer it is asked of (`nAssigned`, 0 for no one). `Schedule` gives each
peer that is asked for nothing the first datum of its list that no one else is
asked for and the filter does not ignore.

`mapPeer` holds shared pointers: `mapPeer[nNonce]->fAssigned` on a nonce that
is not in the map dereferences a null pointer. Those calls return `none`.

Every run from the empty scheduler of calls as `CDelegatedChannel` makes them
succeeds and keeps `Inv` (`run_inv`): each datum is asked of one active peer
that announced it, each peer is asked for at most one datum, and `fAssigned`
says exactly whether it is. `RemoveKnownData` is `UnassignPeer` followed by
dropping the datum (`Inv.removeKnownData_eq`). The scan of `Schedule` picks the
first datum of a peer's list that is not ignored and asked of no one
(`scheduleScan_fst`), so `Schedule` leaves no peer idle that could be given a
datum (`schedule_maximal`), and the pairs it reports are exactly the data it
asks for (`schedule_reports_assigned`).
-/

namespace Multiverse.Walleve

/-- `CDataPeer`: the data the peer announced, in order, and whether it is asked
for one. -/
structure CDataPeer (ι : Type) where
  nNonce : Nat
  listDataIdent : List ι
  fAssigned : Bool

/-- `CDataKnown`: the peers that announced a datum, and the one it is asked of. -/
structure CDataKnown where
  setKnownPeer : SortedMap Nat Unit
  nAssigned : Nat

namespace CDataKnown

/-- The value `mapData[ident]` creates. -/
def empty : CDataKnown := ⟨SortedMap.empty, 0⟩

/-- `AddPeer(nNonce)`: whether the peer is new to the datum. -/
def addPeer (k : CDataKnown) (nNonce : Nat) : Bool × CDataKnown :=
  ((k.setKnownPeer.find nNonce).isNone, { k with setKnownPeer := k.setKnownPeer.insert nNonce () })

def removePeer (k : CDataKnown) (nNonce : Nat) : CDataKnown :=
  ⟨k.setKnownPeer.erase nNonce, if k.nAssigned = nNonce then 0 else k.nAssigned⟩

/-- `Assign(nNonce)`: fails when the datum is asked of another peer. -/
def assign (k : CDataKnown) (nNonce : Nat) : Bool × CDataKnown :=
  if k.nAssigned ≠ 0 ∧ k.nAssigned ≠ nNonce then (false, k) else (true, { k with nAssigned := nNonce })

/-- `Unassign()`: the peer the datum was asked of. -/
def unassign (k : CDataKnown) : Nat × CDataKnown := (k.nAssigned, { k with nAssigned := 0 })

theorem assign_eq (k : CDataKnown) (nNonce : Nat) : k.assign nNonce =
    if k.nAssigned = 0 ∨ k.nAssigned = nNonce then (true, { k with nAssigned := nNonce }) else (false, k) := by
  unfold assign
  by_cases h0 : k.nAssigned = 0 <;> by_cases hn : k.nAssigned = nNonce <;> simp [h0, hn]

end CDataKnown

structure CDataScheduler (ι : Type) [LinearOrder ι] where
  mapPeer : SortedMap Nat (CDataPeer ι)
  mapData : SortedMap ι CDataKnown

namespace CDataScheduler

variable {ι : Type} [LinearOrder ι]

def empty : CDataScheduler ι := ⟨SortedMap.empty, SortedMap.empty⟩

/-- `mapData[ident]` as it reads. -/
def dataAt (s : CDataScheduler ι) (ident : ι) : CDataKnown := (s.mapData.find ident).getD .empty

/-- `mapPeer[nNonce]->fAssigned = false`. -/
def releasePeer (s : CDataScheduler ι) (nNonce : Nat) : Option (CDataScheduler ι) :=
  (s.mapPeer.find nNonce).map fun spPeer => { s with mapPeer := s.mapPeer.insert nNonce { spPeer with fAssigned := false } }

/-- `ActivatePeer(spPeer)`: a nonce already active keeps its peer. -/
def activatePeer (s : CDataScheduler ι) (spPeer : CDataPeer ι) : CDataScheduler ι :=
  { s with mapPeer := s.mapPeer.insertNew spPeer.nNonce spPeer }

/-- `DeactivatePeer(nNonce)`: the peer leaves the data it announced, and is no
longer asked for any. -/
def deactivatePeer (s : CDataScheduler ι) (nNonce : Nat) : CDataScheduler ι :=
  match s.mapPeer.find nNonce with
  | none => s
  | some spPeer =>
    let s := spPeer.listDataIdent.foldl
      (fun s ident => { s with mapData := s.mapData.insert ident ((s.dataAt ident).removePeer nNonce) }) s
    { s with mapPeer := s.mapPeer.erase nNonce }

/-- `AddKnownData(nNonce, ident)`: an active peer announces a datum, listed once. -/
def addKnownData (s : CDataScheduler ι) (nNonce : Nat) (ident : ι) : CDataScheduler ι :=
  match s.mapPeer.find nNonce with
  | none => s
  | some spPeer =>
    let r := (s.dataAt ident).addPeer nNonce
    let s := { s with mapData := s.mapData.insert ident r.2 }
    if r.1 then
      { s with mapPeer := s.mapPeer.insert nNonce { spPeer with listDataIdent := spPeer.listDataIdent ++ [ident] } }
    else s

/-- `mapPeer[nNonce]->listDataIdent.remove(ident)`. -/
def forgetData (ident : ι) (s : CDataScheduler ι) (nNonce : Nat) : Option (CDataScheduler ι) :=
  (s.mapPeer.find nNonce).map fun spPeer =>
    { s with mapPeer := s.mapPeer.insert nNonce { spPeer with listDataIdent := spPeer.listDataIdent.filter (· ≠ ident) } }

/-- `RemoveKnownData(ident)`: the datum leaves the lists of its peers and the
map, and the peer it was asked of is free again. -/
def removeKnownData (s : CDataScheduler ι) (ident : ι) : Option (CDataScheduler ι) :=
  match s.mapData.find ident with
  | none => some s
  | some known => do
    let s ← known.setKnownPeer.keys.foldlM (forgetData ident) s
    let s ← if known.nAssigned ≠ 0 then s.releasePeer known.nAssigned else some s
    some { s with mapData := s.mapData.erase ident }

/-- The scan of one peer's list in `Schedule`: the first datum the filter does
not ignore and `Assign` gives to the peer. -/
def scheduleScan (Ignored : ι → Bool) (nNonce : Nat) :
    List ι → SortedMap ι CDataKnown → Option ι × SortedMap ι CDataKnown
  | [], mapData => (none, mapData)
  | ident :: listDataIdent, mapData =>
    if Ignored ident then scheduleScan Ignored nNonce listDataIdent mapData
    else
      let r := ((mapData.find ident).getD .empty).assign nNonce
      let mapData := mapData.insert ident r.2
      if r.1 then (some ident, mapData) else scheduleScan Ignored nNonce listDataIdent mapData

/-- One turn of the loop of `Schedule`, for the peer of `nNonce`. -/
def schedulePeer (Ignored : ι → Bool) (acc : CDataScheduler ι × List (Nat × ι)) (nNonce : Nat) :
    CDataScheduler ι × List (Nat × ι) :=
  match acc.1.mapPeer.find nNonce with
  | none => acc
  | some spPeer =>
    if !spPeer.fAssigned then
      let r := scheduleScan Ignored nNonce spPeer.listDataIdent acc.1.mapData
      match r.1 with
      | some ident =>
        ({ acc.1 with mapData := r.2, mapPeer := acc.1.mapPeer.insert nNonce { spPeer with fAssigned := true } },
          acc.2 ++ [(nNonce, ident)])
      | none => ({ acc.1 with mapData := r.2 }, acc.2)
    else acc

/-- `Schedule(vAssigned, filter)`: the peers in nonce order, each given at
most one datum; the pairs given, in order. -/
def schedule (s : CDataScheduler ι) (Ignored : ι → Bool) : CDataScheduler ι × List (Nat × ι) :=
  s.mapPeer.keys.foldl (schedulePeer Ignored) (s, [])

def getAssignedPeer (s : CDataScheduler ι) (ident : ι) : Nat := ((s.mapData.find ident).map (·.nAssigned)).getD 0

/-- `UnassignPeer(ident)`: the datum is asked of no one, and its peer is free. -/
def unassignPeer (s : CDataScheduler ι) (ident : ι) : Option (CDataScheduler ι) :=
  let r := (s.dataAt ident).unassign
  let s := { s with mapData := s.mapData.insert ident r.2 }
  if r.1 ≠ 0 then s.releasePeer r.1 else some s

end CDataScheduler

/-- The calls `CDelegatedChannel` makes on its scheduler. -/
inductive DataSchedOp (ι : Type)
  | activatePeer (spPeer : CDataPeer ι)
  | deactivatePeer (nNonce : Nat)
  | addKnownData (nNonce : Nat) (ident : ι)
  | removeKnownData (ident : ι)
  | schedule (Ignored : ι → Bool)
  | unassignPeer (ident : ι)
  | clear

namespace DataSchedOp

variable {ι : Type} [LinearOrder ι]

/-- The calls as `CDelegatedChannel` makes them: a peer is activated new, under
a nonce of the peer net (never 0), with nothing announced and nothing asked. -/
def Admissible : DataSchedOp ι → Prop
  | .activatePeer spPeer => spPeer.nNonce ≠ 0 ∧ spPeer.listDataIdent = [] ∧ spPeer.fAssigned = false
  | _ => True

instance : DecidablePred (Admissible (ι := ι))
  | .activatePeer _ => inferInstanceAs (Decidable (_ ∧ _ ∧ _))
  | .deactivatePeer _ | .addKnownData _ _ | .removeKnownData _ | .schedule _ | .unassignPeer _ | .clear =>
    inferInstanceAs (Decidable True)

end DataSchedOp

namespace CDataScheduler

variable {ι : Type} [LinearOrder ι]

def step (s : CDataScheduler ι) : DataSchedOp ι → Option (CDataScheduler ι)
  | .activatePeer spPeer => some (s.activatePeer spPeer)
  | .deactivatePeer nNonce => some (s.deactivatePeer nNonce)
  | .addKnownData nNonce ident => some (s.addKnownData nNonce ident)
  | .removeKnownData ident => s.removeKnownData ident
  | .schedule Ignored => some (s.schedule Ignored).1
  | .unassignPeer ident => s.unassignPeer ident
  | .clear => some .empty

/-- The calls in turn from the empty scheduler; `none` when one of them
dereferences a null peer. -/
def run (ops : List (DataSchedOp ι)) : Option (CDataScheduler ι) := ops.foldlM step .empty

end CDataScheduler

/-! ## The invariant -/

namespace CDataScheduler

variable {ι : Type} [LinearOrder ι] {s : CDataScheduler ι}

/-- Peer `n` is active and announced `ident`. -/
def Announced (s : CDataScheduler ι) (n : Nat) (ident : ι) : Prop :=
  ∃ spPeer, s.mapPeer.find n = some spPeer ∧ ident ∈ spPeer.listDataIdent

/-- The peer records and the data records agree. -/
structure Inv (s : CDataScheduler ι) : Prop where
  /-- No active peer has the nonce 0, which stands for no one. -/
  nonzero : s.mapPeer.find 0 = none
  /-- The known peers of a datum are the active peers that announced it. -/
  known : ∀ ident n, ((s.dataAt ident).setKnownPeer.find n).isSome ↔ s.Announced n ident
  /-- A datum is asked of an active peer that announced it and is marked as asked. -/
  assigned : ∀ ident, (s.dataAt ident).nAssigned ≠ 0 → ∃ spPeer,
    s.mapPeer.find (s.dataAt ident).nAssigned = some spPeer ∧ spPeer.fAssigned = true ∧ ident ∈ spPeer.listDataIdent
  /-- A peer is asked for one datum at most. -/
  single : ∀ ident ident', (s.dataAt ident).nAssigned ≠ 0 →
    (s.dataAt ident').nAssigned = (s.dataAt ident).nAssigned → ident' = ident
  /-- A peer marked as asked is asked for a datum. -/
  flagged : ∀ n spPeer, s.mapPeer.find n = some spPeer → spPeer.fAssigned = true →
    ∃ ident, (s.dataAt ident).nAssigned = n

theorem dataAt_eq (s : CDataScheduler ι) (ident : ι) : s.dataAt ident = (s.mapData.find ident).getD .empty := rfl

theorem dataAt_insert (s : CDataScheduler ι) (ident i : ι) (k : CDataKnown) :
    ({ s with mapData := s.mapData.insert ident k } : CDataScheduler ι).dataAt i = if i = ident then k else s.dataAt i := by
  rw [dataAt_eq, dataAt_eq, SortedMap.find_insert]
  split_ifs <;> rfl

theorem inv_empty : (empty : CDataScheduler ι).Inv where
  nonzero := rfl
  known ident n := by simp [dataAt, empty, Announced, CDataKnown.empty]
  assigned ident h := absurd rfl h
  single ident _ h := absurd rfl h
  flagged n spPeer h := by simp [empty] at h

theorem Inv.congr {s' : CDataScheduler ι} (hs : s.Inv) (hp : ∀ n, s'.mapPeer.find n = s.mapPeer.find n)
    (hd : ∀ ident, s'.dataAt ident = s.dataAt ident) : s'.Inv := by
  have ha : ∀ n ident, s'.Announced n ident ↔ s.Announced n ident := fun n ident => by
    simp only [Announced, hp]
  refine ⟨?_, fun ident n => ?_, fun ident h => ?_, fun ident ident' h h' => ?_, fun n spPeer h hf => ?_⟩
  · rw [hp]
    exact hs.nonzero
  · rw [hd, ha]
    exact hs.known ident n
  · rw [hd] at h ⊢
    rw [hp]
    exact hs.assigned ident h
  · rw [hd] at h h'
    rw [hd] at h'
    exact hs.single ident ident' h h'
  · rw [hp] at h
    obtain ⟨ident, hi⟩ := hs.flagged n spPeer h hf
    exact ⟨ident, by rw [hd]; exact hi⟩

theorem Inv.ne_zero (hs : s.Inv) {n : Nat} {spPeer : CDataPeer ι} (h : s.mapPeer.find n = some spPeer) : n ≠ 0 := by
  rintro rfl
  rw [hs.nonzero] at h
  cases h

theorem Inv.nAssigned_ne (hs : s.Inv) {n : Nat} {spPeer : CDataPeer ι} (h : s.mapPeer.find n = some spPeer)
    (hf : spPeer.fAssigned = false) (ident : ι) : (s.dataAt ident).nAssigned ≠ n := by
  intro hn
  obtain ⟨spPeer', h', hf', -⟩ := hs.assigned ident (hn ▸ hs.ne_zero h)
  rw [hn, h] at h'
  cases h'
  rw [hf] at hf'
  cases hf'

/-! ## `ActivatePeer` and `DeactivatePeer` -/

theorem Inv.activatePeer (hs : s.Inv) {spPeer : CDataPeer ι} (h0 : spPeer.nNonce ≠ 0)
    (hl : spPeer.listDataIdent = []) (hf : spPeer.fAssigned = false) : (s.activatePeer spPeer).Inv := by
  have hfind : ∀ n, (s.activatePeer spPeer).mapPeer.find n =
      if n = spPeer.nNonce ∧ s.mapPeer.find n = none then some spPeer else s.mapPeer.find n := by
    intro n
    simp only [CDataScheduler.activatePeer, SortedMap.find_insertNew]
    by_cases hn : n = spPeer.nNonce
    · subst hn
      cases s.mapPeer.find spPeer.nNonce <;> simp
    · simp [hn]
  have ha : ∀ n ident, (s.activatePeer spPeer).Announced n ident ↔ s.Announced n ident := by
    intro n ident
    simp only [Announced, hfind]
    split_ifs with hn
    · simp [hl, hn.2]
    · rfl
  have hd : ∀ ident, (s.activatePeer spPeer).dataAt ident = s.dataAt ident := fun _ => rfl
  refine ⟨?_, fun ident n => ?_, fun ident h => ?_, hs.single, fun n spPeer' h hf' => ?_⟩
  · rw [hfind, if_neg (fun h => h0 h.1.symm)]
    exact hs.nonzero
  · rw [ha]
    exact hs.known ident n
  · rw [hd] at h ⊢
    obtain ⟨spPeer', h', hrest⟩ := hs.assigned ident h
    refine ⟨spPeer', ?_, hrest⟩
    rw [hfind, if_neg (fun hn => by rw [hn.2] at h'; cases h')]
    exact h'
  · rw [hfind] at h
    split_ifs at h with hn
    · cases h
      rw [hf] at hf'
      cases hf'
    · exact hs.flagged n spPeer' h hf'

theorem dataAt_deactivatePeer (s : CDataScheduler ι) {q : Nat} {spPeer : CDataPeer ι}
    (hq : s.mapPeer.find q = some spPeer) (ident : ι) :
    (s.deactivatePeer q).dataAt ident =
      if ident ∈ spPeer.listDataIdent then (s.dataAt ident).removePeer q else s.dataAt ident := by
  unfold deactivatePeer
  rw [hq]
  refine Fold.foldl_pointwise (fun (t : CDataScheduler ι) i => t.dataAt i) (fun _ k => k.removePeer q)
    (fun _ k => ?_) (fun t x y => dataAt_insert t x y _) _ _ ident
  unfold CDataKnown.removePeer
  split_ifs <;> simp_all

theorem find_deactivatePeer (s : CDataScheduler ι) (q n : Nat) :
    (s.deactivatePeer q).mapPeer.find n = if n = q then none else s.mapPeer.find n := by
  unfold deactivatePeer
  split
  · rename_i hq
    split_ifs with hn
    · rw [hn, hq]
    · rfl
  · rw [SortedMap.find_erase]
    split_ifs
    · rfl
    · refine Fold.foldl_invariant (P := fun t : CDataScheduler ι => t.mapPeer.find n = s.mapPeer.find n)
        (fun _ _ _ h => ?_) rfl
      exact h

theorem Inv.deactivatePeer (hs : s.Inv) (q : Nat) : (s.deactivatePeer q).Inv := by
  cases hq : s.mapPeer.find q with
  | none => exact hs.congr (fun n => by simp [CDataScheduler.deactivatePeer, hq]) (fun _ => by
      simp [CDataScheduler.deactivatePeer, hq])
  | some spPeer =>
    have hd := dataAt_deactivatePeer s hq
    have hfind := find_deactivatePeer s q
    have hkeep : ∀ ident, ((s.deactivatePeer q).dataAt ident).nAssigned ≠ 0 →
        ((s.deactivatePeer q).dataAt ident).nAssigned = (s.dataAt ident).nAssigned ∧ (s.dataAt ident).nAssigned ≠ q := by
      intro ident h
      rw [hd] at h ⊢
      split_ifs at h ⊢ with hi
      · unfold CDataKnown.removePeer at h ⊢
        split_ifs at h ⊢ with hn
        · exact absurd rfl h
        · exact ⟨rfl, hn⟩
      · refine ⟨rfl, fun hn => ?_⟩
        obtain ⟨spPeer', h', -, hi'⟩ := hs.assigned ident h
        rw [hn, hq] at h'
        cases h'
        exact hi hi'
    have ha : ∀ n ident, (s.deactivatePeer q).Announced n ident ↔ n ≠ q ∧ s.Announced n ident := by
      intro n ident
      simp only [Announced, hfind]
      split_ifs with hn <;> simp [hn]
    refine ⟨by rw [hfind, if_neg (hs.ne_zero hq).symm]; exact hs.nonzero, fun ident n => ?_, fun ident h => ?_,
      fun ident ident' h h' => ?_, fun n spPeer' h hf => ?_⟩
    · rw [ha, ← hs.known ident n, hd]
      split_ifs with hi
      · simp only [CDataKnown.removePeer, SortedMap.find_erase]
        split_ifs with hn <;> simp [hn]
      · by_cases hn : n = q
        · subst hn
          simp only [ne_eq, not_true_eq_false, false_and, iff_false]
          rw [hs.known, Announced, hq]
          simpa using hi
        · simp [hn]
    · obtain ⟨hn, hnq⟩ := hkeep ident h
      obtain ⟨spPeer', h', hrest⟩ := hs.assigned ident (hn ▸ h)
      refine ⟨spPeer', ?_, hrest⟩
      rw [hn, hfind, if_neg hnq]
      exact h'
    · obtain ⟨hn, -⟩ := hkeep ident h
      obtain ⟨hn', -⟩ := hkeep ident' (h' ▸ h)
      exact hs.single ident ident' (hn ▸ h) (hn' ▸ hn ▸ h')
    · rw [hfind] at h
      split_ifs at h with hn
      obtain ⟨ident, hi⟩ := hs.flagged n spPeer' h hf
      refine ⟨ident, ?_⟩
      have hne : (s.dataAt ident).nAssigned ≠ 0 := hi ▸ hs.ne_zero h
      rw [hd]
      split_ifs
      · simp only [CDataKnown.removePeer, hi, if_neg hn]
      · exact hi

/-! ## `AddKnownData` -/

theorem Inv.addKnownData (hs : s.Inv) (p : Nat) (ident : ι) : (s.addKnownData p ident).Inv := by
  unfold CDataScheduler.addKnownData
  cases hp : s.mapPeer.find p with
  | none => exact hs
  | some spPeer =>
    dsimp only
    have hp0 := hs.ne_zero hp
    have hd := dataAt_insert s ident
    have hnew : ((s.dataAt ident).setKnownPeer.find p).isNone = true ↔ ident ∉ spPeer.listDataIdent := by
      rw [Option.isNone_iff_eq_none, ← Option.not_isSome_iff_eq_none, hs.known, Announced, hp]
      simp
    set s₁ : CDataScheduler ι := { s with mapData := s.mapData.insert ident ((s.dataAt ident).addPeer p).2 }
    have hd₁ : ∀ i, (s₁.dataAt i).nAssigned = (s.dataAt i).nAssigned := fun i => by
      rw [hd]
      split_ifs with hi
      · rw [hi]; rfl
      · rfl
    have hk₁ : ∀ i n, ((s₁.dataAt i).setKnownPeer.find n).isSome ↔ (i = ident ∧ n = p) ∨ s.Announced n i := by
      intro i n
      rw [hd, ← hs.known]
      split_ifs with hi
      · subst hi
        simp only [CDataKnown.addPeer, SortedMap.find_insert, true_and]
        by_cases hn : n = p <;> simp [hn]
      · simp [hi]
    split_ifs with hadd
    · -- a new peer of the datum: the datum goes to the end of the peer's list
      have hfind : ∀ n, (s₁.mapPeer.insert p { spPeer with listDataIdent := spPeer.listDataIdent ++ [ident] }).find n =
          if n = p then some { spPeer with listDataIdent := spPeer.listDataIdent ++ [ident] } else s.mapPeer.find n :=
        fun n => SortedMap.find_insert _ _ _ _
      have ha : ∀ n i, Announced { s₁ with mapPeer := s₁.mapPeer.insert p { spPeer with
          listDataIdent := spPeer.listDataIdent ++ [ident] } } n i ↔ (i = ident ∧ n = p) ∨ s.Announced n i := by
        intro n i
        simp only [Announced, hfind]
        by_cases hn : n = p
        · subst hn
          simp only [if_true, Option.some.injEq, exists_eq_left', List.mem_append, List.mem_singleton, hp]
          tauto
        · simp [hn]
      refine ⟨?_, fun i n => ?_, fun i h => ?_, fun i i' h h' => ?_, fun n sp h hf => ?_⟩
      · rw [hfind, if_neg (Ne.symm hp0)]
        exact hs.nonzero
      · rw [ha]
        exact hk₁ i n
      · have h₀ : (s.dataAt i).nAssigned ≠ 0 := (hd₁ i) ▸ h
        obtain ⟨sp, hsp, hf, hi⟩ := hs.assigned i h₀
        show ∃ sp', (s₁.mapPeer.insert p _).find (s₁.dataAt i).nAssigned = some sp' ∧ _
        rw [hd₁, hfind]
        split_ifs with hn
        · rw [hn, hp] at hsp
          cases hsp
          exact ⟨_, rfl, hf, List.mem_append_left _ hi⟩
        · exact ⟨sp, hsp, hf, hi⟩
      · exact hs.single i i' ((hd₁ i) ▸ h) ((hd₁ i) ▸ (hd₁ i') ▸ h')
      · rw [hfind] at h
        obtain ⟨ident', hi⟩ : ∃ ident', (s.dataAt ident').nAssigned = n := by
          split_ifs at h with hn
          · cases h
            exact hn ▸ hs.flagged p spPeer hp hf
          · exact hs.flagged n sp h hf
        exact ⟨ident', (hd₁ ident').trans hi⟩
    · -- the peer knew the datum already: only the record of the datum is rewritten
      have hmem : ident ∈ spPeer.listDataIdent := by
        by_contra h
        exact hadd (hnew.mpr h)
      refine ⟨hs.nonzero, fun i n => ?_, fun i h => ?_, fun i i' h h' => ?_, fun n sp h hf => ?_⟩
      · rw [hk₁]
        constructor
        · rintro (⟨rfl, rfl⟩ | h)
          · exact ⟨spPeer, hp, hmem⟩
          · exact h
        · exact .inr
      · rw [hd₁] at h ⊢
        exact hs.assigned i h
      · exact hs.single i i' ((hd₁ i) ▸ h) ((hd₁ i) ▸ (hd₁ i') ▸ h')
      · obtain ⟨ident', hi⟩ := hs.flagged n sp h hf
        exact ⟨ident', (hd₁ ident').trans hi⟩

/-! ## `UnassignPeer` and `RemoveKnownData`

`RemoveKnownData(ident)` does what `UnassignPeer(ident)` does, and then takes
the datum out of the lists of its peers and out of the map. -/

theorem find_releasePeer {n : Nat} {s' : CDataScheduler ι} (h : s.releasePeer n = some s') (m : Nat) :
    s'.mapPeer.find m = if m = n then (s.mapPeer.find n).map fun sp => { sp with fAssigned := false }
      else s.mapPeer.find m := by
  unfold releasePeer at h
  cases hn : s.mapPeer.find n with
  | none => simp [hn] at h
  | some sp =>
    simp only [hn, Option.map_some, Option.some.injEq] at h
    subst h
    rw [SortedMap.find_insert]
    split_ifs <;> rfl

theorem mapData_releasePeer {n : Nat} {s' : CDataScheduler ι} (h : s.releasePeer n = some s') :
    s'.mapData = s.mapData := by
  unfold releasePeer at h
  cases hn : s.mapPeer.find n with
  | none => simp [hn] at h
  | some sp =>
    simp only [hn, Option.map_some, Option.some.injEq] at h
    subst h
    rfl

theorem Inv.unassignPeer_eq (hs : s.Inv) (ident : ι) : ∃ u, s.unassignPeer ident = some u ∧
    (∀ n, u.mapPeer.find n = (s.mapPeer.find n).map fun sp =>
      if n = (s.dataAt ident).nAssigned then { sp with fAssigned := false } else sp) ∧
    ∀ i, u.dataAt i = if i = ident then { s.dataAt ident with nAssigned := 0 } else s.dataAt i := by
  unfold CDataScheduler.unassignPeer
  dsimp only [CDataKnown.unassign]
  have hd := dataAt_insert s ident
  split_ifs with h0
  · obtain ⟨sp, hsp, -, -⟩ := hs.assigned ident h0
    obtain ⟨u, hu⟩ : ∃ u, ({ s with mapData := s.mapData.insert ident { s.dataAt ident with nAssigned := 0 } } :
        CDataScheduler ι).releasePeer (s.dataAt ident).nAssigned = some u := by
      simp [releasePeer, hsp]
    refine ⟨u, hu, fun n => ?_, fun i => ?_⟩
    · rw [find_releasePeer hu]
      split_ifs with hn
      · subst hn
        simp [hsp]
      · cases s.mapPeer.find n <;> simp
    · show (u.mapData.find i).getD .empty = _
      rw [mapData_releasePeer hu]
      exact hd i _
  · refine ⟨_, rfl, fun n => ?_, fun i => hd i _⟩
    show s.mapPeer.find n = _
    cases hn : s.mapPeer.find n with
    | none => rfl
    | some sp =>
      -- no active peer is the nonce 0
      have : n ≠ (s.dataAt ident).nAssigned := by
        rw [not_not.mp h0]
        exact hs.ne_zero hn
      simp [this]

theorem Inv.unassignPeer (hs : s.Inv) (ident : ι) : ∃ u, s.unassignPeer ident = some u ∧ u.Inv := by
  obtain ⟨u, hu, hp, hd⟩ := hs.unassignPeer_eq ident
  refine ⟨u, hu, ?_⟩
  have hnA : ∀ i, (u.dataAt i).nAssigned = if i = ident then 0 else (s.dataAt i).nAssigned := fun i => by
    rw [hd]
    split_ifs <;> rfl
  have hother : ∀ i, (u.dataAt i).nAssigned ≠ 0 → i ≠ ident ∧ (s.dataAt i).nAssigned ≠ (s.dataAt ident).nAssigned := by
    intro i h
    rw [hnA] at h
    split_ifs at h with hi
    · exact absurd rfl h
    · exact ⟨hi, fun hN => hi (hs.single ident i (hN ▸ h) hN)⟩
  have ha : ∀ n i, u.Announced n i ↔ s.Announced n i := by
    intro n i
    simp only [Announced, hp]
    cases s.mapPeer.find n <;> simp only [Option.map_none, Option.map_some, reduceCtorEq, false_and, exists_false,
      Option.some.injEq, exists_eq_left']
    split_ifs <;> rfl
  refine ⟨by rw [hp, hs.nonzero]; rfl, fun i n => ?_, fun i h => ?_, fun i i' h h' => ?_, fun n sp h hf => ?_⟩
  · rw [ha, hd]
    split_ifs with hi
    · subst hi
      exact hs.known i n
    · exact hs.known i n
  · obtain ⟨hi, hN⟩ := hother i h
    obtain ⟨sp, hsp, hf, hmem⟩ := hs.assigned i (by rw [hnA, if_neg hi] at h; exact h)
    refine ⟨sp, ?_, hf, hmem⟩
    rw [hnA, if_neg hi, hp, hsp]
    simp [hN]
  · obtain ⟨hi, -⟩ := hother i h
    obtain ⟨hi', -⟩ := hother i' (h' ▸ h)
    rw [hnA, if_neg hi] at h
    rw [hnA, hnA, if_neg hi, if_neg hi'] at h'
    exact hs.single i i' h h'
  · rw [hp] at h
    obtain ⟨sp₀, hsp₀, rfl⟩ := Option.map_eq_some_iff.mp h
    split_ifs at hf with hn
    obtain ⟨i, hi⟩ := hs.flagged n sp₀ hsp₀ hf
    have hne : i ≠ ident := by
      rintro rfl
      exact hn hi.symm
    exact ⟨i, by rw [hnA, if_neg hne, hi]⟩

theorem Inv.dropData (hs : s.Inv) {ident : ι} (h0 : (s.dataAt ident).nAssigned = 0) {s' : CDataScheduler ι}
    (hp : ∀ n, s'.mapPeer.find n = (s.mapPeer.find n).map fun sp =>
      { sp with listDataIdent := sp.listDataIdent.filter (· ≠ ident) })
    (hd : ∀ i, s'.dataAt i = if i = ident then .empty else s.dataAt i) : s'.Inv := by
  have ha : ∀ n i, s'.Announced n i ↔ i ≠ ident ∧ s.Announced n i := by
    intro n i
    simp only [Announced, hp]
    cases s.mapPeer.find n <;> simp [and_comm]
  have hnA : ∀ i, (s'.dataAt i).nAssigned ≠ 0 → i ≠ ident ∧ (s'.dataAt i).nAssigned = (s.dataAt i).nAssigned := by
    intro i h
    rw [hd] at h ⊢
    split_ifs at h ⊢ with hi
    · exact absurd rfl h
    · exact ⟨hi, rfl⟩
  refine ⟨by rw [hp, hs.nonzero]; rfl, fun i n => ?_, fun i h => ?_, fun i i' h h' => ?_, fun n sp h hf => ?_⟩
  · rw [ha, hd]
    split_ifs with hi
    · simp [hi, CDataKnown.empty]
    · simp [hi, hs.known i n]
  · obtain ⟨hi, hn⟩ := hnA i h
    obtain ⟨sp, hsp, hf, hmem⟩ := hs.assigned i (hn ▸ h)
    refine ⟨{ sp with listDataIdent := sp.listDataIdent.filter (· ≠ ident) }, by rw [hn, hp, hsp]; rfl, hf, ?_⟩
    exact List.mem_filter.mpr ⟨hmem, by simpa using hi⟩
  · obtain ⟨hi, hn⟩ := hnA i h
    obtain ⟨-, hn'⟩ := hnA i' (h' ▸ h)
    exact hs.single i i' (hn ▸ h) (hn' ▸ hn ▸ h')
  · rw [hp] at h
    obtain ⟨sp₀, hsp₀, rfl⟩ := Option.map_eq_some_iff.mp h
    obtain ⟨i, hi⟩ := hs.flagged n sp₀ hsp₀ hf
    have hne : i ≠ ident := by
      rintro rfl
      exact hs.ne_zero hsp₀ (hi.symm.trans h0)
    exact ⟨i, by rw [hd, if_neg hne, hi]⟩

theorem find_forgetData (ident : ι) (t : CDataScheduler ι) (x y : Nat) :
    ((forgetData ident t x).getD t).mapPeer.find y = if y = x then (t.mapPeer.find x).map fun sp =>
      { sp with listDataIdent := sp.listDataIdent.filter (· ≠ ident) } else t.mapPeer.find y := by
  unfold forgetData
  cases hx : t.mapPeer.find x with
  | none =>
    split_ifs with hy
    · rw [Option.map_none, Option.getD_none, hy, hx]
      rfl
    · rfl
  | some sp =>
    rw [Option.map_some, Option.getD_some, SortedMap.find_insert]
    split_ifs <;> rfl

theorem mapData_forgetData (ident : ι) (t : CDataScheduler ι) (x : Nat) :
    ((forgetData ident t x).getD t).mapData = t.mapData := by
  unfold forgetData
  cases t.mapPeer.find x <;> rfl

theorem filter_ne_of_not_announced {n : Nat} {ident : ι} {sp : CDataPeer ι} (hsp : s.mapPeer.find n = some sp)
    (hna : ¬ s.Announced n ident) : sp.listDataIdent.filter (· ≠ ident) = sp.listDataIdent := by
  refine List.filter_eq_self.mpr fun i hi => ?_
  have : i ≠ ident := by
    rintro rfl
    exact hna ⟨sp, hsp, hi⟩
  simpa using this

theorem Inv.foldlM_forgetData (hs : s.Inv) (ident : ι) : ∃ s₁,
    (s.dataAt ident).setKnownPeer.keys.foldlM (forgetData ident) s = some s₁ ∧ s₁.mapData = s.mapData ∧
      ∀ n, s₁.mapPeer.find n = (s.mapPeer.find n).map fun sp =>
        { sp with listDataIdent := sp.listDataIdent.filter (· ≠ ident) } := by
  set keys := (s.dataAt ident).setKnownPeer.keys
  have hloop : keys.foldlM (forgetData ident) s = some (keys.foldl (fun t x => (forgetData ident t x).getD t) s) := by
    refine Fold.foldlM_eq_foldl
      (P := fun t : CDataScheduler ι => ∀ n, (t.mapPeer.find n).isSome = (s.mapPeer.find n).isSome)
      (fun t x hx ht => ?_) (fun t x _ ht n => ?_) (fun _ => rfl)
    · obtain ⟨sp, hsp, -⟩ := (hs.known ident x).mp ((SortedMap.mem_keys_iff _ _).mp hx)
      obtain ⟨sp', hsp'⟩ := Option.isSome_iff_exists.mp ((ht x).trans (by rw [hsp]; rfl))
      simp [forgetData, hsp']
    · rw [find_forgetData, ← ht n]
      split_ifs with hn
      · subst hn
        cases t.mapPeer.find n <;> rfl
      · rfl
  refine ⟨_, hloop, Fold.foldl_proj (fun t => t.mapData) (mapData_forgetData ident) keys s, fun n => ?_⟩
  rw [Fold.foldl_pointwise (fun (t : CDataScheduler ι) n => t.mapPeer.find n)
    (fun _ o => o.map fun sp => { sp with listDataIdent := sp.listDataIdent.filter (· ≠ ident) })
    (fun _ o => by cases o <;> simp [List.filter_filter]) (find_forgetData ident) keys s n]
  split_ifs with hn
  · rfl
  · -- a peer the datum does not know did not announce it
    cases hsp : s.mapPeer.find n with
    | none => rfl
    | some sp =>
      have hna : ¬ s.Announced n ident := by
        rw [← hs.known, ← SortedMap.mem_keys_iff]
        exact hn
      simp only [Option.map_some, filter_ne_of_not_announced hsp hna]

/-- `RemoveKnownData(ident)` is `UnassignPeer(ident)` followed by taking the
datum out of every list and out of the map. -/
theorem Inv.removeKnownData_eq (hs : s.Inv) (ident : ι) {u : CDataScheduler ι} (hu : s.unassignPeer ident = some u) :
    ∃ s', s.removeKnownData ident = some s' ∧
      (∀ n, s'.mapPeer.find n = (u.mapPeer.find n).map fun sp =>
        { sp with listDataIdent := sp.listDataIdent.filter (· ≠ ident) }) ∧
      ∀ i, s'.dataAt i = if i = ident then .empty else u.dataAt i := by
  obtain ⟨u', hu', hpu, hdu⟩ := hs.unassignPeer_eq ident
  rw [hu, Option.some.injEq] at hu'
  subst hu'
  unfold CDataScheduler.removeKnownData
  cases hk : s.mapData.find ident with
  | none =>
    -- a datum with no record: no peer announced it, and it is asked of no one
    have hkd : s.dataAt ident = .empty := by rw [dataAt_eq, hk]; rfl
    refine ⟨s, rfl, fun n => ?_, fun i => ?_⟩
    · rw [hpu]
      cases hsp : s.mapPeer.find n with
      | none => rfl
      | some sp =>
        have hna : ¬ s.Announced n ident := by
          rw [← hs.known, hkd]
          simp [CDataKnown.empty]
        have hn : n ≠ (s.dataAt ident).nAssigned := by
          rw [hkd]
          exact hs.ne_zero hsp
        simp only [Option.map_some, if_neg hn, filter_ne_of_not_announced hsp hna]
    · rw [hdu]
      split_ifs with hi
      · rw [hi, hkd]
      · rfl
  | some known =>
    have hkd : s.dataAt ident = known := by rw [dataAt_eq, hk]; rfl
    subst hkd
    obtain ⟨s₁, h₁, hd₁, hp₁⟩ := hs.foldlM_forgetData ident
    simp only [h₁, Option.bind_eq_bind, Option.bind_some]
    have herase : ∀ t : CDataScheduler ι, t.mapData = s.mapData → ∀ i,
        ({ t with mapData := t.mapData.erase ident } : CDataScheduler ι).dataAt i =
          if i = ident then .empty else u.dataAt i := by
      intro t ht i
      rw [hdu, dataAt_eq, SortedMap.find_erase, ht]
      split_ifs <;> rfl
    split_ifs with h0
    · obtain ⟨sp, hsp, -, -⟩ := hs.assigned ident h0
      obtain ⟨s₂, h₂⟩ : ∃ s₂, s₁.releasePeer (s.dataAt ident).nAssigned = some s₂ := by
        simp [releasePeer, hp₁, hsp]
      rw [h₂, Option.bind_some]
      refine ⟨_, rfl, fun n => ?_, herase s₂ ((mapData_releasePeer h₂).trans hd₁)⟩
      show s₂.mapPeer.find n = _
      rw [find_releasePeer h₂, hpu, hp₁, hp₁]
      split_ifs with hn
      · subst hn
        cases s.mapPeer.find (s.dataAt ident).nAssigned <;> rfl
      · cases s.mapPeer.find n <;> simp
    · refine ⟨_, rfl, fun n => ?_, herase s₁ hd₁⟩
      show s₁.mapPeer.find n = _
      rw [hpu, hp₁]
      cases hsp : s.mapPeer.find n with
      | none => rfl
      | some sp =>
        have hn : n ≠ (s.dataAt ident).nAssigned := by
          rw [not_not.mp h0]
          exact hs.ne_zero hsp
        simp [hn]

theorem Inv.removeKnownData (hs : s.Inv) (ident : ι) : ∃ s', s.removeKnownData ident = some s' ∧ s'.Inv := by
  obtain ⟨u, hu, hpu, hdu⟩ := hs.unassignPeer_eq ident
  obtain ⟨u', hu', hui⟩ := hs.unassignPeer ident
  rw [hu, Option.some.injEq] at hu'
  subst hu'
  obtain ⟨s', hs', hp, hd⟩ := hs.removeKnownData_eq ident hu
  refine ⟨s', hs', hui.dropData ?_ hp hd⟩
  rw [hdu, if_pos rfl]

/-! ## `Schedule` -/

section Schedule

variable (Ignored : ι → Bool) (q : Nat) {acc : CDataScheduler ι × List (Nat × ι)}

theorem scheduleScan_cons (ident : ι) (l : List ι) (m : SortedMap ι CDataKnown) :
    scheduleScan Ignored q (ident :: l) m =
      if Ignored ident then scheduleScan Ignored q l m
      else if ((m.find ident).getD .empty).nAssigned = 0 ∨ ((m.find ident).getD .empty).nAssigned = q then
        (some ident, m.insert ident { (m.find ident).getD .empty with nAssigned := q })
      else scheduleScan Ignored q l (m.insert ident ((m.find ident).getD .empty)) := by
  rw [scheduleScan, CDataKnown.assign_eq]
  split_ifs <;> rfl

theorem getD_insert_getD (m : SortedMap ι CDataKnown) (ident i : ι) :
    ((m.insert ident ((m.find ident).getD .empty)).find i).getD .empty = (m.find i).getD .empty := by
  rw [SortedMap.find_insert]
  split_ifs with h
  · rw [h]
    rfl
  · rfl

theorem getD_scheduleScan (l : List ι) (m : SortedMap ι CDataKnown) (i : ι) :
    ((scheduleScan Ignored q l m).2.find i).getD .empty =
      if (scheduleScan Ignored q l m).1 = some i then { (m.find i).getD .empty with nAssigned := q }
      else (m.find i).getD .empty := by
  induction l generalizing m with
  | nil => rfl
  | cons ident l ih =>
    rw [scheduleScan_cons]
    by_cases hI : Ignored ident
    · rw [if_pos hI]
      exact ih m
    rw [if_neg hI]
    by_cases ha : ((m.find ident).getD .empty).nAssigned = 0 ∨ ((m.find ident).getD .empty).nAssigned = q
    · -- the scan stops at `ident`
      rw [if_pos ha]
      simp only [SortedMap.find_insert, Option.some.injEq]
      by_cases hi : i = ident
      · subst hi
        simp
      · rw [if_neg hi, if_neg (Ne.symm hi)]
    · rw [if_neg ha, ih, getD_insert_getD]

/-- For a peer that no datum is asked of, the scan chooses the first datum of
its list that the filter does not ignore and no one is asked for. -/
theorem scheduleScan_fst {l : List ι} {m : SortedMap ι CDataKnown}
    (hq : ∀ i ∈ l, ((m.find i).getD .empty).nAssigned ≠ q) :
    (scheduleScan Ignored q l m).1 = l.find? fun i => !Ignored i && ((m.find i).getD .empty).nAssigned == 0 := by
  induction l generalizing m with
  | nil => rfl
  | cons ident l ih =>
    rw [scheduleScan_cons, List.find?_cons]
    have hqi := hq ident List.mem_cons_self
    by_cases hI : Ignored ident
    · simp only [hI, if_true, Bool.not_true, Bool.false_and]
      exact ih fun i hi => hq i (List.mem_cons_of_mem ident hi)
    · by_cases h0 : ((m.find ident).getD .empty).nAssigned = 0
      · simp [hI, h0]
      · have hm : ∀ i ∈ l, (((m.insert ident ((m.find ident).getD .empty)).find i).getD .empty).nAssigned ≠ q := by
          intro i hi
          rw [getD_insert_getD]
          exact hq i (List.mem_cons_of_mem ident hi)
        have h0' : (((m.find ident).getD .empty).nAssigned == 0) = false := by simpa using h0
        simp only [hI, h0, hqi, h0', or_self, if_false, Bool.false_eq_true, Bool.not_false, Bool.true_and]
        rw [ih hm]
        simp only [getD_insert_getD]

theorem Inv.scheduleScan_some (hs : s.Inv) {sp : CDataPeer ι} (hq : s.mapPeer.find q = some sp)
    (hf : sp.fAssigned = false) {x : ι} (hx : (scheduleScan Ignored q sp.listDataIdent s.mapData).1 = some x) :
    x ∈ sp.listDataIdent ∧ Ignored x = false ∧ (s.dataAt x).nAssigned = 0 := by
  rw [scheduleScan_fst Ignored q fun i _ => hs.nAssigned_ne hq hf i] at hx
  have hp := List.find?_some hx
  simp only [Bool.and_eq_true, Bool.not_eq_eq_eq_not, Bool.not_true, beq_iff_eq] at hp
  exact ⟨List.mem_of_find?_eq_some hx, hp.1, hp.2⟩

theorem Inv.scheduleScan_none (hs : s.Inv) {sp : CDataPeer ι} (hq : s.mapPeer.find q = some sp)
    (hf : sp.fAssigned = false) (hx : (scheduleScan Ignored q sp.listDataIdent s.mapData).1 = none) :
    ∀ i ∈ sp.listDataIdent, Ignored i = true ∨ (s.dataAt i).nAssigned ≠ 0 := by
  rw [scheduleScan_fst Ignored q fun i _ => hs.nAssigned_ne hq hf i, List.find?_eq_none] at hx
  intro i hi
  have hp := hx i hi
  simp only [Bool.and_eq_true, Bool.not_eq_eq_eq_not, Bool.not_true, beq_iff_eq, not_and] at hp
  by_cases hI : Ignored i
  · exact .inl hI
  · exact .inr (hp (by simpa using hI))

theorem schedulePeer_of_not_free {acc : CDataScheduler ι × List (Nat × ι)}
    (h : ∀ sp, acc.1.mapPeer.find q = some sp → sp.fAssigned = true) : schedulePeer Ignored acc q = acc := by
  unfold schedulePeer
  cases hq : acc.1.mapPeer.find q with
  | none => rfl
  | some sp => simp [h sp hq]

theorem schedulePeer_cases (acc : CDataScheduler ι × List (Nat × ι)) :
    ((∀ sp, acc.1.mapPeer.find q = some sp → sp.fAssigned = true) ∧ schedulePeer Ignored acc q = acc) ∨
      ∃ sp, acc.1.mapPeer.find q = some sp ∧ sp.fAssigned = false := by
  by_cases hfree : ∃ sp, acc.1.mapPeer.find q = some sp ∧ sp.fAssigned = false
  · exact .inr hfree
  · have hbusy : ∀ sp, acc.1.mapPeer.find q = some sp → sp.fAssigned = true := by
      intro sp hq
      cases hf : sp.fAssigned
      · exact absurd ⟨sp, hq, hf⟩ hfree
      · rfl
    exact .inl ⟨hbusy, schedulePeer_of_not_free Ignored q hbusy⟩

theorem schedulePeer_some {acc : CDataScheduler ι × List (Nat × ι)} {sp : CDataPeer ι}
    (hq : acc.1.mapPeer.find q = some sp) (hf : sp.fAssigned = false) {x : ι}
    (hx : (scheduleScan Ignored q sp.listDataIdent acc.1.mapData).1 = some x) :
    (∀ n, (schedulePeer Ignored acc q).1.mapPeer.find n =
      if n = q then some { sp with fAssigned := true } else acc.1.mapPeer.find n) ∧
    (∀ i, (schedulePeer Ignored acc q).1.dataAt i =
      if i = x then { acc.1.dataAt i with nAssigned := q } else acc.1.dataAt i) ∧
    (schedulePeer Ignored acc q).2 = acc.2 ++ [(q, x)] := by
  have heq : schedulePeer Ignored acc q =
      (({ acc.1 with
          mapData := (scheduleScan Ignored q sp.listDataIdent acc.1.mapData).2
          mapPeer := acc.1.mapPeer.insert q { sp with fAssigned := true } } : CDataScheduler ι),
        acc.2 ++ [(q, x)]) := by
    simp [schedulePeer, hq, hf, hx]
  rw [heq]
  refine ⟨fun n => SortedMap.find_insert _ _ _ _, fun i => ?_, rfl⟩
  rw [dataAt_eq, getD_scheduleScan]
  simp only [hx, Option.some.injEq]
  by_cases hi : i = x
  · rw [if_pos hi.symm, if_pos hi]
    rfl
  · rw [if_neg (Ne.symm hi), if_neg hi]
    rfl

theorem schedulePeer_none {acc : CDataScheduler ι × List (Nat × ι)} {sp : CDataPeer ι}
    (hq : acc.1.mapPeer.find q = some sp) (hf : sp.fAssigned = false)
    (hx : (scheduleScan Ignored q sp.listDataIdent acc.1.mapData).1 = none) :
    (∀ n, (schedulePeer Ignored acc q).1.mapPeer.find n = acc.1.mapPeer.find n) ∧
    (∀ i, (schedulePeer Ignored acc q).1.dataAt i = acc.1.dataAt i) ∧
    (schedulePeer Ignored acc q).2 = acc.2 := by
  have heq : schedulePeer Ignored acc q =
      (({ acc.1 with mapData := (scheduleScan Ignored q sp.listDataIdent acc.1.mapData).2 } : CDataScheduler ι),
        acc.2) := by
    simp [schedulePeer, hq, hf, hx]
  rw [heq]
  refine ⟨fun n => rfl, fun i => ?_, rfl⟩
  rw [dataAt_eq, getD_scheduleScan]
  simp only [hx, reduceCtorEq, if_false]
  rfl

theorem Inv.assignTo (hs : s.Inv) {sp : CDataPeer ι} (hq : s.mapPeer.find q = some sp) (hf : sp.fAssigned = false)
    {x : ι} (hx : x ∈ sp.listDataIdent) (h0 : (s.dataAt x).nAssigned = 0) {s' : CDataScheduler ι}
    (hp : ∀ n, s'.mapPeer.find n = if n = q then some { sp with fAssigned := true } else s.mapPeer.find n)
    (hd : ∀ i, s'.dataAt i = if i = x then { s.dataAt i with nAssigned := q } else s.dataAt i) : s'.Inv := by
  have hq0 := hs.ne_zero hq
  have hnA : ∀ i, (s'.dataAt i).nAssigned = if i = x then q else (s.dataAt i).nAssigned := fun i => by
    rw [hd]
    split_ifs <;> rfl
  have hother : ∀ i, i ≠ x → (s.dataAt i).nAssigned ≠ 0 → (s.dataAt i).nAssigned ≠ q :=
    fun i _ _ => hs.nAssigned_ne hq hf i
  have ha : ∀ n i, s'.Announced n i ↔ s.Announced n i := by
    intro n i
    simp only [Announced, hp]
    split_ifs with hn
    · subst hn
      simp [hq]
    · rfl
  refine ⟨by rw [hp, if_neg (Ne.symm hq0)]; exact hs.nonzero, fun i n => ?_, fun i h => ?_,
    fun i i' h h' => ?_, fun n sp' h hf' => ?_⟩
  · rw [ha, hd, ← hs.known]
    split_ifs <;> rfl
  · rw [hnA] at h ⊢
    split_ifs at h ⊢ with hi
    · subst hi
      exact ⟨{ sp with fAssigned := true }, by rw [hp, if_pos rfl], rfl, hx⟩
    · obtain ⟨sp', hsp', hrest⟩ := hs.assigned i h
      exact ⟨sp', by rw [hp, if_neg (hother i hi h)]; exact hsp', hrest⟩
  · rw [hnA] at h h'
    rw [hnA] at h'
    by_cases hi : i = x <;> by_cases hi' : i' = x
    · rw [hi, hi']
    · rw [if_pos hi, if_neg hi'] at h'
      exact absurd h' (hs.nAssigned_ne hq hf i')
    · rw [if_neg hi, if_pos hi'] at h'
      rw [if_neg hi] at h
      exact absurd h'.symm (hs.nAssigned_ne hq hf i)
    · rw [if_neg hi] at h h'
      rw [if_neg hi'] at h'
      exact hs.single i i' h h'
  · rw [hp] at h
    split_ifs at h with hn
    · exact ⟨x, by rw [hnA, if_pos rfl, hn]⟩
    · obtain ⟨i, hi⟩ := hs.flagged n sp' h hf'
      have hix : i ≠ x := by
        rintro rfl
        exact hs.ne_zero h (hi.symm.trans h0)
      exact ⟨i, by rw [hnA, if_neg hix, hi]⟩

theorem Inv.schedulePeer (hs : acc.1.Inv) : (schedulePeer Ignored acc q).1.Inv := by
  rcases schedulePeer_cases Ignored q acc with ⟨-, heq⟩ | ⟨sp, hq, hf⟩
  · rw [heq]
    exact hs
  · cases hx : (scheduleScan Ignored q sp.listDataIdent acc.1.mapData).1 with
    | none =>
      obtain ⟨hp, hd, -⟩ := schedulePeer_none Ignored q hq hf hx
      exact hs.congr hp hd
    | some x =>
      obtain ⟨hp, hd, -⟩ := schedulePeer_some Ignored q hq hf hx
      obtain ⟨hmem, -, h0⟩ := hs.scheduleScan_some Ignored q hq hf hx
      exact hs.assignTo q hq hf hmem h0 hp hd

theorem Inv.schedule (hs : s.Inv) : (s.schedule Ignored).1.Inv :=
  Fold.foldl_invariant (P := fun acc : CDataScheduler ι × List (Nat × ι) => acc.1.Inv)
    (fun _ q _ h => h.schedulePeer Ignored q) hs

theorem isSome_find_schedulePeer (acc : CDataScheduler ι × List (Nat × ι)) (n : Nat) :
    ((schedulePeer Ignored acc q).1.mapPeer.find n).isSome = (acc.1.mapPeer.find n).isSome := by
  rcases schedulePeer_cases Ignored q acc with ⟨-, heq⟩ | ⟨sp, hq, hf⟩
  · rw [heq]
  · cases hx : (scheduleScan Ignored q sp.listDataIdent acc.1.mapData).1 with
    | none => rw [(schedulePeer_none Ignored q hq hf hx).1]
    | some x =>
      rw [(schedulePeer_some Ignored q hq hf hx).1]
      split_ifs with hn
      · rw [hn, hq]
        rfl
      · rfl

theorem Inv.schedule_idle (hs : s.Inv) {n : Nat} {sp : CDataPeer ι}
    (h : (s.schedule Ignored).1.mapPeer.find n = some sp) (hf : sp.fAssigned = false) :
    ∀ i ∈ sp.listDataIdent, Ignored i = true ∨ ((s.schedule Ignored).1.dataAt i).nAssigned ≠ 0 := by
  have hn : n ∈ s.mapPeer.keys := by
    rw [SortedMap.mem_keys_iff]
    have hsome := Fold.foldl_proj (fun acc : CDataScheduler ι × List (Nat × ι) => (acc.1.mapPeer.find n).isSome)
      (fun acc q => isSome_find_schedulePeer Ignored q acc n) s.mapPeer.keys (s, [])
    rw [← hsome]
    exact Option.isSome_iff_exists.mpr ⟨sp, h⟩
  have hdone := Fold.foldl_establish (P := fun acc : CDataScheduler ι × List (Nat × ι) => acc.1.Inv)
    (M := fun y acc => ∀ sp, acc.1.mapPeer.find y = some sp →
      sp.fAssigned = true ∨ ∀ i ∈ sp.listDataIdent, Ignored i = true ∨ (acc.1.dataAt i).nAssigned ≠ 0)
    (fun acc q h => h.schedulePeer Ignored q) ?keep ?set s.mapPeer.keys hs n hn sp h
  · rw [hf] at hdone
    exact hdone.resolve_left Bool.false_ne_true
  case keep =>
    intro acc q y hacc hM sp' hsp'
    rcases schedulePeer_cases Ignored q acc with ⟨-, heq⟩ | ⟨sp, hq, hf⟩
    · rw [heq] at hsp' ⊢
      exact hM sp' hsp'
    · cases hx : (scheduleScan Ignored q sp.listDataIdent acc.1.mapData).1 with
      | none =>
        obtain ⟨hp, hd, -⟩ := schedulePeer_none Ignored q hq hf hx
        rw [hp] at hsp'
        simp only [hd]
        exact hM sp' hsp'
      | some x =>
        obtain ⟨hp, hd, -⟩ := schedulePeer_some Ignored q hq hf hx
        rw [hp] at hsp'
        split_ifs at hsp' with hy
        · cases hsp'
          exact .inl rfl
        · refine (hM sp' hsp').imp id fun hall i hi => (hall i hi).imp id fun h0 => ?_
          rw [hd]
          split_ifs
          · exact hacc.ne_zero hq
          · exact h0
  case set =>
    intro acc q hacc sp' hsp'
    rcases schedulePeer_cases Ignored q acc with ⟨hbusy, heq⟩ | ⟨sp, hq, hf⟩
    · rw [heq] at hsp' ⊢
      exact .inl (hbusy sp' hsp')
    · cases hx : (scheduleScan Ignored q sp.listDataIdent acc.1.mapData).1 with
      | none =>
        obtain ⟨hp, hd, -⟩ := schedulePeer_none Ignored q hq hf hx
        rw [hp, hq, Option.some.injEq] at hsp'
        subst hsp'
        simp only [hd]
        exact .inr (hacc.scheduleScan_none Ignored q hq hf hx)
      | some x =>
        obtain ⟨hp, -, -⟩ := schedulePeer_some Ignored q hq hf hx
        rw [hp, if_pos rfl, Option.some.injEq] at hsp'
        subst hsp'
        exact .inl rfl

theorem Inv.mem_schedule_snd (hs : s.Inv) (n : Nat) (i : ι) :
    (n, i) ∈ (s.schedule Ignored).2 ↔
      n ≠ 0 ∧ (s.dataAt i).nAssigned = 0 ∧ ((s.schedule Ignored).1.dataAt i).nAssigned = n := by
  refine (Fold.foldl_invariant (P := fun acc : CDataScheduler ι × List (Nat × ι) => acc.1.Inv ∧
      (∀ i, (s.dataAt i).nAssigned ≠ 0 → (acc.1.dataAt i).nAssigned = (s.dataAt i).nAssigned) ∧
      ∀ n i, (n, i) ∈ acc.2 ↔ n ≠ 0 ∧ (s.dataAt i).nAssigned = 0 ∧ (acc.1.dataAt i).nAssigned = n)
    (fun acc q _ h => ?_) ⟨hs, fun _ _ => rfl, fun n i => ?_⟩).2.2 n i
  · obtain ⟨hacc, hmono, hpairs⟩ := h
    refine ⟨hacc.schedulePeer Ignored q, ?_⟩
    rcases schedulePeer_cases Ignored q acc with ⟨-, heq⟩ | ⟨sp, hq, hf⟩
    · rw [heq]
      exact ⟨hmono, hpairs⟩
    · cases hx : (scheduleScan Ignored q sp.listDataIdent acc.1.mapData).1 with
      | none =>
        obtain ⟨-, hd, hout⟩ := schedulePeer_none Ignored q hq hf hx
        simp only [hd, hout]
        exact ⟨hmono, hpairs⟩
      | some x =>
        obtain ⟨-, hd, hout⟩ := schedulePeer_some Ignored q hq hf hx
        obtain ⟨-, -, h0⟩ := hacc.scheduleScan_some Ignored q hq hf hx
        have hx0 : (s.dataAt x).nAssigned = 0 := by
          by_contra hne
          exact hne ((hmono x hne).symm.trans h0)
        have hq0 := hacc.ne_zero hq
        refine ⟨fun i hi => ?_, fun n i => ?_⟩
        · have hix : i ≠ x := by
            rintro rfl
            exact hi hx0
          rw [hd, if_neg hix]
          exact hmono i hi
        · rw [hout, List.mem_append, List.mem_singleton, Prod.mk.injEq, hd]
          by_cases hix : i = x
          · subst hix
            rw [if_pos rfl, hpairs, h0]
            constructor
            · rintro (⟨hn, -, rfl⟩ | ⟨rfl, -⟩)
              · exact absurd rfl hn
              · exact ⟨hq0, hx0, rfl⟩
            · rintro ⟨-, -, rfl⟩
              exact .inr ⟨rfl, rfl⟩
          · rw [if_neg hix, hpairs]
            simp [hix]
  · simp only [List.not_mem_nil, false_iff, not_and]
    rintro hn h0 rfl
    exact hn h0

end Schedule

/-! ## Runs -/

theorem Inv.step (hs : s.Inv) {op : DataSchedOp ι} (hop : op.Admissible) : ∃ s', s.step op = some s' ∧ s'.Inv := by
  cases op with
  | activatePeer spPeer =>
    obtain ⟨h0, hl, hf⟩ := hop
    exact ⟨_, rfl, hs.activatePeer h0 hl hf⟩
  | deactivatePeer q => exact ⟨_, rfl, hs.deactivatePeer q⟩
  | addKnownData p ident => exact ⟨_, rfl, hs.addKnownData p ident⟩
  | removeKnownData ident => exact hs.removeKnownData ident
  | schedule Ignored => exact ⟨_, rfl, hs.schedule Ignored⟩
  | unassignPeer ident => exact hs.unassignPeer ident
  | clear => exact ⟨_, rfl, inv_empty⟩

/-- No run of calls as `CDelegatedChannel` makes them dereferences a missing
peer, and every state it passes through keeps `Inv`. -/
theorem run_inv (ops : List (DataSchedOp ι)) (hops : ∀ op ∈ ops, op.Admissible) :
    ∃ s, run ops = some s ∧ s.Inv :=
  Fold.foldlM_invariant (fun _ op hop h => h.step (hops op hop)) inv_empty

/-- Two peers announce one datum, it is asked of the first, which leaves; the
datum is asked again, of the second, and then dropped. -/
theorem run_inv_of_handover :
    let ops : List (DataSchedOp Nat) := [.activatePeer ⟨256, [], false⟩, .activatePeer ⟨300, [], false⟩,
      .addKnownData 256 7, .addKnownData 300 7, .schedule fun _ => false, .deactivatePeer 256,
      .schedule fun _ => false, .removeKnownData 7]
    (∀ op ∈ ops, op.Admissible) ∧ ∃ s, run ops = some s ∧ s.Inv :=
  ⟨by decide, run_inv _ (by decide)⟩

/-- After `Schedule` on any state a run reaches, no peer is left idle that
could be given a datum: a peer asked for nothing has in its list only data the
filter ignores or that are asked of a peer already. -/
theorem schedule_maximal (ops : List (DataSchedOp ι)) (hops : ∀ op ∈ ops, op.Admissible) :
    ∃ s, run ops = some s ∧ ∀ (Ignored : ι → Bool) n sp, (s.schedule Ignored).1.mapPeer.find n = some sp →
      sp.fAssigned = false → ∀ i ∈ sp.listDataIdent, Ignored i = true ∨ ((s.schedule Ignored).1.dataAt i).nAssigned ≠ 0 := by
  obtain ⟨s, hrun, hs⟩ := Fold.foldlM_invariant (fun _ op hop h => Inv.step h (hops op hop)) inv_empty
  exact ⟨s, hrun, fun Ignored _ _ h hf => hs.schedule_idle Ignored h hf⟩

theorem schedule_maximal_of_two_peers :
    let ops : List (DataSchedOp Nat) := [.activatePeer ⟨256, [], false⟩, .activatePeer ⟨300, [], false⟩,
      .addKnownData 256 7, .addKnownData 300 7, .addKnownData 300 8]
    (∀ op ∈ ops, op.Admissible) ∧ ∃ s, run ops = some s ∧ ∀ (Ignored : Nat → Bool) n sp,
      (s.schedule Ignored).1.mapPeer.find n = some sp → sp.fAssigned = false →
        ∀ i ∈ sp.listDataIdent, Ignored i = true ∨ ((s.schedule Ignored).1.dataAt i).nAssigned ≠ 0 :=
  ⟨by decide, schedule_maximal _ (by decide)⟩

/-- On any state a run reaches, the pairs `Schedule` reports are exactly the
data it asks of a peer: each was asked of no one before, and is asked of the
reported peer after. -/
theorem schedule_reports_assigned (ops : List (DataSchedOp ι)) (hops : ∀ op ∈ ops, op.Admissible) :
    ∃ s, run ops = some s ∧ ∀ (Ignored : ι → Bool) n i, (n, i) ∈ (s.schedule Ignored).2 ↔
      n ≠ 0 ∧ (s.dataAt i).nAssigned = 0 ∧ ((s.schedule Ignored).1.dataAt i).nAssigned = n := by
  obtain ⟨s, hrun, hs⟩ := Fold.foldlM_invariant (fun _ op hop h => Inv.step h (hops op hop)) inv_empty
  exact ⟨s, hrun, fun Ignored n i => hs.mem_schedule_snd Ignored n i⟩

theorem schedule_reports_assigned_of_two_peers :
    let ops : List (DataSchedOp Nat) := [.activatePeer ⟨256, [], false⟩, .activatePeer ⟨300, [], false⟩,
      .addKnownData 256 7, .addKnownData 300 7, .schedule fun i => i = 8, .addKnownData 300 8]
    (∀ op ∈ ops, op.Admissible) ∧ ∃ s, run ops = some s ∧ ∀ (Ignored : Nat → Bool) n i,
      (n, i) ∈ (s.schedule Ignored).2 ↔
        n ≠ 0 ∧ (s.dataAt i).nAssigned = 0 ∧ ((s.schedule Ignored).1.dataAt i).nAssigned = n :=
  ⟨by decide, schedule_reports_assigned _ (by decide)⟩

end CDataScheduler

end Multiverse.Walleve
