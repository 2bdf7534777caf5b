import Multiverse.Net.Schedule
import Multiverse.Lib.Fold

/-! # The schedule keeps its two indexes in step

`CSchedule` records who knows an inv twice, in the inv's `setKnownPeer` and in
the peer's known list, and who is asked for it twice, in the inv's
`nAssigned` and in the peer's `setAssigned`. `Consistent` says the two sides
agree, as far as they can: a request answered by the super node stays in the
asking peer's assigned set, so an assigned inv need not be outstanding. Each
call of `CNetChannel` keeps it (`Consistent.step`), and so does every run from
the empty schedule (`run_consistent`), as long as the invs announced are of
the two types a peer keeps lists for and no scheduled peer has the nonce 0,
which `CPeerNet::AddNewPeer` never hands out.
-/

namespace Multiverse

open Network

namespace Network.CInv

/-- The two types a peer keeps lists for, `invKnown[type - MSG_TX]`. -/
def Scheduled (nType : Nat) : Prop := nType = MSG_TX ∨ nType = MSG_BLOCK

instance : DecidablePred Scheduled := fun _ => inferInstanceAs (Decidable (_ ∨ _))

theorem scheduled_tx : Scheduled MSG_TX := .inl rfl

theorem scheduled_block : Scheduled MSG_BLOCK := .inr rfl

theorem Scheduled.slot_iff {t u : Nat} (ht : Scheduled t) (hu : Scheduled u) :
    (u = MSG_TX ↔ t = MSG_TX) ↔ u = t := by
  rcases ht with rfl | rfl <;> rcases hu with rfl | rfl <;> decide

theorem eq_iff {i inv : CInv} : i = inv ↔ i.nType = inv.nType ∧ i.nHash = inv.nHash := by
  cases i
  cases inv
  simp

end Network.CInv

open CInv

/-! ## What a peer knows and is asked for -/

namespace CInvPeer

/-- The peer knows `inv`: its hash is in the known list of its type. -/
def Knows (peer : CInvPeer) (inv : CInv) : Prop := inv.nHash ∈ peer.getKnownList inv.nType

/-- The peer is asked for `inv`. -/
def Assigned (peer : CInvPeer) (inv : CInv) : Prop := ((peer.getAssigned inv.nType).find inv.nHash).isSome

theorem state_modify (peer : CInvPeer) (t u : Nat) (f : CInvPeerState → CInvPeerState) :
    (peer.modify t f).state u = if (u = MSG_TX ↔ t = MSG_TX) then f (peer.state u) else peer.state u := by
  unfold modify state
  by_cases hu : u = MSG_TX <;> by_cases ht : t = MSG_TX <;> simp [hu, ht]

theorem not_knows_empty (inv : CInv) : ¬ empty.Knows inv := by
  simp [Knows, getKnownList, state, empty]

theorem not_assigned_empty (inv : CInv) : ¬ empty.Assigned inv := by
  simp [Assigned, getAssigned, state, empty]

theorem removeInv_removeInv (peer : CInvPeer) (inv : CInv) : (peer.removeInv inv).removeInv inv = peer.removeInv inv := by
  unfold removeInv modify
  split_ifs <;> simp [List.filter_filter]

theorem mem_getKnownInv (peer : CInvPeer) (i : CInv) : i ∈ peer.getKnownInv ↔ Scheduled i.nType ∧ peer.Knows i := by
  obtain ⟨t, h⟩ := i
  simp only [getKnownInv, List.mem_append, List.mem_map, CInv.mk.injEq, Knows, getKnownList, state, Scheduled]
  constructor
  · rintro (⟨h', hh, rfl, rfl⟩ | ⟨h', hh, rfl, rfl⟩)
    · exact ⟨.inr rfl, by simpa [CInv.MSG_BLOCK, CInv.MSG_TX] using hh⟩
    · exact ⟨.inl rfl, by simpa using hh⟩
  · rintro ⟨rfl | rfl, hh⟩
    · exact .inr ⟨h, by simpa using hh, rfl, rfl⟩
    · exact .inl ⟨h, by simpa [CInv.MSG_BLOCK, CInv.MSG_TX] using hh, rfl, rfl⟩

section Modify

variable {i inv : CInv} (peer : CInvPeer) (hi : Scheduled i.nType) (hinv : Scheduled inv.nType)
include hi hinv

theorem state_modify_of_scheduled (f : CInvPeerState → CInvPeerState) :
    (peer.modify inv.nType f).state i.nType =
      if i.nType = inv.nType then f (peer.state i.nType) else peer.state i.nType := by
  rw [state_modify]
  exact if_congr (hinv.slot_iff hi) rfl rfl

theorem knows_modify (f : CInvPeerState → CInvPeerState) :
    (peer.modify inv.nType f).Knows i ↔
      if i.nType = inv.nType then i.nHash ∈ (f (peer.state i.nType)).listKnown else peer.Knows i := by
  rw [Knows, getKnownList, state_modify_of_scheduled peer hi hinv]
  split_ifs <;> rfl

theorem assigned_modify (f : CInvPeerState → CInvPeerState) :
    (peer.modify inv.nType f).Assigned i ↔
      if i.nType = inv.nType then ((f (peer.state i.nType)).setAssigned.find i.nHash).isSome = true
      else peer.Assigned i := by
  rw [Assigned, getAssigned, state_modify_of_scheduled peer hi hinv]
  split_ifs <;> rfl

theorem knows_addNewInv : (peer.addNewInv inv).Knows i ↔ i = inv ∨ peer.Knows i := by
  rw [addNewInv, knows_modify peer hi hinv, eq_iff]
  by_cases ht : i.nType = inv.nType
  · by_cases hh : i.nHash = inv.nHash <;> simp [ht, hh, Knows, getKnownList]
  · simp [ht]

theorem assigned_addNewInv : (peer.addNewInv inv).Assigned i ↔ peer.Assigned i := by
  rw [addNewInv, assigned_modify peer hi hinv]
  split_ifs with ht
  · rw [Assigned, getAssigned, ht]
  · rfl

theorem knows_removeInv : (peer.removeInv inv).Knows i ↔ i ≠ inv ∧ peer.Knows i := by
  rw [removeInv, knows_modify peer hi hinv, Ne, eq_iff]
  by_cases ht : i.nType = inv.nType
  · by_cases hh : i.nHash = inv.nHash <;> simp [ht, hh, Knows, getKnownList]
  · simp [ht]

theorem assigned_removeInv : (peer.removeInv inv).Assigned i ↔ i ≠ inv ∧ peer.Assigned i := by
  rw [removeInv, assigned_modify peer hi hinv, Ne, eq_iff]
  by_cases ht : i.nType = inv.nType
  · by_cases hh : i.nHash = inv.nHash <;> simp [ht, hh, Assigned, getAssigned]
  · simp [ht]

theorem knows_assign : (peer.assign inv).Knows i ↔ peer.Knows i := by
  rw [assign, knows_modify peer hi hinv]
  split_ifs with ht
  · rw [Knows, getKnownList, ht]
  · rfl

theorem assigned_assign : (peer.assign inv).Assigned i ↔ i = inv ∨ peer.Assigned i := by
  rw [assign, assigned_modify peer hi hinv, eq_iff]
  by_cases ht : i.nType = inv.nType
  · by_cases hh : i.nHash = inv.nHash <;> simp [ht, hh, Assigned, getAssigned]
  · simp [ht]

theorem knows_completed : (peer.completed inv).Knows i ↔ peer.Knows i := by
  rw [completed, knows_modify peer hi hinv]
  split_ifs with ht
  · rw [Knows, getKnownList, ht]
  · rfl

theorem assigned_completed : (peer.completed inv).Assigned i ↔ i ≠ inv ∧ peer.Assigned i := by
  rw [completed, assigned_modify peer hi hinv, Ne, eq_iff]
  by_cases ht : i.nType = inv.nType
  · by_cases hh : i.nHash = inv.nHash <;> simp [ht, hh, Assigned, getAssigned]
  · simp [ht]

end Modify

end CInvPeer

/-! ## A peer leaves an inv -/

namespace CInvState

/-- The state of an inv after peer `q` leaves its known peers, as `RemovePeer`
leaves it: gone with the last peer, and asked of no one when it was asked of
`q`. -/
def leave (q : Nat) (st : CInvState) : CInvState :=
  if (st.setKnownPeer.erase q).isEmpty then .default
  else if st.nAssigned = q then ⟨0, none, st.setKnownPeer.erase q⟩
  else { st with setKnownPeer := st.setKnownPeer.erase q }

/-- The entry of an inv after peer `q` leaves its known peers. -/
def leaveEntry (q : Nat) (o : Option CInvState) : Option CInvState :=
  if ((o.getD .default).setKnownPeer.erase q).isEmpty then none else some ((o.getD .default).leave q)

theorem known_leave (q p : Nat) (st : CInvState) :
    (((st.leave q).setKnownPeer.find p).isSome ↔ p ≠ q ∧ (st.setKnownPeer.find p).isSome) := by
  unfold leave
  split_ifs with he
  · have h := (SortedMap.isEmpty_iff _).mp he p
    rw [SortedMap.find_erase] at h
    split_ifs at h with hp <;> simp [default, hp, h]
  · simp only [SortedMap.find_erase]
    split_ifs with hp <;> simp [hp]
  · simp only [SortedMap.find_erase]
    split_ifs with hp <;> simp [hp]

theorem outstanding_of_leave {q : Nat} {st : CInvState} (h0 : (st.leave q).nAssigned ≠ 0)
    (hr : (st.leave q).isReceived = false) :
    (st.leave q).nAssigned = st.nAssigned ∧ st.nAssigned ≠ q ∧ st.isReceived = false := by
  unfold leave at h0 hr ⊢
  split_ifs at h0 hr ⊢ with he hq
  · exact absurd rfl h0
  · exact absurd rfl h0
  · exact ⟨rfl, hq, hr⟩

theorem nAssigned_leave {q p : Nat} {st : CInvState} (hpq : p ≠ q) (hp : (st.setKnownPeer.find p).isSome)
    (hn : st.nAssigned = p) : (st.leave q).nAssigned = p := by
  have he : (st.setKnownPeer.erase q).isEmpty = false := by
    rw [Bool.eq_false_iff, Ne, SortedMap.isEmpty_iff]
    intro h
    have hnone := h p
    rw [SortedMap.find_erase, if_neg hpq] at hnone
    simp [hnone] at hp
  simp [leave, he, hn, hpq]

theorem getD_leaveEntry (q : Nat) (o : Option CInvState) :
    (leaveEntry q o).getD .default = (o.getD .default).leave q := by
  unfold leaveEntry leave
  split_ifs <;> rfl

theorem isEmpty_of_leaveEntry {q : Nat} {o : Option CInvState} {st : CInvState} (h : leaveEntry q o = some st) :
    st.setKnownPeer.isEmpty = false := by
  unfold leaveEntry at h
  split_ifs at h with he
  cases h
  unfold leave
  split_ifs with hq <;> simpa using he

theorem leaveEntry_leaveEntry (q : Nat) (o : Option CInvState) : leaveEntry q (leaveEntry q o) = leaveEntry q o := by
  unfold leaveEntry
  split_ifs with he he' he'
  · rfl
  · simp [default, SortedMap.erase, SortedMap.isEmpty, SortedMap.empty] at he'
  · simp [leave, he] at he'
    split_ifs at he' <;> simp_all
  · congr 1
    simp only [Option.getD_some]
    unfold leave
    simp only [he, Bool.false_eq_true, if_false]
    split_ifs with hq hq' <;> simp_all

end CInvState

/-! ## The invariant -/

namespace CSchedule

variable {s : CSchedule}

@[simp] theorem peerAt_setPeer (s : CSchedule) (p q : Nat) (peer : CInvPeer) :
    (s.setPeer p peer).peerAt q = if q = p then peer else s.peerAt q := by
  simp only [peerAt, setPeer, SortedMap.find_insert]
  split_ifs <;> rfl

@[simp] theorem stateAt_setPeer (s : CSchedule) (p : Nat) (peer : CInvPeer) (inv : CInv) :
    (s.setPeer p peer).stateAt inv = s.stateAt inv := rfl

@[simp] theorem mapState_setPeer (s : CSchedule) (p : Nat) (peer : CInvPeer) :
    (s.setPeer p peer).mapState = s.mapState := rfl

@[simp] theorem peerAt_setState (s : CSchedule) (inv : CInv) (st : CInvState) (p : Nat) :
    (s.setState inv st).peerAt p = s.peerAt p := rfl

@[simp] theorem find_setState (s : CSchedule) (inv i : CInv) (st : CInvState) :
    (s.setState inv st).mapState.find i = if i = inv then some st else s.mapState.find i := by
  simp [setState]

theorem stateAt_eq (s : CSchedule) (inv : CInv) : s.stateAt inv = (s.mapState.find inv).getD .default := rfl

@[simp] theorem stateAt_setState (s : CSchedule) (inv i : CInv) (st : CInvState) :
    (s.setState inv st).stateAt i = if i = inv then st else s.stateAt i := by
  rw [stateAt_eq, stateAt_eq, find_setState]
  split_ifs <;> rfl

/-- The two records of each inv agree. -/
structure Consistent (s : CSchedule) : Prop where
  /-- A peer is among the known peers of an inv exactly when the inv is in its known list. -/
  known : ∀ inv, Scheduled inv.nType → ∀ p, ((s.stateAt inv).setKnownPeer.find p).isSome ↔ (s.peerAt p).Knows inv
  /-- Every inv of the schedule is of a scheduled type, and some peer knows it. -/
  entry : ∀ inv st, s.mapState.find inv = some st → Scheduled inv.nType ∧ st.setKnownPeer.isEmpty = false
  /-- A peer asked for an inv is not `0`, is the one `nAssigned` names, and knows the inv. -/
  assigned : ∀ p inv, Scheduled inv.nType → (s.peerAt p).Assigned inv →
    p ≠ 0 ∧ (s.stateAt inv).nAssigned = p ∧ (s.peerAt p).Knows inv
  /-- A request not answered yet is in the assigned set of the peer it was made to. -/
  pending : ∀ inv, Scheduled inv.nType → (s.stateAt inv).nAssigned ≠ 0 → (s.stateAt inv).isReceived = false →
    (s.peerAt (s.stateAt inv).nAssigned).Assigned inv

theorem consistent_empty : CSchedule.empty.Consistent where
  known inv _ p := by simp [stateAt, peerAt, empty, CInvState.default, CInvPeer.not_knows_empty]
  entry inv st h := by simp [empty] at h
  assigned p inv _ h := absurd h (CInvPeer.not_assigned_empty inv)
  pending inv _ h := absurd rfl h

theorem Consistent.congr {s' : CSchedule} (hs : s.Consistent) (hp : ∀ p, s'.peerAt p = s.peerAt p)
    (hst : ∀ inv, s'.mapState.find inv = s.mapState.find inv) : s'.Consistent := by
  have hst' : ∀ inv, s'.stateAt inv = s.stateAt inv := fun inv => by rw [stateAt_eq, stateAt_eq, hst]
  refine ⟨fun inv hi p => ?_, fun inv st h => ?_, fun p inv hi h => ?_, fun inv hi h0 hr => ?_⟩
  · rw [hst', hp]
    exact hs.known inv hi p
  · exact hs.entry inv st (by rwa [← hst])
  · rw [hp] at h ⊢
    rw [hst']
    exact hs.assigned p inv hi h
  · rw [hst'] at h0 hr ⊢
    rw [hp]
    exact hs.pending inv hi h0 hr

theorem Consistent.find_of_knows (hs : s.Consistent) {p : Nat} {inv : CInv} (hi : Scheduled inv.nType)
    (hk : (s.peerAt p).Knows inv) : s.mapState.find inv = some (s.stateAt inv) := by
  have h := (hs.known inv hi p).mpr hk
  rw [stateAt_eq] at h ⊢
  cases hf : s.mapState.find inv with
  | none => simp [hf, CInvState.default] at h
  | some st => rfl

/-! ## `AddNewInv` -/

theorem stateAt_setState_field {α : Type} (g : CInvState → α) (inv : CInv) (st : CInvState)
    (h : g st = g (s.stateAt inv)) (i : CInv) : g ((s.setState inv st).stateAt i) = g (s.stateAt i) := by
  rw [stateAt_setState]
  split_ifs with hii
  · subst hii
    exact h
  · rfl

theorem Consistent.addKnown (hs : s.Consistent) {inv : CInv} (hinv : Scheduled inv.nType) (p : Nat) :
    ((s.setState inv { s.stateAt inv with setKnownPeer := (s.stateAt inv).setKnownPeer.insert p () }).setPeer p
      ((s.peerAt p).addNewInv inv)).Consistent := by
  have hn := stateAt_setState_field (s := s) CInvState.nAssigned
    inv { s.stateAt inv with setKnownPeer := (s.stateAt inv).setKnownPeer.insert p () } rfl
  have hrc := stateAt_setState_field (s := s) CInvState.isReceived
    inv { s.stateAt inv with setKnownPeer := (s.stateAt inv).setKnownPeer.insert p () } rfl
  refine ⟨fun i hi q => ?_, fun i st h => ?_, fun q i hi h => ?_, fun i hi h0 hr => ?_⟩
  · simp only [peerAt_setPeer, stateAt_setPeer, stateAt_setState]
    by_cases hq : q = p <;> by_cases hii : i = inv
    · subst hq hii
      simp [CInvPeer.knows_addNewInv _ hi hi]
    · simp only [hq, hii, if_true, if_false, CInvPeer.knows_addNewInv _ hi hinv, false_or]
      rw [← hq]
      exact hs.known i hi q
    · subst hii
      simp only [hq, if_true, if_false, SortedMap.find_insert]
      exact hs.known i hi q
    · simp only [hq, hii, if_false]
      exact hs.known i hi q
  · simp only [mapState_setPeer, find_setState] at h
    split_ifs at h with hii
    · cases h
      exact ⟨hii ▸ hinv, SortedMap.isEmpty_insert _ _ _⟩
    · exact hs.entry i st h
  · simp only [stateAt_setPeer, hn, peerAt_setPeer] at h ⊢
    split_ifs at h ⊢ with hq
    · rw [CInvPeer.assigned_addNewInv _ hi hinv, ← hq] at h
      obtain ⟨hq0, hn, hk⟩ := hs.assigned q i hi h
      exact ⟨hq0, hn, (CInvPeer.knows_addNewInv _ hi hinv).mpr (.inr (hq ▸ hk))⟩
    · exact hs.assigned q i hi h
  · simp only [stateAt_setPeer, hn, hrc, peerAt_setPeer] at h0 hr ⊢
    split_ifs with hq
    · rw [CInvPeer.assigned_addNewInv _ hi hinv, ← hq]
      exact hs.pending i hi h0 hr
    · exact hs.pending i hi h0 hr

theorem Consistent.addNewInv (hs : s.Consistent) {inv : CInv} (hinv : Scheduled inv.nType) (p : Nat) :
    (s.addNewInv inv p).Consistent := by
  unfold CSchedule.addNewInv
  dsimp only
  generalize (if inv.nType = CInv.MSG_TX then MAX_PEER_TX_INV_COUNT else MAX_PEER_BLOCK_INV_COUNT) = nMaxPeerInv
  split_ifs
  · exact hs.addKnown hinv p
  · refine hs.congr (fun q => ?_) (fun _ => rfl)
    rw [peerAt_setPeer]
    split_ifs with hq
    · rw [hq]
    · rfl

/-! ## Scheduling -/

theorem Consistent.assignTo (hs : s.Consistent) {p : Nat} (hp : p ≠ 0) {inv : CInv} (hinv : Scheduled inv.nType)
    (hk : (s.peerAt p).Knows inv) {st : CInvState} (hst : s.stateAt inv = st) (h0 : st.nAssigned = 0) :
    ((s.setState inv { st with nAssigned := p }).setPeer p ((s.peerAt p).assign inv)).Consistent := by
  subst hst
  have hK := stateAt_setState_field (s := s) CInvState.setKnownPeer inv { s.stateAt inv with nAssigned := p } rfl
  have hrc := stateAt_setState_field (s := s) CInvState.isReceived inv { s.stateAt inv with nAssigned := p } rfl
  have hknows : ∀ q i, Scheduled i.nType →
      ((if q = p then (s.peerAt p).assign inv else s.peerAt q).Knows i ↔ (s.peerAt q).Knows i) := by
    intro q i hi
    split_ifs with hq
    · rw [CInvPeer.knows_assign _ hi hinv, hq]
    · rfl
  refine ⟨fun i hi q => ?_, fun i st h => ?_, fun q i hi h => ?_, fun i hi hn hr => ?_⟩
  · simp only [stateAt_setPeer, hK, peerAt_setPeer, peerAt_setState]
    rw [hknows q i hi]
    exact hs.known i hi q
  · simp only [mapState_setPeer, find_setState] at h
    split_ifs at h with hii
    · cases h
      subst hii
      exact ⟨hinv, (hs.entry _ _ (hs.find_of_knows hinv hk)).2⟩
    · exact hs.entry i st h
  · simp only [peerAt_setPeer, peerAt_setState, stateAt_setPeer, stateAt_setState] at h ⊢
    rw [hknows q i hi]
    by_cases hq : q = p
    · subst hq
      rw [if_pos rfl, CInvPeer.assigned_assign _ hi hinv] at h
      rcases h with rfl | h
      · exact ⟨hp, by simp, hk⟩
      · obtain ⟨hq0, hn, hki⟩ := hs.assigned q i hi h
        refine ⟨hq0, ?_, hki⟩
        split_ifs with hii
        · rfl
        · exact hn
    · rw [if_neg hq] at h
      obtain ⟨hq0, hn, hki⟩ := hs.assigned q i hi h
      refine ⟨hq0, ?_, hki⟩
      split_ifs with hii
      · -- `inv` was asked of no one, so not of `q`
        subst hii
        exact absurd (hn.symm.trans h0) hq0
      · exact hn
  · simp only [stateAt_setPeer, hrc, peerAt_setPeer, peerAt_setState] at hr ⊢
    by_cases hii : i = inv
    · subst hii
      simp [CInvPeer.assigned_assign _ hi hi]
    · rw [stateAt_setPeer, stateAt_setState, if_neg hii] at hn
      rw [stateAt_setState, if_neg hii]
      split_ifs with hq
      · rw [CInvPeer.assigned_assign _ hi hinv, ← hq]
        exact .inr (hs.pending i hi hn hr)
      · exact hs.pending i hi hn hr

theorem Consistent.scheduleKnownLoop {p : Nat} (hp : p ≠ 0) {type : Nat} (ht : Scheduled type) (nMaxCount : Nat)
    (l : List Nat) : ∀ {s : CSchedule} (vInv : List CInv) (nReceived : Nat), s.Consistent →
      (∀ hash ∈ l, (s.peerAt p).Knows ⟨type, hash⟩) →
        (CSchedule.scheduleKnownLoop p type nMaxCount s vInv nReceived l).1.Consistent := by
  induction l with
  | nil => exact fun _ _ hs _ => hs
  | cons hash l ih =>
    intro s vInv nReceived hs hl
    have hk := hl hash List.mem_cons_self
    -- `mapState[inv]` reads a state that is there already
    have hs₁ : (s.setState ⟨type, hash⟩ (s.stateAt ⟨type, hash⟩)).Consistent := by
      refine hs.congr (fun _ => rfl) fun i => ?_
      rw [find_setState]
      split_ifs with hii
      · rw [hii, hs.find_of_knows ht hk]
      · rfl
    have hl₁ : ∀ h ∈ l, ((s.setState ⟨type, hash⟩ (s.stateAt ⟨type, hash⟩)).peerAt p).Knows ⟨type, h⟩ :=
      fun h hh => hl h (List.mem_cons_of_mem _ hh)
    rw [CSchedule.scheduleKnownLoop]
    dsimp only
    split_ifs with h0 hmax hrec
    · exact hs₁.assignTo hp ht hk (by simp) h0
    · refine ih _ _ (hs₁.assignTo hp ht hk (by simp) h0) fun h hh => ?_
      rw [peerAt_setPeer, if_pos rfl, CInvPeer.knows_assign _ ht ht]
      exact hl₁ h hh
    · exact ih _ _ hs₁ hl₁
    · exact ih _ _ hs₁ hl₁

theorem Consistent.scheduleKnownInv (hs : s.Consistent) {p : Nat} (hp : p ≠ 0) {type : Nat} (ht : Scheduled type)
    (nMaxCount : Nat) : (s.scheduleKnownInv p type nMaxCount).1.Consistent :=
  Consistent.scheduleKnownLoop hp ht nMaxCount _ [] 0 hs fun _ h => h

theorem scheduleBlockInv_fst (s : CSchedule) (p nMaxCount : Nat) :
    (s.scheduleBlockInv p nMaxCount).1 = s ∨
      (s.scheduleBlockInv p nMaxCount).1 = (s.scheduleKnownInv p CInv.MSG_BLOCK nMaxCount).1 := by
  unfold scheduleBlockInv
  split
  · exact .inl rfl
  · split
    · dsimp only
      split <;> exact .inr rfl
    · exact .inl rfl

theorem scheduleTxInv_fst (s : CSchedule) (p nMaxCount : Nat) :
    (s.scheduleTxInv p nMaxCount).1 = s ∨
      (s.scheduleTxInv p nMaxCount).1 = (s.scheduleKnownInv p CInv.MSG_TX nMaxCount).1 := by
  unfold scheduleTxInv
  split
  · split
    · dsimp only
      split <;> exact .inr rfl
    · exact .inl rfl
  · exact .inl rfl

/-! ## Deliveries -/

theorem Consistent.complete (hs : s.Consistent) {inv : CInv} {st : CInvState} (hst : s.mapState.find inv = some st)
    (obj : CInvObject) (q : Nat) :
    ((s.setState inv { st with objReceived := some obj }).setPeer q
      (((s.setState inv { st with objReceived := some obj }).peerAt q).completed inv)).Consistent := by
  have hinv := (hs.entry inv st hst).1
  have hst' : s.stateAt inv = st := by rw [stateAt_eq, hst]; rfl
  subst hst'
  have hK := stateAt_setState_field (s := s) CInvState.setKnownPeer
    inv { s.stateAt inv with objReceived := some obj } rfl
  have hn := stateAt_setState_field (s := s) CInvState.nAssigned
    inv { s.stateAt inv with objReceived := some obj } rfl
  refine ⟨fun i hi p => ?_, fun i st h => ?_, fun p i hi h => ?_, fun i hi h0 hr => ?_⟩
  · simp only [stateAt_setPeer, hK, peerAt_setPeer, peerAt_setState]
    split_ifs with hp
    · rw [CInvPeer.knows_completed _ hi hinv, hp]
      exact hs.known i hi q
    · exact hs.known i hi p
  · simp only [mapState_setPeer, find_setState] at h
    split_ifs at h with hii
    · cases h
      subst hii
      exact hs.entry _ (s.stateAt _) hst
    · exact hs.entry i st h
  · simp only [peerAt_setPeer, peerAt_setState, stateAt_setPeer, hn] at h ⊢
    split_ifs at h ⊢ with hp
    · rw [CInvPeer.assigned_completed _ hi hinv] at h
      rw [CInvPeer.knows_completed _ hi hinv]
      subst hp
      exact hs.assigned _ i hi h.2
    · exact hs.assigned p i hi h
  · by_cases hii : i = inv
    · subst hii
      simp [CInvState.isReceived] at hr
    · simp only [stateAt_setPeer, stateAt_setState, if_neg hii, peerAt_setPeer, peerAt_setState] at h0 hr ⊢
      split_ifs with hp
      · rw [CInvPeer.assigned_completed _ hi hinv]
        exact ⟨hii, hp ▸ hs.pending i hi h0 hr⟩
      · exact hs.pending i hi h0 hr

theorem Consistent.receive (hs : s.Consistent) (nType p hash : Nat) (obj : CInvObject) :
    (s.receive nType p hash obj).1.Consistent := by
  unfold CSchedule.receive
  dsimp only
  cases hf : s.mapState.find ⟨nType, hash⟩ with
  | none => exact hs
  | some st =>
    simp only
    split_ifs <;> first | exact hs | exact hs.complete hf obj _

/-! ## An inv leaves -/

theorem mapPeer_removeOrphan (s : CSchedule) (inv : CInv) : (s.removeOrphan inv).mapPeer = s.mapPeer := by
  unfold removeOrphan
  split_ifs <;> rfl

theorem mapState_removeOrphan (s : CSchedule) (inv : CInv) : (s.removeOrphan inv).mapState = s.mapState := by
  unfold removeOrphan
  split_ifs <;> rfl

theorem peerAt_removeKnown (s : CSchedule) (inv : CInv) (setKnownPeer : NatSet) (q : Nat) :
    (s.removeKnown inv setKnownPeer).peerAt q =
      if q ∈ setKnownPeer.keys then (s.peerAt q).removeInv inv else s.peerAt q :=
  Fold.foldl_pointwise (fun s q => s.peerAt q) (fun _ peer => peer.removeInv inv)
    (fun _ peer => peer.removeInv_removeInv inv) (fun s x y => peerAt_setPeer s x y _) _ _ _

theorem mapState_removeKnown (s : CSchedule) (inv : CInv) (setKnownPeer : NatSet) :
    (s.removeKnown inv setKnownPeer).mapState = s.mapState := by
  unfold removeKnown
  refine Fold.foldl_proj CSchedule.mapState (fun _ _ => ?_) _ _
  rfl

theorem Consistent.drop (hs : s.Consistent) {inv : CInv} {st : CInvState} (hst : s.mapState.find inv = some st)
    {s' : CSchedule} (hpeer : ∀ q, s'.peerAt q = (s.removeKnown inv st.setKnownPeer).peerAt q)
    (hfind : ∀ i, s'.mapState.find i = (s.mapState.erase inv).find i) : s'.Consistent := by
  have hinv := (hs.entry inv st hst).1
  have hst' : s.stateAt inv = st := by rw [stateAt_eq, hst]; rfl
  subst hst'
  have hstate : ∀ i, s'.stateAt i = if i = inv then .default else s.stateAt i := by
    intro i
    rw [stateAt_eq, hfind, SortedMap.find_erase]
    split_ifs <;> rfl
  have hknows : ∀ q i, Scheduled i.nType → ((s'.peerAt q).Knows i ↔ i ≠ inv ∧ (s.peerAt q).Knows i) := by
    intro q i hi
    rw [hpeer, peerAt_removeKnown]
    split_ifs with hq
    · exact CInvPeer.knows_removeInv _ hi hinv
    · refine ⟨fun hk => ⟨?_, hk⟩, And.right⟩
      rintro rfl
      exact hq ((SortedMap.mem_keys_iff _ _).mpr ((hs.known _ hi q).mpr hk))
  have hassigned : ∀ q i, Scheduled i.nType → ((s'.peerAt q).Assigned i ↔ i ≠ inv ∧ (s.peerAt q).Assigned i) := by
    intro q i hi
    rw [hpeer, peerAt_removeKnown]
    split_ifs with hq
    · exact CInvPeer.assigned_removeInv _ hi hinv
    · refine ⟨fun ha => ⟨?_, ha⟩, And.right⟩
      rintro rfl
      exact hq ((SortedMap.mem_keys_iff _ _).mpr ((hs.known _ hi q).mpr (hs.assigned q _ hi ha).2.2))
  refine ⟨fun i hi q => ?_, fun i st h => ?_, fun q i hi h => ?_, fun i hi h0 hr => ?_⟩
  · rw [hknows q i hi, hstate]
    split_ifs with hii
    · simp [hii, CInvState.default]
    · rw [← hs.known i hi q]
      exact ⟨fun h => ⟨hii, h⟩, And.right⟩
  · rw [hfind, SortedMap.find_erase] at h
    split_ifs at h
    exact hs.entry i st h
  · obtain ⟨hii, ha⟩ := (hassigned q i hi).mp h
    obtain ⟨hq0, hn, hk⟩ := hs.assigned q i hi ha
    exact ⟨hq0, by rw [hstate, if_neg hii, hn], (hknows q i hi).mpr ⟨hii, hk⟩⟩
  · rw [hstate] at h0 hr ⊢
    split_ifs at h0 hr ⊢ with hii
    · exact absurd rfl h0
    · exact (hassigned _ i hi).mpr ⟨hii, hs.pending i hi h0 hr⟩

theorem Consistent.removeInv (hs : s.Consistent) (inv : CInv) : (s.removeInv inv).1.Consistent := by
  unfold CSchedule.removeInv
  split
  · exact hs
  · rename_i st hst
    refine hs.drop hst (fun q => ?_) (fun i => ?_)
    · dsimp only
      split_ifs
      · simp only [peerAt, mapPeer_removeOrphan]
      · rfl
    · dsimp only
      split_ifs <;> simp only [mapState_removeOrphan, mapState_removeKnown]

theorem Consistent.invalidate (hs : s.Consistent) (nType hash : Nat) : (s.invalidate nType hash).1.Consistent := by
  unfold CSchedule.invalidate
  dsimp only
  apply Consistent.removeInv
  refine Fold.foldl_invariant (P := fun acc : CSchedule × List Nat => acc.1.Consistent) ?_ ?_
  · intro acc hashInvalid _ hacc
    split
    · exact hacc
    · rename_i st hst
      refine hacc.drop hst (fun _ => rfl) (fun i => ?_)
      dsimp only
      rw [mapState_removeKnown]
  · split_ifs <;> exact hs.congr (fun _ => rfl) (fun _ => rfl)

/-! ## A peer leaves -/

theorem find_removePeer (s : CSchedule) (q : Nat) (i : CInv) :
    (s.removePeer q).1.mapState.find i =
      if i ∈ (s.peerAt q).getKnownInv then CInvState.leaveEntry q (s.mapState.find i) else s.mapState.find i := by
  unfold removePeer
  split
  · rename_i hq
    simp [peerAt, hq, CInvPeer.empty, CInvPeer.getKnownInv]
  · rename_i peer hq
    rw [show s.peerAt q = peer by simp [peerAt, hq]]
    refine Fold.foldl_pointwise (fun (acc : CSchedule × List Nat) i => acc.1.mapState.find i)
      (fun _ => CInvState.leaveEntry q) (fun _ => CInvState.leaveEntry_leaveEntry q) (fun acc x y => ?_) _ _ i
    -- the three branches of the loop body against the three of `leave`
    simp only [CInvState.leaveEntry, CInvState.leave, ← stateAt_eq]
    by_cases he : ((acc.1.stateAt x).setKnownPeer.erase q).isEmpty = true
    · by_cases hyx : y = x <;> simp [he, hyx, mapState_removeOrphan]
    · by_cases hn : (acc.1.stateAt x).nAssigned = q <;> by_cases hyx : y = x <;> simp [he, hn, hyx]

theorem stateAt_removePeer (s : CSchedule) (q : Nat) (i : CInv) :
    (s.removePeer q).1.stateAt i = if i ∈ (s.peerAt q).getKnownInv then (s.stateAt i).leave q else s.stateAt i := by
  rw [stateAt_eq, find_removePeer]
  split_ifs
  · exact CInvState.getD_leaveEntry q _
  · rfl

theorem peerAt_removePeer (s : CSchedule) (q p : Nat) :
    (s.removePeer q).1.peerAt p = if p = q then .empty else s.peerAt p := by
  unfold removePeer
  split
  · rename_i hq
    split_ifs with hp
    · simp [peerAt, hp, hq]
    · rfl
  · simp only [peerAt, SortedMap.find_erase]
    split_ifs
    · rfl
    · congr 1
      refine Fold.foldl_invariant (P := fun acc : CSchedule × List Nat => acc.1.mapPeer.find p = s.mapPeer.find p)
        (fun acc x _ h => ?_) rfl
      split_ifs
      · simpa [mapPeer_removeOrphan] using h
      · exact h
      · exact h

theorem Consistent.removePeer (hs : s.Consistent) (q : Nat) : (s.removePeer q).1.Consistent := by
  have hmem : ∀ i, Scheduled i.nType → (i ∈ (s.peerAt q).getKnownInv ↔ ((s.stateAt i).setKnownPeer.find q).isSome) :=
    fun i hi => ((s.peerAt q).mem_getKnownInv i).trans ⟨fun h => (hs.known i hi q).mpr h.2,
      fun h => ⟨hi, (hs.known i hi q).mp h⟩⟩
  refine ⟨fun i hi p => ?_, fun i st h => ?_, fun p i hi h => ?_, fun i hi h0 hr => ?_⟩
  · rw [stateAt_removePeer, peerAt_removePeer]
    by_cases hp : p = q
    · subst hp
      simp only [if_true, CInvPeer.not_knows_empty, iff_false]
      split_ifs with hI
      · simp [CInvState.known_leave]
      · exact fun h => hI ((hmem i hi).mpr h)
    · rw [if_neg hp, ← hs.known i hi p]
      split_ifs
      · simp [CInvState.known_leave, hp]
      · rfl
  · rw [find_removePeer] at h
    split_ifs at h with hI
    · exact ⟨((s.peerAt q).mem_getKnownInv i).mp hI |>.1, CInvState.isEmpty_of_leaveEntry h⟩
    · exact hs.entry i st h
  · rw [peerAt_removePeer] at h ⊢
    split_ifs at h with hp
    · exact absurd h (CInvPeer.not_assigned_empty i)
    · obtain ⟨hp0, hn, hk⟩ := hs.assigned p i hi h
      rw [if_neg hp]
      refine ⟨hp0, ?_, hk⟩
      rw [stateAt_removePeer]
      split_ifs
      · exact CInvState.nAssigned_leave hp ((hs.known i hi p).mpr hk) hn
      · exact hn
  · rw [stateAt_removePeer] at h0 hr ⊢
    rw [peerAt_removePeer]
    split_ifs at h0 hr ⊢ with hI hq hq
    · exact absurd hq ((CInvState.outstanding_of_leave h0 hr).1 ▸ (CInvState.outstanding_of_leave h0 hr).2.1)
    · obtain ⟨hn, -, hr'⟩ := CInvState.outstanding_of_leave h0 hr
      rw [hn]
      rw [hn] at h0
      exact hs.pending i hi h0 hr'
    · -- a request made to `q` is of an inv `q` knows
      exact absurd ((hmem i hi).mpr ((hs.known i hi q).mpr (hq ▸ (hs.assigned _ i hi (hs.pending i hi h0 hr)).2.2))) hI
    · exact hs.pending i hi h0 hr

/-! ## Every run -/

end CSchedule

/-- What `CNetChannel` guarantees of its calls: invs of the two scheduled types
are announced, and no peer with the nonce 0 is scheduled. -/
def SchedOp.Admissible : SchedOp → Prop
  | .addNewInv inv _ => Scheduled inv.nType
  | .scheduleBlockInv nPeerNonce _ => nPeerNonce ≠ 0
  | .scheduleTxInv nPeerNonce _ => nPeerNonce ≠ 0
  | .receiveBlock .. | .receiveTx .. | .removeInv .. | .removePeer .. | .invalidateBlock ..
  | .invalidateTx .. | .addOrphanBlockPrev .. | .addOrphanTxPrev .. => True

instance : DecidablePred SchedOp.Admissible := fun op =>
  match op with
  | .addNewInv inv _ => inferInstanceAs (Decidable (Scheduled inv.nType))
  | .scheduleBlockInv nPeerNonce _ => inferInstanceAs (Decidable (nPeerNonce ≠ 0))
  | .scheduleTxInv nPeerNonce _ => inferInstanceAs (Decidable (nPeerNonce ≠ 0))
  | .receiveBlock .. | .receiveTx .. | .removeInv .. | .removePeer .. | .invalidateBlock ..
  | .invalidateTx .. | .addOrphanBlockPrev .. | .addOrphanTxPrev .. => isTrue trivial

namespace CSchedule

variable {s : CSchedule}

theorem Consistent.step (hs : s.Consistent) {op : SchedOp} (hop : op.Admissible) : (s.step op).Consistent := by
  cases op with
  | addNewInv inv p => exact hs.addNewInv hop p
  | scheduleBlockInv p nMaxCount =>
    show (s.scheduleBlockInv p nMaxCount).1.Consistent
    rcases scheduleBlockInv_fst s p nMaxCount with h | h <;> rw [h]
    · exact hs
    · exact hs.scheduleKnownInv hop scheduled_block nMaxCount
  | scheduleTxInv p nMaxCount =>
    show (s.scheduleTxInv p nMaxCount).1.Consistent
    rcases scheduleTxInv_fst s p nMaxCount with h | h <;> rw [h]
    · exact hs
    · exact hs.scheduleKnownInv hop scheduled_tx nMaxCount
  | receiveBlock p hash block => exact hs.receive _ p hash _
  | receiveTx p txid tx => exact hs.receive _ p txid _
  | removeInv inv => exact hs.removeInv inv
  | removePeer p => exact hs.removePeer p
  | invalidateBlock hash => exact hs.invalidate _ hash
  | invalidateTx txid => exact hs.invalidate _ txid
  | addOrphanBlockPrev hash prev => exact hs.congr (fun _ => rfl) (fun _ => rfl)
  | addOrphanTxPrev txid prev => exact hs.congr (fun _ => rfl) (fun _ => rfl)

theorem Consistent.run (hs : s.Consistent) {ops : List SchedOp} (hops : ∀ op ∈ ops, op.Admissible) :
    (s.run ops).Consistent :=
  Fold.foldl_invariant (fun _ op hop h => h.step (hops op hop)) hs

theorem Consistent.scheduled_of_nAssigned (hs : s.Consistent) {inv : CInv} (h : (s.stateAt inv).nAssigned ≠ 0) :
    Scheduled inv.nType := by
  rw [stateAt_eq] at h
  cases hf : s.mapState.find inv with
  | none => simp [hf, CInvState.default] at h
  | some st => exact (hs.entry inv st hf).1

theorem Consistent.received_of_removePeer (hs : s.Consistent) {q : Nat} (hq : q ≠ 0) {inv : CInv}
    (hn : ((s.removePeer q).1.stateAt inv).nAssigned = q) : ((s.removePeer q).1.stateAt inv).isReceived = true := by
  have hs' := hs.removePeer q
  have h0 : ((s.removePeer q).1.stateAt inv).nAssigned ≠ 0 := by rw [hn]; exact hq
  rw [← Bool.not_eq_false]
  intro hr
  have ha := hs'.pending inv (hs'.scheduled_of_nAssigned h0) h0 hr
  rw [hn, peerAt_removePeer, if_pos rfl] at ha
  exact CInvPeer.not_assigned_empty inv ha

end CSchedule

open CSchedule in
/-- Every schedule that the calls of `CNetChannel` reach from the empty one
keeps its two records of each inv in step, and a peer's removal leaves no
request waiting on it. -/
theorem run_consistent (ops : List SchedOp) (hops : ∀ op ∈ ops, op.Admissible) :
    let s : CSchedule := CSchedule.empty.run ops
    s.Consistent ∧ ∀ q inv, q ≠ 0 → ((s.removePeer q).1.stateAt inv).nAssigned = q →
      ((s.removePeer q).1.stateAt inv).isReceived = true := by
  intro s
  have hs : s.Consistent := consistent_empty.run hops
  exact ⟨hs, fun q inv hq hn => hs.received_of_removePeer hq hn⟩

/-- Two peers announce block 10; the first is asked for it and leaves, and the
second is asked for it in turn. -/
theorem run_consistent_of_departure :
    let ops : List SchedOp := [.addNewInv ⟨CInv.MSG_BLOCK, 10⟩ 1000, .addNewInv ⟨CInv.MSG_BLOCK, 10⟩ 2000,
      .scheduleBlockInv 1000 8, .removePeer 1000, .scheduleBlockInv 2000 8]
    (∀ op ∈ ops, op.Admissible) ∧ (CSchedule.empty.run ops).Consistent := by
  intro ops
  have hops : ∀ op ∈ ops, op.Admissible := by decide
  exact ⟨hops, (run_consistent ops hops).1⟩

end Multiverse
