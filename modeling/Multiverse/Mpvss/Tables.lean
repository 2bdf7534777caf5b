import Mathlib.Data.List.GetD
import Multiverse.Mpvss.SecretShare

/-! # Table indices of a session

`CSC25519::naturalPowTable[51][26]` holds powers of the indices 1 to 51, which
`CMPOpenedBox::Polynomial` and `CMPSealedBox::PrecalcPolynomial` read at
`[nX-1][i-1]`, and `SCInverse[101]` the inverses of -50 to 50, which `MPNewton`
reads at `50 + (x_i - x_j)`. The indices are those `Enroll` hands out: each
candidate takes a range of indices from 1 on, `nThresh` is a majority of them,
and `Collect` keeps shares at indices of the sender's range. When the
candidates' weights sum to at most 50, every index read stays in its table.

The reads are lists of the indices each loop of the source reads, in integers,
so that an index below the table is not lost to the truncation of `Nat`.
-/

namespace Multiverse.Mpvss

/-- The entries `[nX-1][i-1]` of `naturalPowTable` that `Polynomial(nThresh, nX)`
reads, `i` from 1 below `nThresh`. -/
def polynomialReads (nThresh nX : Nat) : List (Int × Int) :=
  (List.range' 1 (nThresh - 1)).map fun (i : Nat) => ((nX : Int) - 1, (i : Int) - 1)

/-- The entries `PrecalcPolynomial(nThresh, nLastIndex)` reads, `nX` from 1
below `nLastIndex`. -/
def precalcPolynomialReads (nThresh nLastIndex : Nat) : List (Int × Int) :=
  (List.range' 1 (nLastIndex - 1)).flatMap (polynomialReads nThresh)

/-- The entries `Polynomial` reads for the shares of a range `(nIndex, nWeight)`:
`Distribute` for a participant's range, `Publish` for the node's own, and
`Collect` for the node's own shares of the sender's range. -/
def rangeReads (nThresh : Nat) (r : Nat × Nat) : List (Int × Int) :=
  (List.range r.2).flatMap fun i => polynomialReads nThresh (r.1 + i)

/-- The entries `SCInverseZero + x_i - x_(i-j-1)` of `SCInverse` that
`MPNewton(vShare)` reads, for `j < i`. -/
def newtonReads (vShare : List (Nat × SC25519)) : List Int :=
  (List.range vShare.length).flatMap fun i => (List.range i).map fun j =>
    50 + ((vShare.getD i (0, 0)).1 : Int) - (vShare.getD (i - j - 1) (0, 0)).1

/-- An entry of `naturalPowTable[51][26]`. -/
def InPowTable (e : Int × Int) : Prop := 0 ≤ e.1 ∧ e.1 < 51 ∧ 0 ≤ e.2 ∧ e.2 < 26

/-- An entry of `SCInverse[101]`. -/
def InInverseTable (k : Int) : Prop := 0 ≤ k ∧ k < 101

instance : DecidablePred InPowTable := fun _ => inferInstanceAs (Decidable (_ ∧ _))

instance : DecidablePred InInverseTable := fun _ => inferInstanceAs (Decidable (_ ∧ _))

section Reads

variable {nThresh nLastIndex : Nat}

theorem polynomialReads_inPowTable {nX : Nat} (ht : nThresh ≤ 26) (hx : 1 ≤ nX ∧ nX ≤ 51) :
    ∀ e ∈ polynomialReads nThresh nX, InPowTable e := by
  intro e he
  obtain ⟨i, hi, rfl⟩ := List.mem_map.mp he
  rw [List.mem_range'_1] at hi
  unfold InPowTable
  omega

theorem precalcPolynomialReads_inPowTable (ht : nThresh ≤ 26) (hn : nLastIndex ≤ 51) :
    ∀ e ∈ precalcPolynomialReads nThresh nLastIndex, InPowTable e := by
  intro e he
  obtain ⟨nX, hx, he⟩ := List.mem_flatMap.mp he
  rw [List.mem_range'_1] at hx
  exact polynomialReads_inPowTable ht (by omega) e he

/-- A range of the indices from 1 below `nLastIndex`; a range of weight 0 holds
no index and may start anywhere. -/
def RangeWithin (nLastIndex : Nat) (r : Nat × Nat) : Prop :=
  r.2 = 0 ∨ (1 ≤ r.1 ∧ r.1 + r.2 ≤ nLastIndex)

theorem RangeWithin.mono {m : Nat} {r : Nat × Nat} (h : RangeWithin m r) (hmn : m ≤ nLastIndex) :
    RangeWithin nLastIndex r := by
  unfold RangeWithin at *
  omega

theorem rangeReads_inPowTable {r : Nat × Nat} (ht : nThresh ≤ 26) (hn : nLastIndex ≤ 51)
    (hr : RangeWithin nLastIndex r) : ∀ e ∈ rangeReads nThresh r, InPowTable e := by
  intro e he
  obtain ⟨i, hi, he⟩ := List.mem_flatMap.mp he
  rw [List.mem_range] at hi
  have hr' : 1 ≤ r.1 ∧ r.1 + r.2 ≤ nLastIndex := hr.resolve_left (by omega)
  exact polynomialReads_inPowTable ht (by omega) e he

theorem newtonReads_inInverseTable {vShare : List (Nat × SC25519)}
    (h : ∀ p ∈ vShare, 1 ≤ p.1 ∧ p.1 ≤ 50) : ∀ k ∈ newtonReads vShare, InInverseTable k := by
  intro k hk
  simp only [newtonReads, List.mem_flatMap, List.mem_range, List.mem_map] at hk
  obtain ⟨i, hi, j, hj, rfl⟩ := hk
  have hxi := h (vShare.getD i (0, 0)) (by rw [List.getD_eq_getElem _ _ hi]; exact List.getElem_mem hi)
  have hxj := h (vShare.getD (i - j - 1) (0, 0))
    (by rw [List.getD_eq_getElem _ _ (by omega)]; exact List.getElem_mem _)
  unfold InInverseTable
  omega

end Reads

namespace CMPSecretShare

/-- `nLastIndex` of `Enroll`, one past the last index it hands out, which it
passes to `PrepareVerification`. -/
def enrollLastIndex (candidateVerify : Nat → Bool) (s : CMPSecretShare) (vCandidate : List (Nat × Nat)) :
    Nat :=
  (vCandidate.foldl (enrollCandidate candidateVerify) (s, 1)).2

/-- Every range a state of `Enroll` has handed out, the node's own and each
participant's, lies below the last index reached. -/
structure RangesBelow (s : CMPSecretShare) (nLastIndex : Nat) : Prop where
  one_le : 1 ≤ nLastIndex
  own : RangeWithin nLastIndex (s.nIndex, s.nWeight)
  participant : ∀ nIdent r, s.mapParticipant nIdent = some r → RangeWithin nLastIndex r

theorem rangesBelow_empty (nIdent : Nat) : RangesBelow (empty nIdent) 1 :=
  ⟨le_rfl, Or.inl rfl, fun _ _ h => by simp [empty] at h⟩

theorem RangesBelow.getParticipantRange {s : CMPSecretShare} {n nIdentIn : Nat} {r : Nat × Nat}
    (h : RangesBelow s n) (hr : s.getParticipantRange nIdentIn = some r) : RangeWithin n r := by
  unfold CMPSecretShare.getParticipantRange at hr
  split_ifs at hr
  · cases hr
    exact h.own
  · exact h.participant nIdentIn r hr

theorem enrollCandidate_rangesBelow (candidateVerify : Nat → Bool) {acc : CMPSecretShare × Nat}
    (h : RangesBelow acc.1 acc.2) (candidate : Nat × Nat) :
    RangesBelow (enrollCandidate candidateVerify acc candidate).1
        (enrollCandidate candidateVerify acc candidate).2 ∧
      (enrollCandidate candidateVerify acc candidate).2 ≤ acc.2 + candidate.2 := by
  obtain ⟨s, n⟩ := acc
  obtain ⟨nIdent, nWeight⟩ := candidate
  have hone : 1 ≤ n := h.one_le
  dsimp only [enrollCandidate]
  split_ifs with hself hnew
  · -- the node itself takes the next range
    refine ⟨⟨by omega, Or.inr ⟨hone, le_rfl⟩, fun id r hr => ?_⟩, le_rfl⟩
    exact (h.participant id r hr).mono (by omega)
  · -- a new participant takes it
    refine ⟨⟨by omega, h.own.mono (by omega), fun id r hr => ?_⟩, le_rfl⟩
    dsimp only at hr ⊢
    by_cases hid : id = nIdent
    · subst hid
      simp only [Function.update_self, Option.some.injEq] at hr
      subst hr
      exact Or.inr ⟨hone, le_rfl⟩
    · rw [Function.update_of_ne hid] at hr
      exact (h.participant id r hr).mono (by omega)
  · exact ⟨h, by simp⟩

theorem foldl_enrollCandidate_rangesBelow (candidateVerify : Nat → Bool) (vCandidate : List (Nat × Nat))
    {acc : CMPSecretShare × Nat} (h : RangesBelow acc.1 acc.2) :
    RangesBelow (vCandidate.foldl (enrollCandidate candidateVerify) acc).1
        (vCandidate.foldl (enrollCandidate candidateVerify) acc).2 ∧
      (vCandidate.foldl (enrollCandidate candidateVerify) acc).2 ≤ acc.2 + (vCandidate.map Prod.snd).sum := by
  induction vCandidate generalizing acc with
  | nil => exact ⟨h, by simp⟩
  | cons c vCandidate ih =>
    obtain ⟨hstep, hle⟩ := enrollCandidate_rangesBelow candidateVerify h c
    obtain ⟨hrun, hle'⟩ := ih hstep
    refine ⟨hrun, ?_⟩
    simp only [List.foldl_cons, List.map_cons, List.sum_cons] at hle' ⊢
    omega

theorem foldl_enrollCandidate_mapOpenedShare (candidateVerify : Nat → Bool)
    (vCandidate : List (Nat × Nat)) (acc : CMPSecretShare × Nat) :
    (vCandidate.foldl (enrollCandidate candidateVerify) acc).1.mapOpenedShare = acc.1.mapOpenedShare := by
  induction vCandidate generalizing acc with
  | nil => rfl
  | cons c vCandidate ih =>
    rw [List.foldl_cons, ih]
    dsimp only [enrollCandidate]
    split_ifs <;> rfl

/-- Every share a state keeps for reconstruction is at an index from 1 below
`nLastIndex`. -/
def OpenedBelow (s : CMPSecretShare) (nLastIndex : Nat) : Prop :=
  ∀ nIdent p, p ∈ s.mapOpenedShare nIdent → 1 ≤ p.1 ∧ p.1 < nLastIndex

theorem mem_openShares {nThresh x : Nat} {vShare : List SC25519} {vOpenedShare : List (Nat × SC25519)}
    {p : Nat × SC25519} (hp : p ∈ openShares nThresh x vShare vOpenedShare) :
    p ∈ vOpenedShare ∨ (x ≤ p.1 ∧ p.1 < x + vShare.length) := by
  induction vShare generalizing x vOpenedShare with
  | nil => exact Or.inl hp
  | cons share vShare ih =>
    unfold openShares at hp
    split_ifs at hp
    · rcases ih hp with hp | hp
      · rcases List.mem_append.mp hp with hp | hp
        · exact Or.inl hp
        · rw [List.mem_singleton.mp hp]
          exact Or.inr ⟨le_rfl, by simp⟩
      · exact Or.inr ⟨by omega, by simp only [List.length_cons]; omega⟩
    · exact Or.inl hp

theorem mem_foldl_openShares {nThresh x w : Nat} {mapShare : List (Nat × List SC25519)}
    (hlen : ∀ e ∈ mapShare, e.2.length = w) {m : Nat → List (Nat × SC25519)} {nIdent : Nat}
    {p : Nat × SC25519}
    (hp : p ∈ (mapShare.foldl (fun m entry => Function.update m entry.1
      (openShares nThresh x entry.2 (m entry.1))) m) nIdent) :
    p ∈ m nIdent ∨ (x ≤ p.1 ∧ p.1 < x + w) := by
  induction mapShare generalizing m with
  | nil => exact Or.inl hp
  | cons e mapShare ih =>
    rcases ih (fun e' he' => hlen e' (List.mem_cons_of_mem _ he')) hp with hp | hp
    · by_cases hid : nIdent = e.1
      · subst hid
        simp only [Function.update_self] at hp
        rw [← hlen e List.mem_cons_self]
        exact mem_openShares hp
      · simp only [Function.update_of_ne hid] at hp
        exact Or.inl hp
    · exact Or.inr hp

theorem collect_eq_some {f : Nat → Nat → SC25519} {s s' : CMPSecretShare} {nIdentFrom : Nat}
    {mapShare : List (Nat × List SC25519)} {fCompleted : Bool}
    (h : s.collect f nIdentFrom mapShare = some (s', fCompleted)) :
    ∃ nIndexFrom nWeightFrom, s.getParticipantRange nIdentFrom = some (nIndexFrom, nWeightFrom) ∧
      (∀ e ∈ mapShare, e.2.length = nWeightFrom) ∧
      s' = { s with mapOpenedShare := mapShare.foldl (fun m entry => Function.update m entry.1
        (openShares s.nThresh nIndexFrom entry.2 (m entry.1))) s.mapOpenedShare } := by
  unfold CMPSecretShare.collect at h
  split at h
  · cases h
  · next nIndexFrom nWeightFrom hr =>
    split_ifs at h with hall
    cases h
    refine ⟨nIndexFrom, nWeightFrom, hr, fun e he => ?_, rfl⟩
    have hacc := List.all_eq_true.mp hall e he
    simp only [acceptShare, Bool.and_eq_true, beq_iff_eq] at hacc
    exact hacc.1.1

/-- What every state of a session holds of its last index `nLastIndex`. -/
structure SessionInv (s : CMPSecretShare) (nLastIndex : Nat) : Prop where
  thresh : s.nThresh = (nLastIndex - 1) / 2 + 1
  ranges : RangesBelow s nLastIndex
  opened : OpenedBelow s nLastIndex

theorem sessionInv_enroll (candidateVerify : Nat → Bool) (nIdent : Nat) (vCandidate : List (Nat × Nat)) :
    SessionInv ((empty nIdent).enroll candidateVerify vCandidate)
      ((empty nIdent).enrollLastIndex candidateVerify vCandidate) := by
  obtain ⟨h, -⟩ := @foldl_enrollCandidate_rangesBelow candidateVerify vCandidate (empty nIdent, 1)
    (rangesBelow_empty nIdent)
  refine ⟨rfl, ⟨h.one_le, h.own, h.participant⟩, fun nIdent' p hp => ?_⟩
  have hopened := foldl_enrollCandidate_mapOpenedShare candidateVerify vCandidate (empty nIdent, 1)
  simp only [enroll, hopened] at hp
  simp [empty] at hp

theorem enrollLastIndex_le (candidateVerify : Nat → Bool) (nIdent : Nat) (vCandidate : List (Nat × Nat)) :
    (empty nIdent).enrollLastIndex candidateVerify vCandidate ≤ 1 + (vCandidate.map Prod.snd).sum :=
  (@foldl_enrollCandidate_rangesBelow candidateVerify vCandidate (empty nIdent, 1)
    (rangesBelow_empty nIdent)).2

theorem SessionInv.collect {f : Nat → Nat → SC25519} {s s' : CMPSecretShare} {n nIdentFrom : Nat}
    {mapShare : List (Nat × List SC25519)} {fCompleted : Bool} (h : SessionInv s n)
    (hc : s.collect f nIdentFrom mapShare = some (s', fCompleted)) : SessionInv s' n := by
  obtain ⟨nIndexFrom, nWeightFrom, hr, hlen, rfl⟩ := collect_eq_some hc
  have hrange := h.ranges.getParticipantRange hr
  refine ⟨h.thresh, ⟨h.ranges.one_le, h.ranges.own, h.ranges.participant⟩, fun nIdent p hp => ?_⟩
  rcases mem_foldl_openShares hlen hp with hp | hp
  · exact h.opened nIdent p hp
  · -- a share of the sender's range, which is then not empty
    unfold RangeWithin at hrange
    dsimp only at hrange
    omega

/-- The states of a session of the node `nIdent` with the candidates
`vCandidate`: `Enroll` from the state `Setup` leaves, then each `Collect` that
returns true; one that returns false changes nothing. -/
inductive SessionReachable (candidateVerify : Nat → Bool) (f : Nat → Nat → SC25519) (nIdent : Nat)
    (vCandidate : List (Nat × Nat)) : CMPSecretShare → Prop
  | enroll : SessionReachable candidateVerify f nIdent vCandidate
      ((empty nIdent).enroll candidateVerify vCandidate)
  | collect {s s' : CMPSecretShare} {nIdentFrom : Nat} {mapShare : List (Nat × List SC25519)}
      {fCompleted : Bool} : SessionReachable candidateVerify f nIdent vCandidate s →
      s.collect f nIdentFrom mapShare = some (s', fCompleted) →
      SessionReachable candidateVerify f nIdent vCandidate s'

section Session

variable {candidateVerify : Nat → Bool} {f : Nat → Nat → SC25519} {nIdent : Nat}
  {vCandidate : List (Nat × Nat)} {s : CMPSecretShare}

theorem SessionReachable.sessionInv (h : SessionReachable candidateVerify f nIdent vCandidate s) :
    SessionInv s ((empty nIdent).enrollLastIndex candidateVerify vCandidate) := by
  induction h with
  | enroll => exact sessionInv_enroll candidateVerify nIdent vCandidate
  | collect _ hc ih => exact ih.collect hc

theorem SessionReachable.reads_inTables (h : SessionReachable candidateVerify f nIdent vCandidate s)
    (hw : (vCandidate.map Prod.snd).sum ≤ 50) :
    (empty nIdent).enrollLastIndex candidateVerify vCandidate ≤ 51 ∧ s.nThresh ≤ 26 ∧
      (∀ e ∈ precalcPolynomialReads s.nThresh ((empty nIdent).enrollLastIndex candidateVerify vCandidate),
        InPowTable e) ∧
      (∀ e ∈ rangeReads s.nThresh (s.nIndex, s.nWeight), InPowTable e) ∧
      (∀ nIdentIn r, s.mapParticipant nIdentIn = some r → ∀ e ∈ rangeReads s.nThresh r, InPowTable e) ∧
      ∀ nIdentIn, ∀ k ∈ newtonReads (s.mapOpenedShare nIdentIn), InInverseTable k := by
  have hinv := h.sessionInv
  have hn : (empty nIdent).enrollLastIndex candidateVerify vCandidate ≤ 51 :=
    (enrollLastIndex_le candidateVerify nIdent vCandidate).trans (by omega)
  have ht : s.nThresh ≤ 26 := by
    rw [hinv.thresh]
    omega
  refine ⟨hn, ht, precalcPolynomialReads_inPowTable ht hn, rangeReads_inPowTable ht hn hinv.ranges.own,
    fun _ _ hr => rangeReads_inPowTable ht hn (hinv.ranges.participant _ _ hr),
    fun nIdentIn => newtonReads_inInverseTable fun p hp => ?_⟩
  have hp := hinv.opened nIdentIn p hp
  omega

end Session

end CMPSecretShare

end Multiverse.Mpvss
