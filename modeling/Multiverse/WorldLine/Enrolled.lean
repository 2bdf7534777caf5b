import Multiverse.Storage.Supply
import Multiverse.Storage.TimeSeries
import Multiverse.Mpvss.Tables
import Multiverse.Core.Consensus

/-! # The enrolled delegates of a block

`CWorldLine::GetBlockDelegateEnrolled` weighs the delegates enrolled for a
block with the ratio `ceil(nMoneySupply / DELEGATE_THRESH)`:
`CBlockBase::RetrieveAvailDelegate` gives each enrolled delegate whose votes
reach the ratio the weight `votes / ratio`. On a chain `AddNewBlock` accepts,
the positive votes sum to at most the money supply, so the weights sum to at
most `DELEGATE_THRESH`; an MPVSS session the delegates then enrol in hands out
at most 50 indices, and its reads of `naturalPowTable` and `SCInverse` stay in
the tables.

The votes `RetrieveDelegate` reads are the entries of the stored tally map,
and the enrolments `RetrieveEnroll` reads for the block range and the reads of
the enrolment transactions are inputs.
-/

namespace Multiverse.WorldLine

open Storage Mpvss Mpvss.CMPSecretShare

/-- `DELEGATE_THRESH` of `param.h`. -/
def DELEGATE_THRESH : Int := 50

/-- `CDelegateEnrolled`: the weight and the enrolment data of each delegate. -/
structure CDelegateEnrolled where
  mapWeight : List (CDestination × Nat)
  mapEnrollData : List (CDestination × List UInt8)
  deriving DecidableEq, Repr

/-- One entry `(dest, votes)` of the loop of `RetrieveAvailDelegate`: a delegate
whose votes reach the ratio and who has enrolled gets the weight
`size_t(votes / ratio)` and the data of its enrolment transaction; `none` when
that transaction cannot be read. -/
def availDelegate (mapEnrollTxPos : CDestination → Option CDiskPos) (readTx : CDiskPos → Option CTransaction)
    (nDelegateWeightRatio : Int) (enrolled : CDelegateEnrolled) (vote : CDestination × Int) :
    Option CDelegateEnrolled :=
  if nDelegateWeightRatio ≤ vote.2 then
    match mapEnrollTxPos vote.1 with
    | none => some enrolled
    | some pos => do
      let tx ← readTx pos
      -- the `int64` division by a zero ratio is undefined
      if nDelegateWeightRatio = 0 then none
      else some ⟨enrolled.mapWeight ++ [(vote.1, ((vote.2.tdiv nDelegateWeightRatio) % 2 ^ 64).toNat)],
        enrolled.mapEnrollData ++ [(vote.1, tx.vchData)]⟩
  else some enrolled

/-- `RetrieveAvailDelegate(hash, hashAnchor, vBlockRange, nDelegateWeightRatio,
mapWeight, mapEnrollData)` with the votes `mapVote` stored for `hash` and the
enrolments `mapEnrollTxPos` stored for the range; `none` when it returns false. -/
def retrieveAvailDelegate (mapVote : List (CDestination × Int))
    (mapEnrollTxPos : CDestination → Option CDiskPos) (readTx : CDiskPos → Option CTransaction)
    (nDelegateWeightRatio : Int) : Option CDelegateEnrolled :=
  mapVote.foldlM (availDelegate mapEnrollTxPos readTx nDelegateWeightRatio) ⟨[], []⟩

/-- `GetBlockDelegateEnrolled(hashBlock, enrolled)` for a block of money supply
`nMoneySupply` at height `nHeight`: nobody before the first enrolment
interval, and otherwise the delegates `RetrieveAvailDelegate` weighs. -/
def getBlockDelegateEnrolled (nMoneySupply nHeight : Int) (mapVote : List (CDestination × Int))
    (mapEnrollTxPos : CDestination → Option CDiskPos) (readTx : CDiskPos → Option CTransaction) :
    Option CDelegateEnrolled :=
  let nDelegateWeightRatio := (nMoneySupply + DELEGATE_THRESH - 1).tdiv DELEGATE_THRESH
  if nHeight < MV_CONSENSUS_ENROLL_INTERVAL then some ⟨[], []⟩
  else retrieveAvailDelegate mapVote mapEnrollTxPos readTx nDelegateWeightRatio

/-- The sum of the weights of a `CDelegateEnrolled`. -/
def CDelegateEnrolled.totalWeight (enrolled : CDelegateEnrolled) : Nat :=
  (enrolled.mapWeight.map Prod.snd).sum

section Weights

variable {mapEnrollTxPos : CDestination → Option CDiskPos} {readTx : CDiskPos → Option CTransaction}
  {r : Int}

theorem availDelegate_mapWeight {e e' : CDelegateEnrolled} {vote : CDestination × Int}
    (h : availDelegate mapEnrollTxPos readTx r e vote = some e') :
    e'.mapWeight = e.mapWeight ∨
      (r ≠ 0 ∧ r ≤ vote.2 ∧ e'.mapWeight = e.mapWeight ++ [(vote.1, ((vote.2.tdiv r) % 2 ^ 64).toNat)]) := by
  unfold availDelegate at h
  by_cases hge : r ≤ vote.2
  · rw [if_pos hge] at h
    split at h
    · cases h
      exact Or.inl rfl
    · obtain ⟨tx, -, h⟩ := Option.bind_eq_some_iff.mp h
      by_cases hr : r = 0
      · rw [if_pos hr] at h
        cases h
      · rw [if_neg hr] at h
        cases h
        exact Or.inr ⟨hr, hge, rfl⟩
  · rw [if_neg hge] at h
    cases h
    exact Or.inl rfl

theorem mul_weight_le (hr : 0 < r) {v : Int} (hv : r ≤ v) : r * (((v.tdiv r) % 2 ^ 64).toNat : Int) ≤ v := by
  have hq : 0 ≤ v.tdiv r := Int.tdiv_nonneg (by omega) hr.le
  have hmod : 0 ≤ v.tdiv r % 2 ^ 64 := Int.emod_nonneg _ (by decide)
  have hle : v.tdiv r % 2 ^ 64 ≤ v.tdiv r := by omega
  rw [Int.toNat_of_nonneg hmod]
  calc r * (v.tdiv r % 2 ^ 64) ≤ r * v.tdiv r := Int.mul_le_mul_of_nonneg_left hle hr.le
    _ = r * (v / r) := by rw [Int.tdiv_eq_ediv_of_nonneg (by omega)]
    _ ≤ v := Int.mul_ediv_self_le hr.ne'

theorem foldlM_availDelegate_mapWeight (hr : 0 ≤ r) (mapVote : List (CDestination × Int))
    {e e' : CDelegateEnrolled} (h : mapVote.foldlM (availDelegate mapEnrollTxPos readTx r) e = some e') :
    r * (e'.totalWeight : Int) ≤ r * e.totalWeight + (mapVote.map fun v => max v.2 0).sum ∧
      (r = 0 → e'.mapWeight = e.mapWeight) := by
  induction mapVote generalizing e with
  | nil =>
    cases h
    simp
  | cons vote mapVote ih =>
    rw [List.foldlM_cons] at h
    obtain ⟨e1, he1, h⟩ := Option.bind_eq_some_iff.mp h
    obtain ⟨hrun, hzero⟩ := ih h
    have hstep : r * (e1.totalWeight : Int) ≤ r * e.totalWeight + max vote.2 0 ∧
        (r = 0 → e1.mapWeight = e.mapWeight) := by
      rcases availDelegate_mapWeight he1 with heq | ⟨hne, hge, heq⟩
      · refine ⟨?_, fun _ => heq⟩
        simp only [CDelegateEnrolled.totalWeight, heq]
        omega
      · refine ⟨?_, fun h0 => absurd h0 hne⟩
        have hw := mul_weight_le (lt_of_le_of_ne hr (Ne.symm hne)) hge
        have hsum : (e1.totalWeight : Int) = e.totalWeight + (((vote.2.tdiv r) % 2 ^ 64).toNat : Int) := by
          simp [CDelegateEnrolled.totalWeight, heq]
        rw [hsum, Int.mul_add]
        omega
    refine ⟨?_, fun h0 => (hzero h0).trans (hstep.2 h0)⟩
    simp only [List.map_cons, List.sum_cons]
    omega

theorem le_mul_weightRatio {S : Int} (hS : 0 ≤ S) :
    S ≤ DELEGATE_THRESH * (S + DELEGATE_THRESH - 1).tdiv DELEGATE_THRESH := by
  rw [Int.tdiv_eq_ediv_of_nonneg (by unfold DELEGATE_THRESH; omega)]
  have h := @Int.lt_mul_ediv_self_add (S + DELEGATE_THRESH - 1) DELEGATE_THRESH
    (by unfold DELEGATE_THRESH; decide)
  unfold DELEGATE_THRESH at h ⊢
  omega

end Weights

section Chain

variable {crypto : Crypto} {genesis : CBlockEx} {blocks : List CBlockEx}

theorem sum_max_votes_le_moneySupply
    (hm : ChainMatches crypto (fun _ => none) (genesis :: blocks))
    (hc : ChainChecked (CTransaction.getHash crypto) (fun _ => none) (genesis :: blocks))
    {mapVote : List (CDestination × Int)} (hvote : ∀ v ∈ mapVote, v.2 = delegateTally blocks v.1)
    (hkeys : (mapVote.map Prod.fst).Nodup) :
    (mapVote.map fun v => max v.2 0).sum ≤ moneySupply ((genesis :: blocks).map CBlockEx.toCBlock) := by
  have hmap : (mapVote.map fun v => max v.2 0) =
      (mapVote.map Prod.fst).map fun d => max (delegateTally blocks d) 0 := by
    rw [List.map_map]
    exact List.map_congr_left fun v hv => by rw [Function.comp_apply, hvote v hv]
  rw [hmap, ← List.sum_toFinset _ hkeys]
  exact sum_delegateTally_le_moneySupply genesis blocks hm hc _

theorem moneySupply_nonneg
    (hm : ChainMatches crypto (fun _ => none) (genesis :: blocks))
    (hc : ChainChecked (CTransaction.getHash crypto) (fun _ => none) (genesis :: blocks)) :
    0 ≤ moneySupply ((genesis :: blocks).map CBlockEx.toCBlock) := by
  simpa using sum_delegateTally_le_moneySupply genesis blocks hm hc ∅

theorem getBlockDelegateEnrolled_totalWeight_le
    (hm : ChainMatches crypto (fun _ => none) (genesis :: blocks))
    (hc : ChainChecked (CTransaction.getHash crypto) (fun _ => none) (genesis :: blocks))
    {mapVote : List (CDestination × Int)} (hvote : ∀ v ∈ mapVote, v.2 = delegateTally blocks v.1)
    (hkeys : (mapVote.map Prod.fst).Nodup) {nHeight : Int}
    {mapEnrollTxPos : CDestination → Option CDiskPos} {readTx : CDiskPos → Option CTransaction}
    {enrolled : CDelegateEnrolled}
    (h : getBlockDelegateEnrolled (moneySupply ((genesis :: blocks).map CBlockEx.toCBlock)) nHeight mapVote
      mapEnrollTxPos readTx = some enrolled) :
    (enrolled.totalWeight : Int) ≤ DELEGATE_THRESH := by
  have hS := moneySupply_nonneg hm hc
  have hvotes := sum_max_votes_le_moneySupply hm hc hvote hkeys
  have hcover := le_mul_weightRatio hS
  dsimp only [getBlockDelegateEnrolled] at h
  split_ifs at h
  · -- before the first enrolment interval nobody is enrolled
    cases h
    simp [CDelegateEnrolled.totalWeight, DELEGATE_THRESH]
  · set r := (moneySupply ((genesis :: blocks).map CBlockEx.toCBlock) + DELEGATE_THRESH - 1).tdiv
      DELEGATE_THRESH
    have hr : 0 ≤ r := Int.tdiv_nonneg (by unfold DELEGATE_THRESH; omega) (by decide)
    obtain ⟨hrun, hzero⟩ := foldlM_availDelegate_mapWeight hr mapVote h
    rcases hr.eq_or_lt with h0 | hpos
    · -- a zero ratio gives no weight
      rw [CDelegateEnrolled.totalWeight, hzero h0.symm]
      simp [DELEGATE_THRESH]
    · -- the ratio times the weights is at most the votes, the supply, and `DELEGATE_THRESH` ratios
      have hempty : (({ mapWeight := [], mapEnrollData := [] } : CDelegateEnrolled).totalWeight : Int) = 0 :=
        rfl
      rw [hempty, Int.mul_zero, Int.zero_add] at hrun
      have hmul : r * enrolled.totalWeight ≤ r * DELEGATE_THRESH := by
        rw [Int.mul_comm r DELEGATE_THRESH]
        omega
      exact Int.le_of_mul_le_mul_left hmul hpos

/-- On a chain `AddNewBlock` accepts, the weights `GetBlockDelegateEnrolled`
gives the delegates of its last block sum to at most `DELEGATE_THRESH`. In an
MPVSS session of any node whose candidates are some of these delegates with
their weights, `Enroll` ends below index 51 with `nThresh` at most 26, and in
every state of the session each entry of `naturalPowTable` that
`PrecalcPolynomial` and `Polynomial` read and each entry of `SCInverse` that
`MPNewton` reads is inside its table. -/
theorem getBlockDelegateEnrolled_session_reads_inTables
    (hm : ChainMatches crypto (fun _ => none) (genesis :: blocks))
    (hc : ChainChecked (CTransaction.getHash crypto) (fun _ => none) (genesis :: blocks))
    (mapVote : List (CDestination × Int)) (hvote : ∀ v ∈ mapVote, v.2 = delegateTally blocks v.1)
    (hkeys : (mapVote.map Prod.fst).Nodup) (nHeight : Int)
    (mapEnrollTxPos : CDestination → Option CDiskPos) (readTx : CDiskPos → Option CTransaction)
    (enrolled : CDelegateEnrolled)
    (h : getBlockDelegateEnrolled (moneySupply ((genesis :: blocks).map CBlockEx.toCBlock)) nHeight mapVote
      mapEnrollTxPos readTx = some enrolled)
    (ident : CDestination → Nat) (vCandidate : List (Nat × Nat))
    (hcand : vCandidate.Sublist (enrolled.mapWeight.map fun w => (ident w.1, w.2)))
    (candidateVerify : Nat → Bool) (f : Nat → Nat → SC25519) (nIdent : Nat) (s : CMPSecretShare)
    (hs : SessionReachable candidateVerify f nIdent vCandidate s) :
    (enrolled.totalWeight : Int) ≤ DELEGATE_THRESH ∧
      (empty nIdent).enrollLastIndex candidateVerify vCandidate ≤ 51 ∧ s.nThresh ≤ 26 ∧
      (∀ e ∈ precalcPolynomialReads s.nThresh ((empty nIdent).enrollLastIndex candidateVerify vCandidate),
        InPowTable e) ∧
      (∀ e ∈ rangeReads s.nThresh (s.nIndex, s.nWeight), InPowTable e) ∧
      (∀ nIdentIn r, s.mapParticipant nIdentIn = some r → ∀ e ∈ rangeReads s.nThresh r, InPowTable e) ∧
      ∀ nIdentIn, ∀ k ∈ newtonReads (s.mapOpenedShare nIdentIn), InInverseTable k := by
  have hw := getBlockDelegateEnrolled_totalWeight_le hm hc hvote hkeys h
  have hsub : (vCandidate.map Prod.snd).sum ≤ enrolled.totalWeight := by
    have hmap : (enrolled.mapWeight.map fun w => (ident w.1, w.2)).map Prod.snd =
        enrolled.mapWeight.map Prod.snd := by
      rw [List.map_map]
      rfl
    have hle := (hcand.map Prod.snd).sum_le_sum fun _ _ => Nat.zero_le _
    rwa [hmap] at hle
  have hw50 : (vCandidate.map Prod.snd).sum ≤ 50 := by
    unfold DELEGATE_THRESH at hw
    omega
  exact ⟨hw, hs.reads_inTables hw50⟩

/-- One delegate holds the whole money supply of a two-block chain: it gets the
full weight 50, a node enrolling it hands out the indices 1 to 50 with
`nThresh` 26, and after collecting its 50 shares the node keeps 26 of them. -/
theorem getBlockDelegateEnrolled_session_reads_inTables_of_full_weight :
    let mint : CTransaction := ⟨1, CTransaction.TX_GENESIS, 0, 0, 0, [], .ofPubKey 1, 100, 0, [], []⟩
    let genesis : CBlockEx := ⟨⟨1, CBlock.BLOCK_GENESIS, 0, 0, 0, [], mint, [], []⟩, []⟩
    let tx : CTransaction :=
      ⟨1, CTransaction.TX_TOKEN, 1, 0, 0, [⟨⟨0, 0⟩⟩], .ofTemplateId 5, 100, 0, [], []⟩
    let block : CBlockEx := ⟨⟨1, CBlock.BLOCK_PRIMARY, 1, 0, 0, [], CTransaction.null, [tx], []⟩,
      [⟨.ofPubKey 1, [⟨100, 0, 0⟩]⟩]⟩
    let f : Nat → Nat → SC25519 := fun _ x => x
    let s := (empty 0).enroll (fun _ => true) [(5, 50)]
    let mapShare := [(5, (List.range 50).map fun i => f 5 (1 + i))]
    getBlockDelegateEnrolled (moneySupply [genesis.toCBlock, block.toCBlock]) 30 [(.ofTemplateId 5, 100)]
        (fun d => if d = .ofTemplateId 5 then some ⟨0, 0⟩ else none) (fun _ => some tx) =
        some ⟨[(.ofTemplateId 5, 50)], [(.ofTemplateId 5, [])]⟩ ∧
      (empty 0).enrollLastIndex (fun _ => true) [(5, 50)] = 51 ∧
      ∃ s', s.collect f 5 mapShare = some (s', true) ∧ s'.nThresh = 26 ∧
        (s'.mapOpenedShare 5).length = 26 ∧ ∀ k ∈ newtonReads (s'.mapOpenedShare 5), InInverseTable k := by
  intro mint genesis tx block f s mapShare
  let crypto : Crypto := ⟨fun _ => 0, fun _ _ _ => false, fun _ _ _ _ => none⟩
  have hm : ChainMatches crypto (fun _ => none) [genesis, block] := by
    have hg : blockTxs genesis = [(mint, CTxContxt.null)] := by decide
    have hb : blockTxs block = [(tx, ⟨.ofPubKey 1, [⟨100, 0, 0⟩]⟩)] := by decide
    simp only [ChainMatches, hg, hb, ContxtsMatch]
    decide
  have hc : ChainChecked (CTransaction.getHash crypto) (fun _ => none) [genesis, block] := by
    have htx : TxChecked (replayTx (CTransaction.getHash crypto)
        (replayBlock (CTransaction.getHash crypto) (fun _ => none) genesis.toCBlock) CTransaction.null) tx := by
      refine ⟨fun k hk => ⟨⟨.ofPubKey 1, 100, 0, 0⟩, ?_⟩, by decide, by decide, by decide⟩
      rw [List.mem_singleton.mp hk]
      decide
    exact ⟨rfl, by decide, trivial, rfl, le_rfl, ⟨htx, trivial⟩, trivial⟩
  have henrolled : getBlockDelegateEnrolled (moneySupply [genesis.toCBlock, block.toCBlock]) 30
      [(.ofTemplateId 5, 100)] (fun d => if d = .ofTemplateId 5 then some ⟨0, 0⟩ else none) (fun _ => some tx) =
      some ⟨[(.ofTemplateId 5, 50)], [(.ofTemplateId 5, [])]⟩ := by decide
  have hsome : (s.collect f 5 mapShare).isSome := by decide
  obtain ⟨⟨s', fCompleted⟩, hcol⟩ := Option.isSome_iff_exists.mp hsome
  have hview : (s.collect f 5 mapShare).map (fun r => (r.2, r.1.nThresh, (r.1.mapOpenedShare 5).length)) =
      some (true, 26, 26) := by decide
  rw [hcol] at hview
  simp only [Option.map_some, Option.some.injEq, Prod.mk.injEq] at hview
  obtain ⟨rfl, hthresh, hlen⟩ := hview
  have hreads := getBlockDelegateEnrolled_session_reads_inTables hm hc [(.ofTemplateId 5, 100)] (by decide)
    (by decide) 30 _ _ _ henrolled CDestination.data [(5, 50)] (List.Sublist.refl _) (fun _ => true) f 0 s'
    (.collect .enroll hcol)
  exact ⟨henrolled, by decide, s', hcol, hthresh, hlen, hreads.2.2.2.2.2.2 5⟩

end Chain

end Multiverse.WorldLine
