import Multiverse.Lib.SortedMap
import Multiverse.Core.Consensus

/-! # The delegate votes of the consensus

`CMvDelegate` of `delegate/mvdelegate.cpp` keeps one `CMvDelegateVote` per
target height. `Evolve` at block height `h` sets up the vote of target
`h + MV_CONSENSUS_INTERVAL`, enrols and distributes in the vote of target
`h + MV_CONSENSUS_DISTRIBUTE_INTERVAL + 1`, and publishes the vote of target
`h + 1`. `Rollback(from, to)` drops votes when the blocks above `to`, up to
`from`, leave the primary chain: every target above `to + MV_CONSENSUS_INTERVAL`,
the targets above `to + MV_CONSENSUS_DISTRIBUTE_INTERVAL` up to
`from + MV_CONSENSUS_DISTRIBUTE_INTERVAL`, those above `to + 1` up to
`from + 1`, and `from + 1`.

What a vote does at each step (the secret sharing of `CMvDelegateVote`)
enters as `VoteSteps`: the results below hold for every vote.

A vote of target `T` is set up at height `T - 46`, enrolled at `T - 16` and
published at `T - 1`, but the enrolment range of `Rollback` is the targets
`to + 16` to `from + 15`: the vote enrolled at `to`, whose block stays, goes,
and the vote enrolled at `from`, whose block leaves, stays unless the first
range takes it.
-/

namespace Multiverse.Delegate

/-- The steps of a `CMvDelegateVote` that `Evolve` takes: a new vote,
`CreateDelegate` with `Setup`, `Enroll` with `Distribute` on a block's
enrolled weights, and `Publish`; each step reports its data. -/
structure VoteSteps (V W D : Type) where
  create : V
  setup : List CDestination → V → V × D
  enroll : W → V → V × D
  publish : V → V × D

structure CMvDelegateEvolveResult (D : Type) where
  mapEnrollData : D
  mapDistributeData : Option D
  mapPublishData : Option D

structure CMvDelegate (V : Type) where
  setDelegate : List CDestination
  mapVote : SortedMap Int V

namespace CMvDelegate

variable {V W D : Type} (steps : VoteSteps V W D)

/-- `mapVote.find(nTarget)` and, when there is a vote, one step on it. -/
def stepAt (mapVote : SortedMap Int V) (nTarget : Int) (f : V → V × D) :
    SortedMap Int V × Option D :=
  match mapVote.find nTarget with
  | some vote => (mapVote.insert nTarget (f vote).1, some (f vote).2)
  | none => (mapVote, none)

/-- `Evolve(nBlockHeight, mapWeight, mapEnrollData, result)`. -/
def evolve (d : CMvDelegate V) (nBlockHeight : Int) (enrolled : W) :
    CMvDelegate V × CMvDelegateEvolveResult D :=
  let nTarget := nBlockHeight + MV_CONSENSUS_INTERVAL
  let nEnrollEnd := nBlockHeight + Multiverse.MV_CONSENSUS_DISTRIBUTE_INTERVAL + 1
  let nPublish := nBlockHeight + 1
  -- `mapVote[nTarget]` makes the vote when there is none
  let setup := steps.setup d.setDelegate ((d.mapVote.find nTarget).getD steps.create)
  let enroll := stepAt (d.mapVote.insert nTarget setup.1) nEnrollEnd (steps.enroll enrolled)
  let publish := stepAt enroll.1 nPublish steps.publish
  ({ d with mapVote := publish.1 }, ⟨setup.2, enroll.2, publish.2⟩)

/-- `Rollback(nBlockHeightFrom, nBlockHeightTo)`. -/
def rollback (d : CMvDelegate V) (nBlockHeightFrom nBlockHeightTo : Int) : CMvDelegate V :=
  let mapVote := d.mapVote.eraseAbove (nBlockHeightTo + MV_CONSENSUS_INTERVAL)
  let mapVote := mapVote.eraseRange (nBlockHeightTo + Multiverse.MV_CONSENSUS_DISTRIBUTE_INTERVAL)
    (nBlockHeightFrom + Multiverse.MV_CONSENSUS_DISTRIBUTE_INTERVAL)
  let mapVote := mapVote.eraseRange (nBlockHeightTo + 1) (nBlockHeightFrom + 1)
  { d with mapVote := mapVote.erase (nBlockHeightFrom + 1) }

/-- `Evolve` at each of the heights in turn, with each block's enrolled weights. -/
def evolveRun (d : CMvDelegate V) (heights : List Int) (enrolled : Int → W) : CMvDelegate V :=
  heights.foldl (fun d h => (d.evolve steps h (enrolled h)).1) d

theorem find_stepAt (mapVote : SortedMap Int V) (nTarget : Int) (f : V → V × D) (k : Int) :
    (stepAt mapVote nTarget f).1.find k =
      if k = nTarget then (mapVote.find k).map fun vote => (f vote).1 else mapVote.find k := by
  unfold stepAt
  cases h : mapVote.find nTarget with
  | none =>
    split_ifs with hk
    · rw [hk, h]
      rfl
    · rfl
  | some vote =>
    split_ifs with hk
    · simp [hk, h]
    · simp [hk]

theorem interval_eq : (MV_CONSENSUS_INTERVAL : Int) = 46 := rfl

theorem distribute_interval_eq : (Multiverse.MV_CONSENSUS_DISTRIBUTE_INTERVAL : Int) = 15 := rfl

theorem find_evolve_of_ne (d : CMvDelegate V) (h : Int) (w : W) {k : Int}
    (h0 : k ≠ h + MV_CONSENSUS_INTERVAL) (h1 : k ≠ h + Multiverse.MV_CONSENSUS_DISTRIBUTE_INTERVAL + 1)
    (h2 : k ≠ h + 1) : (d.evolve steps h w).1.mapVote.find k = d.mapVote.find k := by
  simp only [evolve, find_stepAt, SortedMap.find_insert, h0, h1, h2, if_false]

theorem find_evolve_enroll (d : CMvDelegate V) (h : Int) (w : W) :
    (d.evolve steps h w).1.mapVote.find (h + Multiverse.MV_CONSENSUS_DISTRIBUTE_INTERVAL + 1) =
      (d.mapVote.find (h + Multiverse.MV_CONSENSUS_DISTRIBUTE_INTERVAL + 1)).map fun v => (steps.enroll w v).1 := by
  have h0 : h + (Multiverse.MV_CONSENSUS_DISTRIBUTE_INTERVAL : Int) + 1 ≠ h + MV_CONSENSUS_INTERVAL := by
    rw [interval_eq, distribute_interval_eq]
    omega
  have h2 : h + (Multiverse.MV_CONSENSUS_DISTRIBUTE_INTERVAL : Int) + 1 ≠ h + 1 := by
    rw [distribute_interval_eq]
    omega
  simp only [evolve, find_stepAt, SortedMap.find_insert, h0, h2, if_true, if_false]

theorem isSome_find_evolve (d : CMvDelegate V) (h : Int) (w : W) (k : Int) :
    ((d.evolve steps h w).1.mapVote.find k).isSome =
      (decide (k = h + MV_CONSENSUS_INTERVAL) || (d.mapVote.find k).isSome) := by
  simp only [evolve, find_stepAt, SortedMap.find_insert]
  split_ifs <;> simp_all

theorem isSome_find_evolveRun (d : CMvDelegate V) (heights : List Int) (enrolled : Int → W)
    (k : Int) : ((d.evolveRun steps heights enrolled).mapVote.find k).isSome ↔
      (∃ h ∈ heights, k = h + MV_CONSENSUS_INTERVAL) ∨ (d.mapVote.find k).isSome := by
  induction heights generalizing d with
  | nil => simp [evolveRun]
  | cons h hs ih =>
    rw [evolveRun, List.foldl_cons, ← evolveRun, ih, isSome_find_evolve]
    simp only [Bool.or_eq_true, decide_eq_true_eq, List.mem_cons, exists_eq_or_imp]
    rw [or_left_comm, ← or_assoc]

theorem evolveRun_append (d : CMvDelegate V) (hs hs' : List Int) (enrolled : Int → W) :
    d.evolveRun steps (hs ++ hs') enrolled = (d.evolveRun steps hs enrolled).evolveRun steps hs' enrolled := by
  simp [evolveRun, List.foldl_append]

theorem find_rollback (d : CMvDelegate V) (nFrom nTo k : Int) :
    (d.rollback nFrom nTo).mapVote.find k =
      if k ≤ nTo + MV_CONSENSUS_INTERVAL ∧
          ¬(nTo + Multiverse.MV_CONSENSUS_DISTRIBUTE_INTERVAL < k ∧ k ≤ nFrom + Multiverse.MV_CONSENSUS_DISTRIBUTE_INTERVAL) ∧
          ¬(nTo + 1 < k ∧ k ≤ nFrom + 1) ∧ k ≠ nFrom + 1 then d.mapVote.find k
      else none := by
  simp only [rollback, SortedMap.find_erase, SortedMap.find_eraseRange, SortedMap.find_eraseAbove]
  split_ifs <;> simp_all

theorem rollback_keeps_enrolled_at_from (d : CMvDelegate V) {nFrom nTo : Int} (hlt : nTo < nFrom)
    (hle : nFrom ≤ nTo + 30) :
    (d.rollback nFrom nTo).mapVote.find (nFrom + Multiverse.MV_CONSENSUS_DISTRIBUTE_INTERVAL + 1) =
      d.mapVote.find (nFrom + Multiverse.MV_CONSENSUS_DISTRIBUTE_INTERVAL + 1) := by
  rw [find_rollback, if_pos (by rw [interval_eq, distribute_interval_eq]; omega)]

theorem rollback_drops_enrolled_at_to (d : CMvDelegate V) {nFrom nTo : Int} (hlt : nTo < nFrom) :
    (d.rollback nFrom nTo).mapVote.find (nTo + Multiverse.MV_CONSENSUS_DISTRIBUTE_INTERVAL + 1) = none := by
  rw [find_rollback, if_neg (by rw [interval_eq, distribute_interval_eq]; omega)]

/-- Whatever the votes do: after `Evolve` at the heights 0 to 60 and
`Rollback(60, 59)`, the vote of target 76, which `Evolve` at the rolled-back
height 60 enrolled with that block's weights, stays; the vote of target 75,
set up at height 29 and enrolled at height 59, neither of them rolled back,
is dropped. -/
theorem rollback_keeps_vote_enrolled_by_removed_block (setDelegate : List CDestination)
    (enrolled : Int → W) :
    let d := (CMvDelegate.mk setDelegate SortedMap.empty).evolveRun steps
      ((List.range 61).map Int.ofNat) enrolled
    let d' := d.rollback 60 59
    (∃ v, d'.mapVote.find 76 = some (steps.enroll (enrolled 60) v).1) ∧
      (d.mapVote.find 75).isSome ∧ d'.mapVote.find 75 = none := by
  intro d d'
  let d60 := (CMvDelegate.mk setDelegate SortedMap.empty).evolveRun steps
    ((List.range 60).map Int.ofNat) enrolled
  have hd : d = (d60.evolve steps 60 (enrolled 60)).1 := by
    simp only [d, d60, List.range_succ, List.map_append, evolveRun_append]
    rfl
  have h76 : (d60.mapVote.find 76).isSome := by
    rw [isSome_find_evolveRun]
    exact .inl ⟨30, List.mem_map.mpr ⟨30, List.mem_range.mpr (by omega), rfl⟩, by rw [interval_eq]; rfl⟩
  obtain ⟨v, hv⟩ := Option.isSome_iff_exists.mp h76
  have e76 : (76 : Int) = 60 + Multiverse.MV_CONSENSUS_DISTRIBUTE_INTERVAL + 1 := by
    rw [distribute_interval_eq]
    rfl
  have e75 : (75 : Int) = 59 + Multiverse.MV_CONSENSUS_DISTRIBUTE_INTERVAL + 1 := by
    rw [distribute_interval_eq]
    rfl
  have henroll : d.mapVote.find 76 = some (steps.enroll (enrolled 60) v).1 := by
    rw [hd, e76, find_evolve_enroll, ← e76, hv]
    rfl
  refine ⟨⟨v, ?_⟩, ?_, ?_⟩
  · rw [e76, rollback_keeps_enrolled_at_from d (by omega) (by omega), ← e76, henroll]
  · rw [isSome_find_evolveRun]
    exact .inl ⟨29, List.mem_map.mpr ⟨29, List.mem_range.mpr (by omega), rfl⟩, by rw [interval_eq]; rfl⟩
  · rw [e75]
    exact rollback_drops_enrolled_at_to d (by omega)

end CMvDelegate

end Multiverse.Delegate
