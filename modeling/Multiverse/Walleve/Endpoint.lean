import Multiverse.Lib.SlotRing

/-! # Connection attempts of the peer net

`CConnAttempt` of `walleve/peernet/epmngr.cpp` counts the inbound connection
attempts of an address in `COUNTER_NUM` slots of `COUNTER_INTERVAL` seconds: a
ring read from `nStartIndex`, whose first slot starts at `nStartTime`, with the
total in `nAttempts`. `Attempt(ts)` moves the window on, slot by slot, until
`ts` falls in its last slot, or restarts it at `ts` after a gap of two
windows; it records the attempt and accepts it while the window holds at most
`ATTEMPT_LIMIT` attempts.

The constructor leaves `arrayAttempt` as memory held it; an attempt at a time
two windows past `nStartTime = 0`, as every time of the clock is, restarts the
window. On every run of attempts in time order `Attempt(ts)` accepts exactly
when the attempts from the new `nStartTime` to `ts`, this one included, are at
most `ATTEMPT_LIMIT`, and the window starts less than `COUNTER_NUM` slots
before `ts` (`attempt_iff_window`).
-/

namespace Multiverse.Walleve

def ATTEMPT_LIMIT : Int := 8

def COUNTER_INTERVAL : Int := 10

def COUNTER_NUM : Nat := 8

instance : NeZero COUNTER_NUM := ⟨by decide⟩

theorem COUNTER_NUM_eq : COUNTER_NUM = 8 := rfl

theorem COUNTER_INTERVAL_eq : COUNTER_INTERVAL = 10 := rfl

/-- `x & COUNTER_MASK`: of a two's complement integer, its remainder modulo
`COUNTER_NUM`. -/
def maskIndex (x : Int) : Fin COUNTER_NUM := ⟨(x % COUNTER_NUM).toNat, by unfold COUNTER_NUM; omega⟩

structure CConnAttempt where
  arrayAttempt : Fin COUNTER_NUM → Int
  nAttempts : Int
  nStartIndex : Fin COUNTER_NUM
  nStartTime : Int

namespace CConnAttempt

/-- `CConnAttempt()`: `arrayAttempt` is not initialised. -/
def init (arrayAttempt : Fin COUNTER_NUM → Int) : CConnAttempt := ⟨arrayAttempt, 0, 0, 0⟩

/-- The body of the loop of `Attempt`: the oldest slot leaves the window. -/
def dropOldest (c : CConnAttempt) : CConnAttempt where
  arrayAttempt := Function.update c.arrayAttempt c.nStartIndex 0
  nAttempts := c.nAttempts - c.arrayAttempt c.nStartIndex
  nStartIndex := maskIndex (c.nStartIndex + 1)
  nStartTime := c.nStartTime + COUNTER_INTERVAL

/-- `while (offset >= COUNTER_NUM)`: the state and the offset it leaves. -/
def advance (c : CConnAttempt) (offset : Int) : CConnAttempt × Int :=
  if offset ≥ COUNTER_NUM then advance c.dropOldest (offset - 1) else (c, offset)
termination_by offset.toNat
decreasing_by unfold COUNTER_NUM at *; omega

/-- `Attempt(ts)`: the state, and whether the attempt is accepted. -/
def attempt (c : CConnAttempt) (ts : Int) : CConnAttempt × Bool :=
  let offset := (ts - c.nStartTime).tdiv COUNTER_INTERVAL
  if offset ≥ COUNTER_NUM * 2 then
    (⟨fun i => if i = 0 then 1 else 0, 1, 0, ts⟩, true)
  else
    let r := c.advance offset
    let i := maskIndex (r.1.nStartIndex + r.2)
    let c : CConnAttempt :=
      { r.1 with
        arrayAttempt := Function.update r.1.arrayAttempt i (r.1.arrayAttempt i + 1)
        nAttempts := r.1.nAttempts + 1 }
    (c, decide (c.nAttempts ≤ ATTEMPT_LIMIT))

/-- The attempts at the times `tss`, in turn. -/
def attempts (c : CConnAttempt) (tss : List Int) : CConnAttempt := tss.foldl (fun c ts => (c.attempt ts).1) c

/-! ## The window counts the attempts -/

open SlotRing

/-- The slots of `c` count the attempts at the times of `hist`, and
`nAttempts` those of the window. -/
structure Tracks (c : CConnAttempt) (hist : List Int) : Prop where
  ring : SlotRing.Tracks c.arrayAttempt c.nStartIndex c.nStartTime COUNTER_INTERVAL hist
  count : c.nAttempts = windowCount hist c.nStartTime

theorem maskIndex_add (s : Fin COUNTER_NUM) {k : Int} (h0 : 0 ≤ k) (h8 : k < COUNTER_NUM) :
    maskIndex (s.val + k) = s + maskIndex k := by
  ext
  have hs : s.val < 8 := s.isLt
  have h8 : k < 8 := h8
  rw [Fin.val_add]
  show ((s.val + k) % (8 : Nat)).toNat = (s.val + (k % (8 : Nat)).toNat) % 8
  omega

theorem maskIndex_of_lt {k : Int} (h0 : 0 ≤ k) (h8 : k < COUNTER_NUM) : (maskIndex k).val = k := by
  have h8 : k < 8 := h8
  show (((k % (8 : Nat)).toNat : Nat) : Int) = k
  omega

theorem Tracks.dropOldest {c : CConnAttempt} {hist : List Int} (h : c.Tracks hist) : c.dropOldest.Tracks hist := by
  have hrot := h.ring.rotate (by decide)
  have hone : maskIndex (c.nStartIndex + 1) = c.nStartIndex + 1 := by
    rw [maskIndex_add c.nStartIndex (by decide) (by decide)]
    rfl
  refine ⟨by rw [CConnAttempt.dropOldest, hone]; exact hrot, ?_⟩
  have hfirst := h.ring.bucket 0
  rw [add_zero, Fin.val_zero, Nat.cast_zero, mul_zero, add_zero] at hfirst
  show c.nAttempts - c.arrayAttempt c.nStartIndex = windowCount hist (c.nStartTime + COUNTER_INTERVAL)
  rw [h.count, hfirst, windowCount_eq hist c.nStartTime COUNTER_INTERVAL (by decide)]
  push_cast
  ring

theorem Tracks.advance {c : CConnAttempt} {hist : List Int} (h : c.Tracks hist) (offset : Int) :
    (c.advance offset).1.Tracks hist ∧ (c.advance offset).2 = min offset (COUNTER_NUM - 1) ∧
      (c.advance offset).1.nStartTime = c.nStartTime + COUNTER_INTERVAL * (offset - min offset (COUNTER_NUM - 1)) := by
  induction c, offset using CConnAttempt.advance.induct generalizing hist with
  | case1 c offset hge ih =>
    rw [CConnAttempt.advance, if_pos hge]
    obtain ⟨ht, hoff, htime⟩ := ih h.dropOldest
    have hstart : c.dropOldest.nStartTime = c.nStartTime + COUNTER_INTERVAL := rfl
    simp only [COUNTER_NUM_eq, COUNTER_INTERVAL_eq] at hge hoff htime hstart ⊢
    refine ⟨ht, by omega, by omega⟩
  | case2 c offset hlt =>
    rw [CConnAttempt.advance, if_neg hlt]
    simp only [COUNTER_NUM_eq, COUNTER_INTERVAL_eq] at hlt ⊢
    refine ⟨h, by omega, by omega⟩

/-- The window `Attempt` starts at `ts` after a gap of two windows. -/
def restart (ts : Int) : CConnAttempt := ⟨fun i => if i = 0 then 1 else 0, 1, 0, ts⟩

theorem attempt_of_gap (c : CConnAttempt) {ts : Int}
    (hgap : (COUNTER_NUM * 2 : Int) * COUNTER_INTERVAL ≤ ts - c.nStartTime) :
    c.attempt ts = (restart ts, true) := by
  have hoff : (COUNTER_NUM * 2 : Int) ≤ (ts - c.nStartTime).tdiv COUNTER_INTERVAL := by
    rw [Int.tdiv_eq_ediv_of_nonneg (by simp only [COUNTER_NUM_eq, COUNTER_INTERVAL_eq] at hgap; omega)]
    simp only [COUNTER_NUM_eq, COUNTER_INTERVAL_eq] at hgap ⊢
    omega
  unfold CConnAttempt.attempt
  rw [if_pos hoff]
  rfl

theorem restart_tracks {hist : List Int} {ts : Int} (hbefore : ∀ t ∈ hist, t < ts) :
    (restart ts).Tracks (hist ++ [ts]) := by
  refine ⟨SlotRing.Tracks.reset (by decide) hbefore, ?_⟩
  show (1 : Int) = windowCount (hist ++ [ts]) ts
  rw [windowCount_append_singleton, windowCount_eq_zero hbefore, if_pos le_rfl]
  rfl

theorem Tracks.attempt {c : CConnAttempt} {hist : List Int} (h : c.Tracks hist) {ts : Int}
    (hstart : c.nStartTime ≤ ts) :
    (c.attempt ts).1.Tracks (hist ++ [ts]) ∧ (c.attempt ts).1.nStartTime ≤ ts ∧
      ts < (c.attempt ts).1.nStartTime + COUNTER_NUM * COUNTER_INTERVAL ∧
      ((c.attempt ts).2 = true ↔ (windowCount (hist ++ [ts]) (c.attempt ts).1.nStartTime : Int) ≤ ATTEMPT_LIMIT) := by
  by_cases hgap : (COUNTER_NUM * 2 : Int) * COUNTER_INTERVAL ≤ ts - c.nStartTime
  · -- the window restarts at `ts`, after every attempt of `hist`
    have hbefore : ∀ t ∈ hist, t < ts := fun t ht => by
      have := h.ring.bound t ht
      simp only [COUNTER_NUM_eq, COUNTER_INTERVAL_eq] at this hgap
      omega
    have hone : windowCount (hist ++ [ts]) ts = 1 := by
      rw [windowCount_append_singleton, windowCount_eq_zero hbefore, if_pos le_rfl]
    rw [attempt_of_gap c hgap]
    refine ⟨restart_tracks hbefore, le_rfl, ?_, ?_⟩
    · show ts < ts + (COUNTER_NUM : Int) * COUNTER_INTERVAL
      simp only [COUNTER_NUM_eq, COUNTER_INTERVAL_eq]
      omega
    · show true = true ↔ (windowCount (hist ++ [ts]) ts : Int) ≤ ATTEMPT_LIMIT
      rw [hone]
      decide
  · have hoff : (ts - c.nStartTime).tdiv COUNTER_INTERVAL = (ts - c.nStartTime) / 10 :=
      Int.tdiv_eq_ediv_of_nonneg (by omega)
    obtain ⟨ht, hoff', htime⟩ := h.advance ((ts - c.nStartTime) / 10)
    simp only [COUNTER_NUM_eq, COUNTER_INTERVAL_eq] at hgap hoff' htime
    set r := c.advance ((ts - c.nStartTime) / 10)
    have h0 : 0 ≤ r.2 := by omega
    have h8 : r.2 < COUNTER_NUM := by rw [COUNTER_NUM_eq]; omega
    have hlo : r.1.nStartTime + COUNTER_INTERVAL * (maskIndex r.2).val ≤ ts := by
      rw [maskIndex_of_lt h0 h8, COUNTER_INTERVAL_eq]
      omega
    have hhi : ts < r.1.nStartTime + COUNTER_INTERVAL * (maskIndex r.2).val + COUNTER_INTERVAL := by
      rw [maskIndex_of_lt h0 h8, COUNTER_INTERVAL_eq]
      omega
    have hrec := ht.ring.record (by decide) (maskIndex r.2) hlo hhi
    have hcount : r.1.nAttempts + 1 = windowCount (hist ++ [ts]) r.1.nStartTime := by
      rw [windowCount_append_singleton, if_pos (by omega), ht.count]
      push_cast
      rfl
    have heq : c.attempt ts = ({ r.1 with
        arrayAttempt := Function.update r.1.arrayAttempt (r.1.nStartIndex + maskIndex r.2)
          (r.1.arrayAttempt (r.1.nStartIndex + maskIndex r.2) + 1)
        nAttempts := r.1.nAttempts + 1 }, decide (r.1.nAttempts + 1 ≤ ATTEMPT_LIMIT)) := by
      unfold CConnAttempt.attempt
      dsimp only
      rw [if_neg (by rw [hoff]; simp only [COUNTER_NUM_eq]; omega), hoff,
        maskIndex_add r.1.nStartIndex h0 h8]
    rw [heq]
    refine ⟨⟨hrec, hcount⟩, by dsimp only; omega, ?_, ?_⟩
    · show ts < r.1.nStartTime + (COUNTER_NUM : Int) * COUNTER_INTERVAL
      simp only [COUNTER_NUM_eq, COUNTER_INTERVAL_eq]
      omega
    · rw [decide_eq_true_iff]
      dsimp only
      rw [hcount]

theorem Tracks.attempts {c : CConnAttempt} {hist : List Int} (h : c.Tracks hist)
    (hin : ∃ t ∈ hist, c.nStartTime ≤ t) {tss : List Int} (hsorted : (hist ++ tss).Pairwise (· ≤ ·)) :
    (c.attempts tss).Tracks (hist ++ tss) ∧ ∃ t ∈ hist ++ tss, (c.attempts tss).nStartTime ≤ t := by
  induction tss generalizing c hist with
  | nil => simpa [CConnAttempt.attempts] using ⟨h, hin⟩
  | cons ts tss ih =>
    obtain ⟨t₀, ht₀, hle⟩ := hin
    have hlate : ∀ t ∈ hist, t ≤ ts := fun t ht =>
      (List.pairwise_append.mp hsorted).2.2 t ht ts List.mem_cons_self
    obtain ⟨ht, hs, -, -⟩ := h.attempt (le_trans hle (hlate t₀ ht₀))
    have happ : hist ++ [ts] ++ tss = hist ++ ts :: tss := by simp
    rw [← happ] at hsorted ⊢
    exact ih ht ⟨ts, by simp, hs⟩ hsorted

/-- On every run of attempts in time order, at times of the clock, `Attempt(ts)`
accepts exactly when at most `ATTEMPT_LIMIT` attempts, this one included, fall
in the window from the new `nStartTime` to `ts`, and the window starts less
than `COUNTER_NUM` slots before `ts`. -/
theorem attempt_iff_window (arrayAttempt : Fin COUNTER_NUM → Int) (p : List Int) (ts : Int)
    (hsorted : (p ++ [ts]).Pairwise (· ≤ ·))
    (hclock : ∀ t ∈ p ++ [ts], (COUNTER_NUM * 2 : Int) * COUNTER_INTERVAL ≤ t) :
    let r : CConnAttempt × Bool := ((init arrayAttempt).attempts p).attempt ts
    (r.2 = true ↔ (((p ++ [ts]).countP fun t => r.1.nStartTime ≤ t : Nat) : Int) ≤ ATTEMPT_LIMIT) ∧
      r.1.nStartTime ≤ ts ∧ ts < r.1.nStartTime + COUNTER_NUM * COUNTER_INTERVAL := by
  intro r
  -- the first attempt restarts the window the constructor left
  have hfirst : ∀ t₀ ∈ p ++ [ts], (init arrayAttempt).attempt t₀ = (restart t₀, true) := fun t₀ ht₀ =>
    attempt_of_gap _ (by simpa [init] using hclock t₀ ht₀)
  cases p with
  | nil =>
    have hr : r = (restart ts, true) := hfirst ts (by simp)
    rw [hr]
    refine ⟨?_, le_rfl, ?_⟩
    · show true = true ↔ (([ts].countP fun t => ts ≤ t : Nat) : Int) ≤ ATTEMPT_LIMIT
      simp [ATTEMPT_LIMIT]
    · show ts < ts + (COUNTER_NUM : Int) * COUNTER_INTERVAL
      simp only [COUNTER_NUM_eq, COUNTER_INTERVAL_eq]
      omega
  | cons t₀ p =>
    have hstate : (init arrayAttempt).attempts (t₀ :: p) = (restart t₀).attempts p := by
      simp only [attempts, List.foldl_cons, hfirst t₀ (by simp)]
    have htr : (restart t₀).Tracks ([] ++ [t₀]) := restart_tracks (by simp)
    have hsorted' : ([t₀] ++ p).Pairwise (· ≤ ·) := hsorted.sublist (by simp)
    obtain ⟨ht, t₁, ht₁, hle⟩ := htr.attempts ⟨t₀, by simp, le_rfl⟩ hsorted'
    have hlate : ∀ t ∈ [t₀] ++ p, t ≤ ts := fun t ht =>
      (List.pairwise_append.mp hsorted).2.2 t (by simpa using ht) ts (by simp)
    obtain ⟨-, hs, hlt, hiff⟩ := ht.attempt (le_trans hle (hlate t₁ ht₁))
    rw [← hstate] at hs hlt hiff
    exact ⟨hiff, hs, hlt⟩

theorem attempt_iff_window_of_burst :
    let p : List Int := [200, 201, 203]
    ((p ++ [205]).Pairwise (· ≤ ·) ∧ ∀ t ∈ p ++ [205], (COUNTER_NUM * 2 : Int) * COUNTER_INTERVAL ≤ t) ∧
      let r : CConnAttempt × Bool := ((init fun _ => 0).attempts p).attempt 205
      (r.2 = true ↔ (((p ++ [205]).countP fun t => r.1.nStartTime ≤ t : Nat) : Int) ≤ ATTEMPT_LIMIT) ∧
        r.1.nStartTime ≤ 205 ∧ 205 < r.1.nStartTime + COUNTER_NUM * COUNTER_INTERVAL :=
  ⟨⟨by decide, by decide⟩, attempt_iff_window _ _ _ (by decide) (by decide)⟩

end CConnAttempt

end Multiverse.Walleve
