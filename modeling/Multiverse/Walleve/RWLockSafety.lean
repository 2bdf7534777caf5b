import Multiverse.Walleve.RWLock
import Multiverse.Lib.Count

/-! # Safety and liveness of `CWalleveRWAccess`

The threads are counted by phase (`census`), and in every reachable state the
four fields of the lock agree with those counts (`Consistent`): `nRead`
counts the readers, `nWrite` the writers holding or waiting, `fExclusive`
marks the one thread in the exclusive role and `fUpgraded` the upgrade holder
past `UpgradeToWriteLock`. Each wait not yet woken is justified: its
condition holds, or a signal or a woken thread is on its way to it.
-/

namespace Multiverse.Walleve

open Count

/-- How many threads are in each phase the invariant speaks of. -/
@[ext]
structure Census where
  read : Nat
  write : Nat
  upgrade : Nat
  upgraded : Nat
  readWait : Nat
  writeWait : Nat
  writeWoken : Nat
  upgradeWait : Nat
  upgradeWoken : Nat
  upgradeToWriteWait : Nat
  upgradeToWriteWoken : Nat
  notifyUpgrade : Nat
  notifyWrite : Nat
  notifyRead : Nat

namespace Census

/-- The census whose count at each phase is `n` there. -/
def tally (n : Pc → Nat) : Census :=
  ⟨n .read, n .write, n .upgrade, n .upgraded, n (.readWait false), n (.writeWait false),
    n (.writeWait true), n (.upgradeWait false), n (.upgradeWait true), n (.upgradeToWriteWait false),
    n (.upgradeToWriteWait true), n (.notify .upgradeOne), n (.notify .writeOne), n (.notify .readAll)⟩

@[simps]
instance : Add Census :=
  ⟨fun c d => ⟨c.read + d.read, c.write + d.write, c.upgrade + d.upgrade, c.upgraded + d.upgraded,
    c.readWait + d.readWait, c.writeWait + d.writeWait, c.writeWoken + d.writeWoken,
    c.upgradeWait + d.upgradeWait, c.upgradeWoken + d.upgradeWoken,
    c.upgradeToWriteWait + d.upgradeToWriteWait, c.upgradeToWriteWoken + d.upgradeToWriteWoken,
    c.notifyUpgrade + d.notifyUpgrade, c.notifyWrite + d.notifyWrite, c.notifyRead + d.notifyRead⟩⟩

theorem tally_add (n m : Pc → Nat) : tally n + tally m = tally fun x => n x + m x := rfl

/-- One thread in phase `p`. -/
def single (p : Pc) : Census := tally fun x => if (p == x) = true then 1 else 0

/-- The threads in the role `fExclusive` marks: the writer holding, and the
upgrade holder in each of its phases. -/
def exclusive (c : Census) : Nat :=
  c.write + c.upgrade + c.upgradeToWriteWait + c.upgradeToWriteWoken + c.upgraded

/-- The upgrade holder once it has set `fUpgraded`. -/
def upgradedRole (c : Census) : Nat := c.upgradeToWriteWait + c.upgradeToWriteWoken + c.upgraded

/-- The writers `nWrite` counts: waiting, woken or holding. -/
def writers (c : Census) : Nat := c.writeWait + c.writeWoken + c.write

/-- After `condRead.notify_all()`: every reader and upgrader waiting is woken. -/
def wakeAll (c : Census) : Census :=
  { c with readWait := 0, upgradeWait := 0, upgradeWoken := c.upgradeWait + c.upgradeWoken }

/-- A signal has reached the threads it can wake: no thread is left waiting
on its condition with none woken beside it. -/
def Delivered (c : Census) : Notify → Prop
  | .upgradeOne => c.upgradeToWriteWait = 0
  | .writeOne => c.writeWait = 0 ∨ 0 < c.writeWoken
  | .readAll => c.readWait = 0 ∧ c.upgradeWait = 0
  | .nothing => True

end Census

open Census

/-- How many threads are in each phase. -/
def census {τ : Type} [Fintype τ] (pc : τ → Pc) : Census := tally fun x => count pc (· == x)

theorem Pc.wake_eq_some {w w' : Pc} (h : w.wake = some w') :
    (w = .readWait false ∧ w' = .readWait true) ∨ (w = .writeWait false ∧ w' = .writeWait true) ∨
      (w = .upgradeWait false ∧ w' = .upgradeWait true) ∨
      (w = .upgradeToWriteWait false ∧ w' = .upgradeToWriteWait true) := by
  unfold Pc.wake at h
  split at h <;> simp_all

theorem census_update {τ : Type} [Fintype τ] [DecidableEq τ] (pc : τ → Pc) (t : τ) (q : Pc) :
    census (Function.update pc t q) + single (pc t) = census pc + single q := by
  simp only [census, single, tally_add]
  congr 1
  funext x
  exact count_update pc (· == x) t q

/-- The fields of the lock agree with the threads counted in `c`, and every
wait not yet woken is justified. -/
structure Consistent (a : CWalleveRWAccess) (c : Census) : Prop where
  nRead_eq : a.nRead = c.read
  nWrite_eq : a.nWrite = c.writers
  fExclusive_iff : a.fExclusive = true ↔ 0 < c.exclusive
  exclusive_le : c.exclusive ≤ 1
  fUpgraded_iff : a.fUpgraded = true ↔ 0 < c.upgradedRole
  alone : 0 < c.write + c.upgraded → a.nRead = 0
  readWait : 0 < c.readWait → a.nWrite ≠ 0 ∨ a.fUpgraded = true ∨ 0 < c.notifyRead
  writeWait : 0 < c.writeWait →
    a.nRead ≠ 0 ∨ a.fExclusive = true ∨ 0 < c.notifyWrite ∨ 0 < c.writeWoken
  upgradeWait : 0 < c.upgradeWait → a.fExclusive = true ∨ 0 < c.notifyRead ∨ 0 < c.upgradeWoken ∨
    (a.nWrite ≠ 0 ∧ a.nRead = 0 ∧ (0 < c.notifyWrite ∨ 0 < c.writeWoken))
  upgradeToWriteWait : 0 < c.upgradeToWriteWait → a.nRead ≠ 0 ∨ 0 < c.notifyUpgrade

namespace Consistent

variable {a : CWalleveRWAccess} {c c' : Census}

theorem readTest (h : Consistent a c) {p : Pc} (hp : p = .idle ∨ p = .readWait true)
    (hc : c' + single p = c + single a.readTest.2) : Consistent a.readTest.1 c' := by
  obtain ⟨h1, h2, h3, h4, h5, h6, h7, h8, h9, h10⟩ := h
  simp only [exclusive, upgradedRole, writers] at *
  unfold CWalleveRWAccess.readTest at *
  rcases hp with rfl | rfl <;> split_ifs at * with hw <;>
    simp [Census.ext_iff, single, tally] at hc <;>
    constructor <;> simp [exclusive, upgradedRole, writers] <;> grind

theorem readTryLock (h : Consistent a c) (hc : c' + single .idle = c + single a.readTryLock.2) :
    Consistent a.readTryLock.1 c' := by
  obtain ⟨h1, h2, h3, h4, h5, h6, h7, h8, h9, h10⟩ := h
  simp only [exclusive, upgradedRole, writers] at *
  unfold CWalleveRWAccess.readTryLock at *
  split_ifs at * with hw <;>
    simp [Census.ext_iff, single, tally] at hc <;>
    constructor <;> simp [exclusive, upgradedRole, writers] <;> grind

theorem readUnlock (h : Consistent a c) (hc : c' + single .read = c + single a.readUnlock.2) :
    Consistent a.readUnlock.1 c' := by
  obtain ⟨h1, h2, h3, h4, h5, h6, h7, h8, h9, h10⟩ := h
  obtain ⟨nRead, nWrite, fExclusive, fUpgraded⟩ := a
  simp only [exclusive, upgradedRole, writers] at *
  unfold CWalleveRWAccess.readUnlock at *
  dsimp only at hc ⊢
  cases fExclusive <;> cases fUpgraded <;> split_ifs at * <;>
    simp [Census.ext_iff, single, tally] at hc <;>
    constructor <;> simp [exclusive, upgradedRole, writers] <;> grind

theorem writeLock (h : Consistent a c) (hc : c' + single .idle = c + single a.writeLock.2) :
    Consistent a.writeLock.1 c' := by
  obtain ⟨h1, h2, h3, h4, h5, h6, h7, h8, h9, h10⟩ := h
  simp only [exclusive, upgradedRole, writers] at *
  unfold CWalleveRWAccess.writeLock CWalleveRWAccess.writeTest at *
  split_ifs at * <;>
    simp [Census.ext_iff, single, tally] at hc <;>
    constructor <;> simp [exclusive, upgradedRole, writers] <;> grind

theorem writeTest (h : Consistent a c) (hc : c' + single (.writeWait true) = c + single a.writeTest.2) :
    Consistent a.writeTest.1 c' := by
  obtain ⟨h1, h2, h3, h4, h5, h6, h7, h8, h9, h10⟩ := h
  simp only [exclusive, upgradedRole, writers] at *
  unfold CWalleveRWAccess.writeTest at *
  split_ifs at * <;>
    simp [Census.ext_iff, single, tally] at hc <;>
    constructor <;> simp [exclusive, upgradedRole, writers] <;> grind

theorem writeUnlock (h : Consistent a c) (hc : c' + single .write = c + single a.writeUnlock.2) :
    Consistent a.writeUnlock.1 c' := by
  obtain ⟨h1, h2, h3, h4, h5, h6, h7, h8, h9, h10⟩ := h
  simp only [exclusive, upgradedRole, writers] at *
  unfold CWalleveRWAccess.writeUnlock at *
  dsimp only at hc ⊢
  split_ifs at * <;>
    simp [Census.ext_iff, single, tally] at hc <;>
    constructor <;> simp [exclusive, upgradedRole, writers] <;> grind

theorem upgradeTest (h : Consistent a c) {p : Pc} (hp : p = .idle ∨ p = .upgradeWait true)
    (hc : c' + single p = c + single a.upgradeTest.2) : Consistent a.upgradeTest.1 c' := by
  obtain ⟨h1, h2, h3, h4, h5, h6, h7, h8, h9, h10⟩ := h
  simp only [exclusive, upgradedRole, writers] at *
  unfold CWalleveRWAccess.upgradeTest at *
  rcases hp with rfl | rfl <;> split_ifs at * <;>
    simp [Census.ext_iff, single, tally] at hc <;>
    constructor <;> simp [exclusive, upgradedRole, writers] <;> grind

theorem upgradeToWriteLock (h : Consistent a c)
    (hc : c' + single .upgrade = c + single a.upgradeToWriteLock.2) : Consistent a.upgradeToWriteLock.1 c' := by
  obtain ⟨h1, h2, h3, h4, h5, h6, h7, h8, h9, h10⟩ := h
  simp only [exclusive, upgradedRole, writers] at *
  unfold CWalleveRWAccess.upgradeToWriteLock CWalleveRWAccess.upgradeToWriteTest at *
  split_ifs at * <;>
    simp [Census.ext_iff, single, tally] at hc <;>
    constructor <;> simp [exclusive, upgradedRole, writers] <;> grind

theorem upgradeToWriteTest (h : Consistent a c)
    (hc : c' + single (.upgradeToWriteWait true) = c + single a.upgradeToWriteTest.2) :
    Consistent a.upgradeToWriteTest.1 c' := by
  obtain ⟨h1, h2, h3, h4, h5, h6, h7, h8, h9, h10⟩ := h
  simp only [exclusive, upgradedRole, writers] at *
  unfold CWalleveRWAccess.upgradeToWriteTest at *
  split_ifs at * <;>
    simp [Census.ext_iff, single, tally] at hc <;>
    constructor <;> simp [exclusive, upgradedRole, writers] <;> grind

theorem upgradeUnlock (h : Consistent a c) {p : Pc} (hp : p = .upgrade ∨ p = .upgraded)
    (hc : c' + single p = c + single a.upgradeUnlock.2) : Consistent a.upgradeUnlock.1 c' := by
  obtain ⟨h1, h2, h3, h4, h5, h6, h7, h8, h9, h10⟩ := h
  simp only [exclusive, upgradedRole, writers] at *
  unfold CWalleveRWAccess.upgradeUnlock at *
  dsimp only at hc ⊢
  rcases hp with rfl | rfl <;> split_ifs at * <;>
    simp [Census.ext_iff, single, tally] at hc <;>
    constructor <;> simp [exclusive, upgradedRole, writers] <;> grind

theorem wake (h : Consistent a c) {w w' : Pc} (hw : w.wake = some w') (hc : c' + single w = c + single w') :
    Consistent a c' := by
  obtain ⟨h1, h2, h3, h4, h5, h6, h7, h8, h9, h10⟩ := h
  simp only [exclusive, upgradedRole, writers] at *
  rcases Pc.wake_eq_some hw with ⟨rfl, rfl⟩ | ⟨rfl, rfl⟩ | ⟨rfl, rfl⟩ | ⟨rfl, rfl⟩ <;>
    simp [Census.ext_iff, single, tally] at hc <;>
    constructor <;> simp -failIfUnchanged [exclusive, upgradedRole, writers] <;> grind

theorem wakeAll (h : Consistent a c) : Consistent a c.wakeAll := by
  obtain ⟨h1, h2, h3, h4, h5, h6, h7, h8, h9, h10⟩ := h
  simp only [exclusive, upgradedRole, writers] at *
  constructor <;> simp [Census.wakeAll, exclusive, upgradedRole, writers] <;> grind

theorem leave (h : Consistent a c) {n : Notify} (hn : c.Delivered n)
    (hc : c' + single (.notify n) = c + single .idle) : Consistent a c' := by
  obtain ⟨h1, h2, h3, h4, h5, h6, h7, h8, h9, h10⟩ := h
  simp only [exclusive, upgradedRole, writers] at *
  cases n <;> simp [Census.ext_iff, single, tally, Delivered] at hc hn <;>
    constructor <;> simp -failIfUnchanged [exclusive, upgradedRole, writers] <;> grind

theorem rest (h : Consistent a c)
    (hc : c.read = 0 ∧ c.write = 0 ∧ c.upgrade = 0 ∧ c.upgraded = 0 ∧ c.writeWoken = 0 ∧
      c.upgradeWoken = 0 ∧ c.upgradeToWriteWoken = 0 ∧ c.notifyUpgrade = 0 ∧ c.notifyWrite = 0 ∧
      c.notifyRead = 0) :
    c.readWait = 0 ∧ c.writeWait = 0 ∧ c.upgradeWait = 0 ∧ c.upgradeToWriteWait = 0 := by
  obtain ⟨h1, h2, h3, h4, h5, h6, h7, h8, h9, h10⟩ := h
  simp only [exclusive, upgradedRole, writers] at *
  grind

end Consistent


namespace RWThreads

variable {τ : Type} [DecidableEq τ] [Fintype τ]

/-- The lock's fields are consistent with the census of the threads. -/
def Inv (s : RWThreads τ) : Prop := Consistent s.access (census s.pc)

omit [DecidableEq τ] in
theorem inv_initial : Inv (initial : RWThreads τ) := by
  have hzero : census (fun _ : τ => Pc.idle) = tally fun _ => 0 := by
    ext <;> exact count_eq_zero_iff.mpr fun _ => rfl
  unfold Inv initial
  rw [hzero]
  constructor <;> simp [CWalleveRWAccess.init, tally, exclusive, upgradedRole, writers]

theorem Inv.enter {s : RWThreads τ} {t : τ} {r : CWalleveRWAccess × Pc}
    (h : ∀ c', c' + single (s.pc t) = census s.pc + single r.2 → Consistent r.1 c') :
    Inv (s.enter t r) :=
  h _ (census_update s.pc t r.2)

theorem wakeOne_eq_some {pc pc' : τ → Pc} {w w' : Pc} {target : Option τ}
    (h : wakeOne pc w w' target = some pc') :
    (∃ u, pc u = w ∧ pc' = Function.update pc u w') ∨ ((∀ u, pc u ≠ w) ∧ pc' = pc) := by
  cases target with
  | some u =>
    simp only [wakeOne] at h
    split_ifs at h with hu
    exact .inl ⟨u, hu, (Option.some.inj h).symm⟩
  | none =>
    simp only [wakeOne] at h
    split_ifs at h with hu
    exact .inr ⟨hu, (Option.some.inj h).symm⟩

omit [DecidableEq τ] in
theorem census_wakeAll (pc : τ → Pc) : census (wakeAll pc) = (census pc).wakeAll := by
  have hkeep : ∀ x : Pc, (∀ w, Pc.readWait w ≠ x) → (∀ w, Pc.upgradeWait w ≠ x) →
      count (wakeAll pc) (· == x) = count pc (· == x) := by
    intro x hr hu
    refine count_congr fun u => ?_
    simp only [wakeAll]
    split <;> simp_all
  have hgone : ∀ x : Pc, x = .readWait false ∨ x = .upgradeWait false → count (wakeAll pc) (· == x) = 0 := by
    intro x hx
    refine count_eq_zero_iff.mpr fun u => ?_
    simp only [wakeAll]
    split <;> rcases hx with rfl | rfl <;> simp_all
  ext
  case readWait => exact hgone _ (.inl rfl)
  case upgradeWait => exact hgone _ (.inr rfl)
  case upgradeWoken =>
    show count (wakeAll pc) (· == .upgradeWait true) =
      count pc (· == .upgradeWait false) + count pc (· == .upgradeWait true)
    rw [← count_or fun b hb => by simp_all]
    refine count_congr fun u => ?_
    simp only [wakeAll]
    split <;> simp_all +decide
  all_goals exact hkeep _ (by simp) (by simp)

theorem consistent_signal {a : CWalleveRWAccess} {pc pc' : τ → Pc} {n : Notify} {target : Option τ}
    (h : Consistent a (census pc)) (hs : signal pc n target = some pc') :
    Consistent a (census pc') ∧ (census pc').Delivered n := by
  cases n with
  | upgradeOne =>
    rcases wakeOne_eq_some hs with ⟨u, hu, rfl⟩ | ⟨hnone, rfl⟩
    · have hc := census_update pc u (.upgradeToWriteWait true)
      rw [hu] at hc
      have h' := h.wake rfl hc
      have hwoken := congrArg Census.upgradeToWriteWoken hc
      simp [single, tally] at hwoken
      refine ⟨h', ?_⟩
      have hle := h'.exclusive_le
      simp only [Delivered, exclusive] at hle ⊢
      omega
    · refine ⟨h, show count pc' (· == .upgradeToWriteWait false) = 0 from ?_⟩
      exact count_eq_zero_iff.mpr fun u => by simpa using hnone u
  | writeOne =>
    rcases wakeOne_eq_some hs with ⟨u, hu, rfl⟩ | ⟨hnone, rfl⟩
    · have hc := census_update pc u (.writeWait true)
      rw [hu] at hc
      have hwoken := congrArg Census.writeWoken hc
      simp [single, tally] at hwoken
      exact ⟨h.wake rfl hc, .inr (by omega)⟩
    · refine ⟨h, .inl (show count pc' (· == .writeWait false) = 0 from ?_)⟩
      exact count_eq_zero_iff.mpr fun u => by simpa using hnone u
  | readAll =>
    cases hs
    rw [census_wakeAll]
    exact ⟨h.wakeAll, rfl, rfl⟩
  | nothing =>
    cases hs
    exact ⟨h, trivial⟩

theorem signal_apply_notify {pc pc' : τ → Pc} {n m : Notify} {target : Option τ}
    (hs : signal pc n target = some pc') {t : τ} (ht : pc t = .notify m) : pc' t = .notify m := by
  cases n with
  | upgradeOne | writeOne =>
    rcases wakeOne_eq_some hs with ⟨u, hu, rfl⟩ | ⟨-, rfl⟩
    · have hne : t ≠ u := by rintro rfl; rw [ht] at hu; cases hu
      rw [Function.update_of_ne hne, ht]
    · exact ht
  | readAll =>
    cases hs
    simp [wakeAll, ht]
  | nothing =>
    cases hs
    exact ht

theorem Inv.step {s s' : RWThreads τ} {t : τ} {act : Action τ} (h : Inv s)
    (hs : s.step t act = some s') : Inv s' := by
  cases act with
  | readLock =>
    simp only [RWThreads.step] at hs
    split_ifs at hs with ht
    cases hs
    exact Inv.enter fun c' hc => h.readTest (.inl rfl) (ht ▸ hc)
  | readTryLock =>
    simp only [RWThreads.step] at hs
    split_ifs at hs with ht
    cases hs
    exact Inv.enter fun c' hc => h.readTryLock (ht ▸ hc)
  | readUnlock =>
    simp only [RWThreads.step] at hs
    split_ifs at hs with ht
    cases hs
    exact Inv.enter fun c' hc => h.readUnlock (ht ▸ hc)
  | writeLock =>
    simp only [RWThreads.step] at hs
    split_ifs at hs with ht
    cases hs
    exact Inv.enter fun c' hc => h.writeLock (ht ▸ hc)
  | writeUnlock =>
    simp only [RWThreads.step] at hs
    split_ifs at hs with ht
    cases hs
    exact Inv.enter fun c' hc => h.writeUnlock (ht ▸ hc)
  | upgradeLock =>
    simp only [RWThreads.step] at hs
    split_ifs at hs with ht
    cases hs
    exact Inv.enter fun c' hc => h.upgradeTest (.inl rfl) (ht ▸ hc)
  | upgradeToWriteLock =>
    simp only [RWThreads.step] at hs
    split_ifs at hs with ht
    cases hs
    exact Inv.enter fun c' hc => h.upgradeToWriteLock (ht ▸ hc)
  | upgradeUnlock =>
    simp only [RWThreads.step] at hs
    split_ifs at hs with ht
    cases hs
    rcases ht with ht | ht
    · exact Inv.enter fun c' hc => h.upgradeUnlock (.inl rfl) (ht ▸ hc)
    · exact Inv.enter fun c' hc => h.upgradeUnlock (.inr rfl) (ht ▸ hc)
  | recheck =>
    simp only [RWThreads.step] at hs
    split at hs <;> cases hs
    case h_1 ht => exact Inv.enter fun c' hc => h.readTest (.inr rfl) (ht ▸ hc)
    case h_2 ht => exact Inv.enter fun c' hc => h.writeTest (ht ▸ hc)
    case h_3 ht => exact Inv.enter fun c' hc => h.upgradeTest (.inr rfl) (ht ▸ hc)
    case h_4 ht => exact Inv.enter fun c' hc => h.upgradeToWriteTest (ht ▸ hc)
  | spurious =>
    simp only [RWThreads.step] at hs
    obtain ⟨w', hw, rfl⟩ := Option.map_eq_some_iff.mp hs
    exact h.wake hw (census_update s.pc t w')
  | notify target =>
    simp only [RWThreads.step] at hs
    split at hs
    case h_1 n ht =>
      obtain ⟨pc', hsig, rfl⟩ := Option.map_eq_some_iff.mp hs
      obtain ⟨h', hdel⟩ := consistent_signal h hsig
      have hc := census_update pc' t .idle
      rw [signal_apply_notify hsig ht] at hc
      exact h'.leave hdel hc
    case h_2 => cases hs

theorem reachable_inv {s : RWThreads τ} (hs : Reachable s) : Inv s := by
  induction hs with
  | init => exact inv_initial
  | step _ hstep ih => exact ih.step hstep

end RWThreads


namespace Pc

/-- Holding the lock in some role. -/
def holds : Pc → Bool
  | read | write | upgrade | upgradeToWriteWait _ | upgraded => true
  | _ => false

/-- Holding the upgrade role, from `UpgradeLock`'s return to `UpgradeUnlock`. -/
def upgradeRole : Pc → Bool
  | upgrade | upgradeToWriteWait _ | upgraded => true
  | _ => false

/-- In the role `fExclusive` marks: the writer holding, or the upgrade holder. -/
def isExclusive (p : Pc) : Bool := p == write || p.upgradeRole

theorem holds_eq (p : Pc) : p.holds = (p == read || p.isExclusive) := by
  cases p <;> simp [holds, isExclusive, upgradeRole]

/-- Idle, or waiting with no wake-up: a thread that cannot go on by itself. -/
def resting : Pc → Bool
  | idle | readWait false | writeWait false | upgradeWait false | upgradeToWriteWait false => true
  | _ => false

theorem resting_iff {p : Pc} : p.resting = true ↔ p = idle ∨ p = readWait false ∨ p = writeWait false ∨
    p = upgradeWait false ∨ p = upgradeToWriteWait false := by
  cases p with
  | readWait w | writeWait w | upgradeWait w | upgradeToWriteWait w => cases w <;> simp [resting]
  | _ => simp [resting]

/-- What a thread has left to do before it signals, as the drain ranks it. -/
def work : Pc → Nat
  | upgradeWait true => 3
  | readWait true | writeWait true | upgradeToWriteWait true | upgrade => 2
  | read | write | upgraded => 1
  | _ => 0

end Pc

/-- A thread going on with its section: an unlock, `UpgradeToWriteLock`, the
test after a wake-up, or a signal. Beginning a section and a spurious wake-up
are not. -/
def Action.continues {τ : Type} : Action τ → Bool
  | .readUnlock | .writeUnlock | .upgradeToWriteLock | .upgradeUnlock | .recheck | .notify _ => true
  | _ => false

namespace RWThreads

variable {τ : Type} [DecidableEq τ] [Fintype τ]

/-- What the lock guarantees the threads holding it. -/
structure Safe (s : RWThreads τ) : Prop where
  write_alone : ∀ u v, s.pc u = .write → (s.pc v).holds = true → u = v
  upgrade_unique : ∀ u v, (s.pc u).upgradeRole = true →
    (s.pc v).upgradeRole = true ∨ s.pc v = .write → u = v
  upgraded_no_reader : ∀ u v, s.pc u = .upgraded → s.pc v ≠ .read

omit [DecidableEq τ] in
theorem count_isExclusive (pc : τ → Pc) : count pc Pc.isExclusive = (census pc).exclusive := by
  have hsplit : Pc.isExclusive = fun b => b == .write || b == .upgrade ||
      b == .upgradeToWriteWait false || b == .upgradeToWriteWait true || b == .upgraded := by
    funext b
    cases b <;> simp [Pc.isExclusive, Pc.upgradeRole, beq_eq_decide]
  rw [hsplit]
  rw [count_or, count_or, count_or, count_or]
  · rfl
  all_goals intro b hb; cases b <;> simp_all [beq_eq_decide]

omit [DecidableEq τ] in
theorem Inv.safe {s : RWThreads τ} (h : Inv s) : Safe s := by
  have huniq : ∀ u v, (s.pc u).isExclusive = true → (s.pc v).isExclusive = true → u = v :=
    fun u v hu hv => eq_of_count_le_one (by rw [count_isExclusive]; exact h.exclusive_le) hu hv
  have hnoread : ∀ u v, s.pc u = .write ∨ s.pc u = .upgraded → s.pc v ≠ .read := by
    rintro u v hu hv
    have hpos : 0 < (census s.pc).write + (census s.pc).upgraded := by
      rcases hu with hu | hu
      · have : 0 < count s.pc (· == .write) := count_pos_iff.mpr ⟨u, by simp [hu]⟩
        exact Nat.lt_add_right _ this
      · have : 0 < count s.pc (· == .upgraded) := count_pos_iff.mpr ⟨u, by simp [hu]⟩
        exact Nat.lt_add_left _ this
    have hread : 0 < (census s.pc).read :=
      show 0 < count s.pc (· == .read) from count_pos_iff.mpr ⟨v, by simp [hv]⟩
    have hzero := h.alone hpos
    rw [h.nRead_eq] at hzero
    omega
  constructor
  · intro u v hu hv
    rw [Pc.holds_eq, Bool.or_eq_true, beq_iff_eq] at hv
    rcases hv with hv | hv
    · exact absurd hv (hnoread u v (.inl hu))
    · exact huniq u v (by simp [hu, Pc.isExclusive]) hv
  · intro u v hu hv
    refine huniq u v (by simp [Pc.isExclusive, hu]) ?_
    rcases hv with hv | hv <;> simp [Pc.isExclusive, hv]
  · exact fun u v hu => hnoread u v (.inr hu)

/-- `s'` follows `s` by a step of a thread going on with its section. -/
def Continues (s s' : RWThreads τ) : Prop := ∃ t a, Action.continues a = true ∧ s.step t a = some s'

/-- No thread can go on with its section. -/
def Stuck (s : RWThreads τ) : Prop := ∀ s', ¬ Continues s s'

/-- The drain's rank: the threads not idle, then the work left to them. -/
def rank (s : RWThreads τ) : Nat × Nat := (count s.pc (· != .idle), ∑ u, (s.pc u).work)

theorem rank_enter {s : RWThreads τ} {t : τ} {r : CWalleveRWAccess × Pc} (hp : s.pc t ≠ .idle)
    (hq : r.2 ≠ .idle) (hw : r.2.work < (s.pc t).work) :
    Prod.Lex (· < ·) (· < ·) (s.enter t r).rank s.rank := by
  have hcount := count_update s.pc (· != .idle) t r.2
  have hsum := sum_update s.pc Pc.work t r.2
  simp only [hp, hq, bne_iff_ne, ne_eq, not_false_eq_true, if_true] at hcount
  simp only [rank, enter]
  exact Prod.lex_def.mpr (.inr ⟨by omega, by omega⟩)

theorem signal_bne_idle {pc pc' : τ → Pc} {n : Notify} {target : Option τ}
    (hs : signal pc n target = some pc') (u : τ) : (pc' u != .idle) = (pc u != .idle) := by
  cases n with
  | upgradeOne | writeOne =>
    rcases wakeOne_eq_some hs with ⟨v, hv, rfl⟩ | ⟨-, rfl⟩
    · by_cases huv : u = v
      · subst huv
        rw [Function.update_self, hv]
        decide
      · rw [Function.update_of_ne huv]
    · rfl
  | readAll =>
    cases hs
    simp only [wakeAll]
    split <;> simp_all +decide
  | nothing =>
    cases hs
    rfl

theorem rank_lt_of_continues {s s' : RWThreads τ} (h : Continues s s') :
    Prod.Lex (· < ·) (· < ·) s'.rank s.rank := by
  obtain ⟨t, act, hact, hs⟩ := h
  cases act with
  | readUnlock =>
    simp only [RWThreads.step] at hs
    split_ifs at hs with ht
    cases hs
    exact rank_enter (by simp [ht]) (by simp [CWalleveRWAccess.readUnlock]) (by simp [ht, CWalleveRWAccess.readUnlock, Pc.work])
  | writeUnlock =>
    simp only [RWThreads.step] at hs
    split_ifs at hs with ht
    cases hs
    exact rank_enter (by simp [ht]) (by simp [CWalleveRWAccess.writeUnlock]) (by simp [ht, CWalleveRWAccess.writeUnlock, Pc.work])
  | upgradeToWriteLock =>
    simp only [RWThreads.step] at hs
    split_ifs at hs with ht
    cases hs
    refine rank_enter (by simp [ht]) ?_ ?_ <;>
      simp only [ht, CWalleveRWAccess.upgradeToWriteLock, CWalleveRWAccess.upgradeToWriteTest] <;>
      split_ifs <;> simp [Pc.work]
  | upgradeUnlock =>
    simp only [RWThreads.step] at hs
    split_ifs at hs with ht
    cases hs
    refine rank_enter (by rcases ht with ht | ht <;> simp [ht]) (by simp [CWalleveRWAccess.upgradeUnlock]) ?_
    rcases ht with ht | ht <;> simp [ht, CWalleveRWAccess.upgradeUnlock, Pc.work]
  | recheck =>
    simp only [RWThreads.step] at hs
    split at hs <;> cases hs
    case h_1 ht =>
      refine rank_enter (by simp [ht]) ?_ ?_ <;> simp only [ht, CWalleveRWAccess.readTest] <;>
        split_ifs <;> simp [Pc.work]
    case h_2 ht =>
      refine rank_enter (by simp [ht]) ?_ ?_ <;> simp only [ht, CWalleveRWAccess.writeTest] <;>
        split_ifs <;> simp [Pc.work]
    case h_3 ht =>
      refine rank_enter (by simp [ht]) ?_ ?_ <;> simp only [ht, CWalleveRWAccess.upgradeTest] <;>
        split_ifs <;> simp [Pc.work]
    case h_4 ht =>
      refine rank_enter (by simp [ht]) ?_ ?_ <;> simp only [ht, CWalleveRWAccess.upgradeToWriteTest] <;>
        split_ifs <;> simp [Pc.work]
  | notify target =>
    simp only [RWThreads.step] at hs
    split at hs
    case h_1 n ht =>
      obtain ⟨pc', hsig, rfl⟩ := Option.map_eq_some_iff.mp hs
      have hcount := count_update pc' (· != .idle) t .idle
      have hsame : count pc' (· != .idle) = count s.pc (· != .idle) :=
        count_congr (signal_bne_idle hsig)
      rw [signal_apply_notify hsig ht] at hcount
      refine Prod.lex_def.mpr (.inl ?_)
      simp only [rank]
      simp at hcount
      omega
    case h_2 => cases hs
  | readLock | readTryLock | writeLock | upgradeLock | spurious => cases hact

theorem acc_continues (s : RWThreads τ) : Acc (fun s₁ s₀ => Continues s₀ s₁) s :=
  (Subrelation.wf (fun h => rank_lt_of_continues h)
    (InvImage.wf rank (WellFounded.prod_lex wellFounded_lt wellFounded_lt))).apply s

theorem resting_of_stuck {s : RWThreads τ} (h : Stuck s) (u : τ) : (s.pc u).resting = true := by
  have hgo : ∀ act : Action τ, act.continues = true → s.step u act = none := by
    intro act hact
    cases hs : s.step u act with
    | none => rfl
    | some s' => exact absurd ⟨u, act, hact, hs⟩ (h s')
  cases hu : s.pc u with
  | idle => rfl
  | read => exact absurd (hgo .readUnlock rfl) (by simp [RWThreads.step, hu])
  | write => exact absurd (hgo .writeUnlock rfl) (by simp [RWThreads.step, hu])
  | upgrade | upgraded => exact absurd (hgo .upgradeUnlock rfl) (by simp [RWThreads.step, hu])
  | readWait w | writeWait w | upgradeWait w | upgradeToWriteWait w =>
    cases w
    · rfl
    · exact absurd (hgo .recheck rfl) (by simp [RWThreads.step, hu])
  | notify n =>
    cases n with
    | readAll | nothing => exact absurd (hgo (.notify none) rfl) (by simp [RWThreads.step, hu, signal])
    | upgradeOne =>
      by_cases hw : ∃ v, s.pc v = .upgradeToWriteWait false
      · obtain ⟨v, hv⟩ := hw
        exact absurd (hgo (.notify (some v)) rfl) (by simp [RWThreads.step, hu, signal, wakeOne, hv])
      · exact absurd (hgo (.notify none) rfl) (by simp_all [RWThreads.step, signal, wakeOne])
    | writeOne =>
      by_cases hw : ∃ v, s.pc v = .writeWait false
      · obtain ⟨v, hv⟩ := hw
        exact absurd (hgo (.notify (some v)) rfl) (by simp [RWThreads.step, hu, signal, wakeOne, hv])
      · exact absurd (hgo (.notify none) rfl) (by simp_all [RWThreads.step, signal, wakeOne])

theorem Inv.idle_of_stuck {s : RWThreads τ} (h : Inv s) (hs : Stuck s) (u : τ) : s.pc u = .idle := by
  have hrest := resting_of_stuck hs
  have hnone : ∀ x : Pc, x.resting = false → count s.pc (· == x) = 0 := by
    intro x hx
    refine count_eq_zero_iff.mpr fun v => ?_
    have hv := hrest v
    rw [beq_eq_false_iff_ne]
    rintro rfl
    rw [hv] at hx
    cases hx
  have hwaits := h.rest ⟨hnone _ rfl, hnone _ rfl, hnone _ rfl, hnone _ rfl, hnone _ rfl, hnone _ rfl,
    hnone _ rfl, hnone _ rfl, hnone _ rfl, hnone _ rfl⟩
  have hnot : ∀ x : Pc, count s.pc (· == x) = 0 → s.pc u ≠ x := fun x hx hu =>
    absurd hx (Nat.pos_iff_ne_zero.mp (count_pos_iff.mpr ⟨u, by simp [hu]⟩))
  obtain ⟨h1, h2, h3, h4⟩ := hwaits
  rcases Pc.resting_iff.mp (hrest u) with hu | hu | hu | hu | hu
  · exact hu
  · exact absurd hu (hnot _ h1)
  · exact absurd hu (hnot _ h2)
  · exact absurd hu (hnot _ h3)
  · exact absurd hu (hnot _ h4)

/-- In every reachable state a writer holds alone, the upgrade role has one
holder and no writer beside it, and no reader holds beside an upgraded
holder; every run in which no thread begins a new section ends, and where it
ends no thread is left waiting. -/
theorem rwAccess_safe_and_drains {s : RWThreads τ} (hs : Reachable s) :
    Safe s ∧ Acc (fun s₁ s₀ => Continues s₀ s₁) s ∧ (Stuck s → ∀ u, s.pc u = .idle) :=
  ⟨(reachable_inv hs).safe, acc_continues s, (reachable_inv hs).idle_of_stuck⟩

/-- A reader holds, and a writer has come and waits for it. -/
theorem rwAccess_safe_and_drains_reader_writer :
    let s : RWThreads (Fin 2) :=
      ⟨⟨1, 1, false, false⟩, Function.update (Function.update (fun _ => .idle) 0 .read) 1 (.writeWait false)⟩
    Safe s ∧ Acc (fun s₁ s₀ => Continues s₀ s₁) s ∧ (Stuck s → ∀ u, s.pc u = .idle) :=
  rwAccess_safe_and_drains
    (@Reachable.step _ _ _ ⟨⟨1, 0, false, false⟩, Function.update (fun _ => .idle) 0 .read⟩ _ 1 .writeLock
      (@Reachable.step _ _ _ initial _ 0 .readLock .init rfl) rfl)

end RWThreads

end Multiverse.Walleve
