import Mathlib.Data.Fintype.Basic
import Mathlib.Logic.Function.Basic

/-! # Threads on a `CWalleveRWAccess`

`CWalleveRWAccess` of `walleve/rwlock.h` is a reader-writer lock with an
upgrade role, kept in four fields under a mutex (`nRead`, `nWrite`,
`fExclusive`, `fUpgraded`) and three condition variables. Each method runs
under the mutex up to a wait or its end; an unlock then leaves the mutex and
signals the condition it chose (`notify_one` on `condUpgrade` or `condWrite`,
`notify_all` on `condRead`). A waiting thread sleeps until it is signalled,
then takes the mutex and tests its condition again.

Here every thread has a phase (`Pc`), and a step is one thread's run under
the mutex, a wake-up of a waiting thread, or the signal an unlock chose. A
state is `Reachable` when some interleaving of these steps leads to it from
the state where no thread has begun.
-/

namespace Multiverse.Walleve

/-- The condition an unlock signals after leaving the mutex. -/
inductive Notify
  | upgradeOne
  | writeOne
  | readAll
  | nothing
  deriving DecidableEq, Repr

/-- Where a thread is in its section. A wait records whether the thread has
been signalled since it began to wait. -/
inductive Pc
  | idle
  | readWait (woken : Bool)
  | read
  | writeWait (woken : Bool)
  | write
  | upgradeWait (woken : Bool)
  | upgrade
  | upgradeToWriteWait (woken : Bool)
  | upgraded
  | notify (n : Notify)
  deriving DecidableEq, Repr

/-- A wait woken, by a signal or spuriously: it will take the mutex and test again. -/
def Pc.wake : Pc → Option Pc
  | .readWait false => some (.readWait true)
  | .writeWait false => some (.writeWait true)
  | .upgradeWait false => some (.upgradeWait true)
  | .upgradeToWriteWait false => some (.upgradeToWriteWait true)
  | _ => none

/-- The fields of `CWalleveRWAccess`. The counters are `int`s in the source;
in well-bracketed use they never go below zero. -/
structure CWalleveRWAccess where
  nRead : Nat
  nWrite : Nat
  fExclusive : Bool
  fUpgraded : Bool
  deriving DecidableEq, Repr

namespace CWalleveRWAccess

variable (a : CWalleveRWAccess)

/-- The constructor's fields. -/
def init : CWalleveRWAccess := ⟨0, 0, false, false⟩

/-- The test of `ReadLock`'s loop: the lock taken, or a wait on `condRead`. -/
def readTest : CWalleveRWAccess × Pc :=
  if a.nWrite ≠ 0 ∨ a.fUpgraded then (a, .readWait false) else ({ a with nRead := a.nRead + 1 }, .read)

/-- `ReadTryLock`: the lock taken, or false and nothing held. -/
def readTryLock : CWalleveRWAccess × Pc :=
  if a.nWrite ≠ 0 ∨ a.fUpgraded then (a, .idle) else ({ a with nRead := a.nRead + 1 }, .read)

/-- `ReadUnlock`: the last reader signals the upgrade holder if there is one,
and else a writer if one is counted. -/
def readUnlock : CWalleveRWAccess × Pc :=
  let nRead := a.nRead - 1
  let fNotifyWrite := nRead = 0 ∧ a.nWrite ≠ 0
  let fNotifyUpgrade := nRead = 0 ∧ a.fExclusive
  ({ a with nRead }, .notify (if fNotifyUpgrade then .upgradeOne else if fNotifyWrite then .writeOne else .nothing))

/-- The test of `WriteLock`'s loop. -/
def writeTest : CWalleveRWAccess × Pc :=
  if a.nRead ≠ 0 ∨ a.fExclusive then (a, .writeWait false) else ({ a with fExclusive := true }, .write)

/-- `WriteLock`: counted among the writers, then its loop. -/
def writeLock : CWalleveRWAccess × Pc := writeTest { a with nWrite := a.nWrite + 1 }

/-- `WriteUnlock`: a writer signalled while one is counted, else every reader. -/
def writeUnlock : CWalleveRWAccess × Pc :=
  let nWrite := a.nWrite - 1
  ({ a with nWrite, fExclusive := false }, .notify (if nWrite ≠ 0 then .writeOne else .readAll))

/-- The test of `UpgradeLock`'s loop, which waits on `condRead`. -/
def upgradeTest : CWalleveRWAccess × Pc :=
  if a.fExclusive then (a, .upgradeWait false) else ({ a with fExclusive := true }, .upgrade)

/-- The test of `UpgradeToWriteLock`'s loop. -/
def upgradeToWriteTest : CWalleveRWAccess × Pc :=
  if a.nRead ≠ 0 then (a, .upgradeToWriteWait false) else (a, .upgraded)

/-- `UpgradeToWriteLock`: `fUpgraded` set, then its loop. -/
def upgradeToWriteLock : CWalleveRWAccess × Pc := upgradeToWriteTest { a with fUpgraded := true }

/-- `UpgradeUnlock`: a writer signalled while one is counted and no reader
holds, or the holder had upgraded; else every reader. -/
def upgradeUnlock : CWalleveRWAccess × Pc :=
  let fNotifyWrite := a.nWrite ≠ 0
  let fNotifyWrite := if a.fUpgraded then fNotifyWrite else fNotifyWrite ∧ a.nRead = 0
  ({ a with fExclusive := false, fUpgraded := false }, .notify (if fNotifyWrite then .writeOne else .readAll))

end CWalleveRWAccess

/-- The lock, and where each thread is. -/
structure RWThreads (τ : Type) where
  access : CWalleveRWAccess
  pc : τ → Pc

/-- What a thread does next: a method of the lock, the test after it was
woken, a spurious wake-up of its wait, or the signal an unlock chose, with the
thread `notify_one` wakes. -/
inductive Action (τ : Type)
  | readLock
  | readTryLock
  | readUnlock
  | writeLock
  | writeUnlock
  | upgradeLock
  | upgradeToWriteLock
  | upgradeUnlock
  | recheck
  | spurious
  | notify (target : Option τ)

namespace RWThreads

variable {τ : Type} [DecidableEq τ] [Fintype τ]

/-- No thread has begun. -/
def initial : RWThreads τ := ⟨CWalleveRWAccess.init, fun _ => .idle⟩

/-- Thread `t` ran under the mutex: the fields it left, and where it is. -/
def enter (s : RWThreads τ) (t : τ) (r : CWalleveRWAccess × Pc) : RWThreads τ :=
  ⟨r.1, Function.update s.pc t r.2⟩

/-- `notify_one` on a condition: one thread waiting on it and not signalled
is woken, or none when there is no such thread. -/
def wakeOne (pc : τ → Pc) (waiting woken : Pc) : Option τ → Option (τ → Pc)
  | some u => if pc u = waiting then some (Function.update pc u woken) else none
  | none => if ∀ u, pc u ≠ waiting then some pc else none

/-- `condRead.notify_all()`: the readers and the upgraders waiting are woken. -/
def wakeAll (pc : τ → Pc) : τ → Pc := fun u =>
  match pc u with
  | .readWait false => .readWait true
  | .upgradeWait false => .upgradeWait true
  | p => p

/-- The threads after a signal. -/
def signal (pc : τ → Pc) : Notify → Option τ → Option (τ → Pc)
  | .upgradeOne, target => wakeOne pc (.upgradeToWriteWait false) (.upgradeToWriteWait true) target
  | .writeOne, target => wakeOne pc (.writeWait false) (.writeWait true) target
  | .readAll, _ => some (wakeAll pc)
  | .nothing, _ => some pc

/-- A step of thread `t`, `none` where its phase does not allow the action. -/
def step (s : RWThreads τ) (t : τ) : Action τ → Option (RWThreads τ)
  | .readLock => if s.pc t = .idle then some (s.enter t s.access.readTest) else none
  | .readTryLock => if s.pc t = .idle then some (s.enter t s.access.readTryLock) else none
  | .readUnlock => if s.pc t = .read then some (s.enter t s.access.readUnlock) else none
  | .writeLock => if s.pc t = .idle then some (s.enter t s.access.writeLock) else none
  | .writeUnlock => if s.pc t = .write then some (s.enter t s.access.writeUnlock) else none
  | .upgradeLock => if s.pc t = .idle then some (s.enter t s.access.upgradeTest) else none
  | .upgradeToWriteLock => if s.pc t = .upgrade then some (s.enter t s.access.upgradeToWriteLock) else none
  | .upgradeUnlock =>
    if s.pc t = .upgrade ∨ s.pc t = .upgraded then some (s.enter t s.access.upgradeUnlock) else none
  | .recheck =>
    match s.pc t with
    | .readWait true => some (s.enter t s.access.readTest)
    | .writeWait true => some (s.enter t s.access.writeTest)
    | .upgradeWait true => some (s.enter t s.access.upgradeTest)
    | .upgradeToWriteWait true => some (s.enter t s.access.upgradeToWriteTest)
    | _ => none
  | .spurious => (s.pc t).wake.map fun p => ⟨s.access, Function.update s.pc t p⟩
  | .notify target =>
    match s.pc t with
    | .notify n => (signal s.pc n target).map fun pc => ⟨s.access, Function.update pc t .idle⟩
    | _ => none

/-- The states some interleaving reaches from `initial`. -/
inductive Reachable : RWThreads τ → Prop
  | init : Reachable initial
  | step {s s' : RWThreads τ} {t : τ} {a : Action τ} : Reachable s → s.step t a = some s' → Reachable s'

end RWThreads

end Multiverse.Walleve
