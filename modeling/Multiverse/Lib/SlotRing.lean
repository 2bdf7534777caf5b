import Mathlib.Logic.Function.Basic
import Mathlib.Algebra.Group.Fin.Basic
import Mathlib.Algebra.Order.Ring.Int
import Mathlib.Tactic.Ring
import Mathlib.Tactic.Linarith

/-! # Rings of time slots

A ring of `n` counters read from a start slot counts the events of a list by
time slot: bucket `b`, the slot `b` places after the start, holds the number
of events in `[t0 + w * b, t0 + w * (b + 1))`, and no event lies past the last
slot (`Tracks`). Clearing the start slot and moving the start on by one moves
the first time on by `w` (`Tracks.rotate`); adding one to a bucket records an
event of its slot (`Tracks.record`); a ring with one event in its first slot
tracks a history whose events all came before (`Tracks.reset`). The events
from `t0` on are those of the first slot and those from `t0 + w` on
(`windowCount_eq`).
-/

namespace SlotRing

/-- The events of `hist` in `[lo, lo + w)`. -/
def slotCount (hist : List Int) (lo w : Int) : Nat := hist.countP fun t => decide (lo ≤ t ∧ t < lo + w)

/-- The events of `hist` from `lo` on. -/
def windowCount (hist : List Int) (lo : Int) : Nat := hist.countP fun t => decide (lo ≤ t)

theorem slotCount_append_singleton (hist : List Int) (lo w t : Int) :
    slotCount (hist ++ [t]) lo w = slotCount hist lo w + if lo ≤ t ∧ t < lo + w then 1 else 0 := by
  simp only [slotCount, List.countP_append, List.countP_singleton, decide_eq_true_eq]

theorem windowCount_append_singleton (hist : List Int) (lo t : Int) :
    windowCount (hist ++ [t]) lo = windowCount hist lo + if lo ≤ t then 1 else 0 := by
  simp only [windowCount, List.countP_append, List.countP_singleton, decide_eq_true_eq]

theorem slotCount_eq_zero {hist : List Int} {lo w : Int} (h : ∀ t ∈ hist, ¬ (lo ≤ t ∧ t < lo + w)) :
    slotCount hist lo w = 0 :=
  List.countP_eq_zero.mpr fun t ht => by simpa using h t ht

theorem windowCount_eq_zero {hist : List Int} {lo : Int} (h : ∀ t ∈ hist, t < lo) : windowCount hist lo = 0 :=
  List.countP_eq_zero.mpr fun t ht => by simpa using h t ht

/-- The events from `lo` on are those of the slot at `lo` and those after it. -/
theorem windowCount_eq (hist : List Int) (lo w : Int) (hw : 0 ≤ w) :
    windowCount hist lo = slotCount hist lo w + windowCount hist (lo + w) := by
  induction hist with
  | nil => rfl
  | cons t hist ih =>
    simp only [windowCount, slotCount, List.countP_cons] at ih ⊢
    rw [ih]
    split_ifs with h1 h2 h3 <;> simp only [decide_eq_true_eq] at * <;> omega

variable {n : Nat} [NeZero n]

/-- The ring `a` read from slot `s` counts the events of `hist` by slots of
width `w` from `t0`. -/
structure Tracks (a : Fin n → Int) (s : Fin n) (t0 w : Int) (hist : List Int) : Prop where
  bucket : ∀ b : Fin n, a (s + b) = slotCount hist (t0 + w * b) w
  bound : ∀ t ∈ hist, t < t0 + w * n

theorem val_add_one_of_lt {b : Fin n} (hb : b.val + 1 < n) : (b + 1).val = b.val + 1 := by
  rw [Fin.val_add, Fin.val_one', Nat.mod_eq_of_lt (by omega : 1 < n), Nat.mod_eq_of_lt hb]

theorem add_add_one_ne (s : Fin n) {b : Fin n} (hb : b.val + 1 < n) : s + (b + 1) ≠ s := by
  intro h
  have h0 : b + 1 = 0 := add_eq_left.mp h
  have hv := congrArg Fin.val h0
  rw [val_add_one_of_lt hb, Fin.val_zero] at hv
  omega

theorem add_one_add_last (s : Fin n) {b : Fin n} (hb : b.val = n - 1) : s + 1 + b = s := by
  have h1b : (1 : Fin n) + b = 0 := by
    ext
    rw [Fin.val_add, Fin.val_one', hb, Fin.val_zero]
    rcases Nat.lt_or_ge 1 n with h1 | h1
    · rw [Nat.mod_eq_of_lt h1, Nat.add_sub_cancel' (by omega), Nat.mod_self]
    · have : n = 1 := by have := NeZero.ne n; omega
      subst this
      rfl
  rw [add_assoc, h1b, add_zero]

variable {a : Fin n → Int} {s : Fin n} {t0 w : Int} {hist : List Int}

/-- Clearing the first slot and starting one slot on moves the first time on
by a slot. -/
theorem Tracks.rotate (h : Tracks a s t0 w hist) (hw : 0 ≤ w) :
    Tracks (Function.update a s 0) (s + 1) (t0 + w) w hist := by
  refine ⟨fun b => ?_, fun t ht => ?_⟩
  · by_cases hb : b.val + 1 < n
    · -- bucket `b` is the old bucket `b + 1`
      have hslot : s + 1 + b = s + (b + 1) := by rw [add_assoc, add_comm (1 : Fin n) b]
      rw [hslot, Function.update_of_ne (add_add_one_ne s hb), h.bucket, val_add_one_of_lt hb]
      push_cast
      rw [show t0 + w * ((b.val : Int) + 1) = t0 + w + w * b.val by ring]
    · -- the last bucket is the slot cleared, and no event reaches it
      have hb' : b.val = n - 1 := by have := b.isLt; omega
      have hn : ((n - 1 : Nat) : Int) = (n : Int) - 1 := by
        have := NeZero.ne n
        omega
      have hzero : slotCount hist (t0 + w + w * b.val) w = 0 := slotCount_eq_zero fun t ht hin => by
        have := h.bound t ht
        rw [hb', hn] at hin
        nlinarith [hin.1]
      rw [add_one_add_last s hb', Function.update_self, hzero]
      rfl
  · have := h.bound t ht
    nlinarith

omit [NeZero n] in
/-- Adding one to the bucket of an event's slot records the event. -/
theorem Tracks.record (h : Tracks a s t0 w hist) (hw : 0 < w) (b : Fin n) {t : Int}
    (hlo : t0 + w * b ≤ t) (hhi : t < t0 + w * b + w) :
    Tracks (Function.update a (s + b) (a (s + b) + 1)) s t0 w (hist ++ [t]) := by
  refine ⟨fun b' => ?_, fun t' ht' => ?_⟩
  · rw [slotCount_append_singleton]
    by_cases hbb : b' = b
    · subst hbb
      rw [Function.update_self, h.bucket, if_pos ⟨hlo, hhi⟩]
      push_cast
      rfl
    · have hne : s + b' ≠ s + b := fun he => hbb (add_left_cancel he)
      rw [Function.update_of_ne hne, h.bucket]
      have hout : ¬ (t0 + w * b' ≤ t ∧ t < t0 + w * b' + w) := by
        rintro ⟨h1, h2⟩
        have hv : b'.val ≠ b.val := fun hv => hbb (Fin.ext hv)
        rcases Nat.lt_or_gt_of_ne hv with hlt | hlt
        · have : ((b'.val : Int) + 1) ≤ b.val := by exact_mod_cast hlt
          nlinarith
        · have : ((b.val : Int) + 1) ≤ b'.val := by exact_mod_cast hlt
          nlinarith
      rw [if_neg hout]
      rfl
  · rcases List.mem_append.mp ht' with ht' | ht'
    · exact h.bound t' ht'
    · rw [List.mem_singleton.mp ht']
      have : ((b.val : Int) + 1) ≤ n := by exact_mod_cast b.isLt
      nlinarith

/-- One event in the first slot, from its own time, after events that all came
before it. -/
theorem Tracks.reset (hw : 0 < w) {t : Int} (hbefore : ∀ t' ∈ hist, t' < t) :
    Tracks (fun i : Fin n => if i = 0 then 1 else 0) 0 t w (hist ++ [t]) := by
  refine ⟨fun b => ?_, fun t' ht' => ?_⟩
  · rw [zero_add, slotCount_append_singleton,
      slotCount_eq_zero fun t' ht' hin => absurd (hbefore t' ht') (by nlinarith [hin.1, b.val.cast_nonneg (α := Int)])]
    by_cases hb : b = 0
    · subst hb
      simp [hw]
    · have hpos : (1 : Int) ≤ b.val := by
        have : b.val ≠ 0 := fun h0 => hb (Fin.ext h0)
        exact_mod_cast Nat.one_le_iff_ne_zero.mpr this
      have hout : ¬ (t + w * b ≤ t ∧ t < t + w * b + w) := fun hin => by nlinarith [hin.1]
      rw [if_neg hb, if_neg hout]
      rfl
  · have hn : (1 : Int) ≤ n := by exact_mod_cast Nat.one_le_iff_ne_zero.mpr (NeZero.ne n)
    rcases List.mem_append.mp ht' with ht' | ht'
    · have := hbefore t' ht'
      nlinarith
    · rw [List.mem_singleton.mp ht']
      nlinarith

end SlotRing
