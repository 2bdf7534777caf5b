import Mathlib.Data.List.Basic

/-! # Bounded FIFO windows

A window holds fewer than `cap` items, laid out from the position `begin`
modulo `cap`, with a read cursor among them. Items are pushed at the end
while there is room and refused when there is none, read in order at the
cursor, and consumed from the front; the cursor can be set to any position
from `begin` to the end of the items, counted modulo `cap`. No item is ever
overwritten: this is what a ring buffer with one slot kept free is for.
-/

/-- At most `cap - 1` items from `begin`, and the cursor `read` among them. -/
structure Window (α : Type*) where
  cap : Nat
  begin : Nat
  items : List α
  read : Nat
  begin_lt : begin < cap
  length_lt : items.length < cap
  read_le : read ≤ items.length

namespace Window

variable {α : Type*} (w : Window α)

/-- The empty window at position zero. -/
def empty (cap : Nat) (h : 0 < cap) : Window α := ⟨cap, 0, [], 0, h, h, Nat.le_refl 0⟩

/-- The position after the last item. -/
def putPos : Nat := (w.begin + w.items.length) % w.cap

/-- The position of the cursor. -/
def getPos : Nat := (w.begin + w.read) % w.cap

/-- How far `pos` lies past `begin`, modulo `cap`. -/
def offset (pos : Nat) : Nat := (pos % w.cap + w.cap - w.begin) % w.cap

/-- `x` pushed at the end, or `none` when the window is full. -/
def push (x : α) : Option (Window α) :=
  if h : w.items.length + 1 < w.cap then
    some { w with items := w.items ++ [x], length_lt := by simpa using h,
                  read_le := by have := w.read_le; simp only [List.length_append]; omega }
  else none

/-- The item at the cursor, with the cursor moved past it, or `none` at the end. -/
def next : Option (α × Window α) :=
  if h : w.read < w.items.length then some (w.items[w.read], { w with read := w.read + 1, read_le := h })
  else none

/-- The first `n` items dropped; the cursor keeps its item, or moves to the front. -/
def consume (n : Nat) : Window α where
  cap := w.cap
  begin := (w.begin + min n w.items.length) % w.cap
  items := w.items.drop n
  read := w.read - n
  begin_lt := Nat.mod_lt _ (Nat.lt_of_le_of_lt (Nat.zero_le _) w.begin_lt)
  length_lt := by have := w.length_lt; simp only [List.length_drop]; omega
  read_le := by have := w.read_le; simp only [List.length_drop]; omega

/-- The cursor set to `pos`, when `pos` is at most the end of the items past `begin`. -/
def seek (pos : Nat) : Option (Window α) :=
  if h : w.offset pos ≤ w.items.length then some { w with read := w.offset pos, read_le := h } else none

/-- `xs` pushed one by one until one is refused, and how many were pushed. -/
def pushAll : List α → Window α → Nat × Window α
  | [], w => (0, w)
  | x :: xs, w =>
    match w.push x with
    | some w' => let r := pushAll xs w'; (r.1 + 1, r.2)
    | none => (0, w)

/-- Up to `n` items read one by one, until the cursor reaches the end. -/
def nextN : Nat → Window α → List α × Window α
  | 0, w => ([], w)
  | n + 1, w =>
    match w.next with
    | some (x, w') => let r := nextN n w'; (x :: r.1, r.2)
    | none => ([], w)

/-! ## Positions -/

theorem cap_pos : 0 < w.cap := Nat.lt_of_le_of_lt (Nat.zero_le _) w.begin_lt

theorem add_offset (pos : Nat) : (w.begin + w.offset pos) % w.cap = pos % w.cap := by
  have hb := w.begin_lt
  have hp := Nat.mod_lt pos w.cap_pos
  rw [offset, Nat.add_mod_mod, ← Nat.add_sub_assoc (by omega), Nat.add_comm w.begin, Nat.add_sub_cancel,
    Nat.add_mod_right, Nat.mod_mod]

/-! ## What the calls do to the items -/

theorem push_eq_some_iff {x : α} {w' : Window α} :
    w.push x = some w' ↔ w.items.length + 1 < w.cap ∧ w'.items = w.items ++ [x] ∧ w'.cap = w.cap ∧
      w'.begin = w.begin ∧ w'.read = w.read := by
  unfold push
  constructor
  · intro h
    split at h
    · next hroom => cases h; exact ⟨hroom, rfl, rfl, rfl, rfl⟩
    · cases h
  · rintro ⟨hroom, hitems, hcap, hbegin, hread⟩
    rw [dif_pos hroom]
    cases w'
    simp_all

theorem pushAll_of_room (xs : List α) (h : w.items.length + xs.length < w.cap) :
    (pushAll xs w).1 = xs.length ∧ (pushAll xs w).2.items = w.items ++ xs ∧ (pushAll xs w).2.cap = w.cap ∧
      (pushAll xs w).2.begin = w.begin := by
  induction xs generalizing w with
  | nil => exact ⟨rfl, (List.append_nil _).symm, rfl, rfl⟩
  | cons x xs ih =>
    have hroom : w.items.length + 1 < w.cap := by
      simp only [List.length_cons] at h
      omega
    obtain ⟨w', hpush⟩ : ∃ w', w.push x = some w' := ⟨_, dif_pos hroom⟩
    obtain ⟨-, hitems, hcap, hbegin, -⟩ := (w.push_eq_some_iff).mp hpush
    have h' : w'.items.length + xs.length < w'.cap := by
      simp only [hitems, hcap, List.length_append, List.length_cons, List.length_nil] at h ⊢
      omega
    obtain ⟨h1, h2, h3, h4⟩ := ih w' h'
    simp only [pushAll, hpush, h1, h2, h3, h4, hitems, hcap, hbegin, List.length_cons, List.append_assoc,
      List.singleton_append, and_self]

theorem seek_begin : w.seek w.begin = some { w with read := 0, read_le := Nat.zero_le _ } := by
  have hoff : w.offset w.begin = 0 := by
    rw [offset, Nat.mod_eq_of_lt w.begin_lt, Nat.add_sub_cancel_left, Nat.mod_self]
  unfold seek
  rw [dif_pos (hoff ▸ Nat.zero_le _)]
  simp only [hoff]

theorem nextN_fst (n : Nat) : (nextN n w).1 = (w.items.drop w.read).take n := by
  induction n generalizing w with
  | zero => simp [nextN]
  | succ n ih =>
    unfold nextN next
    split
    · next x w' hnext =>
      split at hnext
      · next hlt =>
        cases hnext
        dsimp only
        rw [ih, List.drop_eq_getElem_cons hlt, List.take_succ_cons]
      · cases hnext
    · next hnext =>
      split at hnext
      · cases hnext
      · next hge => simp [List.drop_eq_nil_of_le (Nat.le_of_not_lt hge)]

end Window
