import Mathlib.Data.List.Basic
import Mathlib.Tactic.Ring

/-! # Little-endian byte strings

Fixed-width unsigned numbers stored least significant byte first, and a
reader that splits such a number off the front of a byte string. Encoding and
then reading gives the number back with the rest of the string, which is what
a parser of records built from such fields needs. Counts of a list before
its elements take the compact form `compactSize`.
-/

namespace LittleEndian

/-- The number a little-endian byte string stands for. -/
def decode : List UInt8 → Nat
  | [] => 0
  | b :: bs => b.toNat + 256 * decode bs

/-- The `w` low bytes of `n`, least significant first. -/
def encode : Nat → Nat → List UInt8
  | 0, _ => []
  | w + 1, n => UInt8.ofNat (n % 256) :: encode w (n / 256)

/-- A count in compact form: one byte below 253, and otherwise a marker byte
followed by the count in 2, 4 or 8 bytes. -/
def compactSize (n : Nat) : List UInt8 :=
  if n < 0xFD then encode 1 n
  else if n ≤ 0xFFFF then 0xFD :: encode 2 n
  else if n ≤ 0xFFFFFFFF then 0xFE :: encode 4 n
  else 0xFF :: encode 8 n

/-- Split off the first `n` bytes, if there are that many. -/
def take? (n : Nat) (bs : List UInt8) : Option (List UInt8 × List UInt8) :=
  if n ≤ bs.length then some (bs.take n, bs.drop n) else none

/-- Read a `w`-byte number off the front of a byte string. -/
def read (w : Nat) (bs : List UInt8) : Option (Nat × List UInt8) :=
  (take? w bs).map fun p => (decode p.1, p.2)

@[simp] theorem decode_nil : decode [] = 0 := rfl

@[simp] theorem decode_cons (b : UInt8) (bs : List UInt8) :
    decode (b :: bs) = b.toNat + 256 * decode bs := rfl

@[simp] theorem length_encode (w n : Nat) : (encode w n).length = w := by
  induction w generalizing n with
  | zero => rfl
  | succ w ih => simp [encode, ih]

theorem length_compactSize (n : Nat) :
    (compactSize n).length =
      if n < 0xFD then 1 else if n ≤ 0xFFFF then 3 else if n ≤ 0xFFFFFFFF then 5 else 9 := by
  unfold compactSize
  split_ifs <;> simp

theorem decode_encode (w n : Nat) : decode (encode w n) = n % 256 ^ w := by
  induction w generalizing n with
  | zero => simp [encode, Nat.mod_one]
  | succ w ih =>
    have hb : (UInt8.ofNat (n % 256)).toNat = n % 256 := by simp
    rw [encode, decode_cons, hb, ih, pow_succ, Nat.mul_comm (256 ^ w) 256, Nat.mod_mul]

theorem decode_lt (bs : List UInt8) : decode bs < 256 ^ bs.length := by
  induction bs with
  | nil => simp
  | cons b bs ih =>
    have hb := b.toNat_lt
    rw [decode_cons, List.length_cons, pow_succ]
    omega

theorem take?_append (xs ys : List UInt8) : take? xs.length (xs ++ ys) = some (xs, ys) := by
  simp [take?]

theorem read_encode_append {w n : Nat} (h : n < 256 ^ w) (rest : List UInt8) :
    read w (encode w n ++ rest) = some (n, rest) := by
  have e := take?_append (encode w n) rest
  rw [length_encode] at e
  rw [read, e, Option.map_some, decode_encode, Nat.mod_eq_of_lt h]

theorem read_eq_some {w : Nat} {bs rest : List UInt8} {n : Nat}
    (h : read w bs = some (n, rest)) : ∃ xs, bs = xs ++ rest ∧ xs.length = w ∧ decode xs = n := by
  unfold read take? at h
  split at h
  · rename_i hw
    simp only [Option.map_some, Option.some.injEq, Prod.mk.injEq] at h
    obtain ⟨rfl, rfl⟩ := h
    exact ⟨bs.take w, (List.take_append_drop w bs).symm, by simpa using hw, rfl⟩
  · cases h

theorem encode_decode (bs : List UInt8) : encode bs.length (decode bs) = bs := by
  induction bs with
  | nil => rfl
  | cons b bs ih =>
    have hb := b.toNat_lt
    have hmod : (b.toNat + 256 * decode bs) % 256 = b.toNat := by omega
    have hdiv : (b.toNat + 256 * decode bs) / 256 = decode bs := by omega
    rw [List.length_cons, decode_cons, encode, hmod, hdiv, ih, UInt8.ofNat_toNat]

theorem encode_mod (w n : Nat) : encode w (n % 256 ^ w) = encode w n := by
  have h := encode_decode (encode w n)
  rw [length_encode, decode_encode] at h
  exact h

theorem encode_mod_pow {w v : Nat} (h : w ≤ v) (n : Nat) : encode w (n % 256 ^ v) = encode w n := by
  rw [← encode_mod w (n % 256 ^ v), Nat.mod_mod_of_dvd n (Nat.pow_dvd_pow 256 h), encode_mod]

theorem read_eq_some_encode {w : Nat} {bs rest : List UInt8} {n : Nat}
    (h : read w bs = some (n, rest)) : bs = encode w n ++ rest := by
  obtain ⟨xs, rfl, rfl, rfl⟩ := read_eq_some h
  rw [encode_decode]

/-- A count in compact form read off the front: a byte below 253 is the
count, and the markers 253, 254 and 255 are followed by the count in 2, 4 and
8 bytes. -/
def readCompactSize (bs : List UInt8) : Option (Nat × List UInt8) := do
  let (n, bs) ← read 1 bs
  if n < 0xFD then pure (n, bs) else read (2 <<< (n - 0xFD)) bs

theorem read_one_cons (b : UInt8) (rest : List UInt8) : read 1 (b :: rest) = some (b.toNat, rest) := by
  simp [read, take?]

theorem readCompactSize_compactSize_append {n : Nat} (h : n < 2 ^ 64) (rest : List UInt8) :
    readCompactSize (compactSize n ++ rest) = some (n, rest) := by
  unfold compactSize readCompactSize
  split_ifs with h1 h2 h3
  · rw [read_encode_append (by simp; omega)]
    simp [h1]
  · rw [List.cons_append, read_one_cons]
    simp only [Option.bind_eq_bind, Option.bind_some]
    exact read_encode_append (by simp; omega) rest
  · rw [List.cons_append, read_one_cons]
    simp only [Option.bind_eq_bind, Option.bind_some]
    exact read_encode_append (by simp; omega) rest
  · rw [List.cons_append, read_one_cons]
    simp only [Option.bind_eq_bind, Option.bind_some]
    exact read_encode_append (by simpa using h) rest

/-- `n` records read one after another with `r`. -/
def readList {α : Type} (r : List UInt8 → Option (α × List UInt8)) : Nat → List UInt8 → Option (List α × List UInt8)
  | 0, bs => some ([], bs)
  | n + 1, bs => do
    let (a, bs) ← r bs
    let (as, bs) ← readList r n bs
    pure (a :: as, bs)

theorem readList_flatMap_append {α : Type} {r : List UInt8 → Option (α × List UInt8)}
    {f : α → List UInt8} {xs : List α} (h : ∀ x ∈ xs, ∀ rest, r (f x ++ rest) = some (x, rest))
    (rest : List UInt8) : readList r xs.length (xs.flatMap f ++ rest) = some (xs, rest) := by
  induction xs with
  | nil => rfl
  | cons x xs ih =>
    rw [List.length_cons, List.flatMap_cons, List.append_assoc, readList, h x List.mem_cons_self]
    simp only [Option.bind_eq_bind, Option.bind_some]
    rw [ih fun y hy => h y (List.mem_cons_of_mem x hy)]
    rfl

end LittleEndian
