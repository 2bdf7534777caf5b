import Multiverse.Lib.LittleEndian

/-! # 256-bit words of `curve25519`

`crypto/curve25519/base25519.cpp` works on 32-byte buffers that it reads in
turn as `uint8_t[32]`, `uint64_t[4]` and `uint128_t[2]`, all little-endian on
the hosts the code runs on. A buffer here is the number it holds, below
`2 ^ 256`, and each view is a digit of that number. `Add32` and `Sub32` add
and subtract the two 128-bit halves with a carry or borrow between them and
return the carry or borrow out; `Compare32` compares the halves from the top.
`Mul32` multiplies four words by four words into eight 128-bit column sums.
-/

namespace Multiverse.Crypto

/-- A 32-byte buffer, the number it holds in little-endian order. -/
structure U256 where
  toNat : Nat
  lt : toNat < 2 ^ 256
  deriving DecidableEq

namespace U256

/-- `((uint64_t*)x)[i]`. -/
def word (x : U256) (i : Nat) : Nat := x.toNat / 2 ^ (64 * i) % 2 ^ 64

/-- `((uint128_t*)x)[i]`. -/
def half (x : U256) (i : Nat) : Nat := x.toNat / 2 ^ (128 * i) % 2 ^ 128

/-- `((uint8_t*)x)[i]`. -/
def byte (x : U256) (i : Nat) : Nat := x.toNat / 2 ^ (8 * i) % 2 ^ 8

/-- The buffer whose two `uint128_t` are `h0` and `h1`, each cut to 128 bits. -/
def ofHalves (h0 h1 : Nat) : U256 := ⟨h0 % 2 ^ 128 + 2 ^ 128 * (h1 % 2 ^ 128), by omega⟩

/-- The buffer whose four `uint64_t` are `w0` to `w3`, each cut to 64 bits. -/
def ofWords (w0 w1 w2 w3 : Nat) : U256 :=
  ⟨w0 % 2 ^ 64 + 2 ^ 64 * (w1 % 2 ^ 64) + 2 ^ 128 * (w2 % 2 ^ 64) + 2 ^ 192 * (w3 % 2 ^ 64), by omega⟩

/-- `Zero32`. -/
def zero : U256 := ⟨0, by decide⟩

/-- `Copy32(dest, u64)`. -/
def ofUInt64 (u64 : UInt64) : U256 := ⟨u64.toNat, by have := u64.toNat_lt; omega⟩

/-- `Copy32(dest, md32)`: the first 32 bytes of `md32`. -/
def ofBytes (md32 : List UInt8) : U256 :=
  ⟨LittleEndian.decode (md32.take 32), by
    have h := LittleEndian.decode_lt (md32.take 32)
    have hlen : (md32.take 32).length ≤ 32 := List.length_take_le _ _
    calc LittleEndian.decode (md32.take 32) < 256 ^ (md32.take 32).length := h
      _ ≤ 256 ^ 32 := Nat.pow_le_pow_right (by decide) hlen
      _ = 2 ^ 256 := by norm_num⟩

/-- `Copy32(md32, x)`: the 32 bytes of the buffer. -/
def toBytes (x : U256) : List UInt8 := LittleEndian.encode 32 x.toNat

/-- `Add32(output, n1, n2)`: the sum and the carry out. -/
def add32 (n1 n2 : U256) : U256 × Nat :=
  let sum0 := (n1.half 0 + n2.half 0) % 2 ^ 128
  let sum1 := (n1.half 1 + n2.half 1) % 2 ^ 128
  if sum0 ≥ n1.half 0 then (ofHalves sum0 sum1, if sum1 ≥ n1.half 1 then 0 else 1)
  else
    let sum1 := (sum1 + 1) % 2 ^ 128
    (ofHalves sum0 sum1, if sum1 > n1.half 1 then 0 else 1)

/-- `Sub32(output, n1, n2)`: the difference and the borrow out. -/
def sub32 (n1 n2 : U256) : U256 × Nat :=
  let diff0 := (n1.half 0 + 2 ^ 128 - n2.half 0) % 2 ^ 128
  let diff1 := (n1.half 1 + 2 ^ 128 - n2.half 1) % 2 ^ 128
  if n1.half 0 ≥ n2.half 0 then (ofHalves diff0 diff1, if n1.half 1 ≥ n2.half 1 then 0 else 1)
  else
    let diff1 := (diff1 + 2 ^ 128 - 1) % 2 ^ 128
    (ofHalves diff0 diff1, if n1.half 1 > n2.half 1 then 0 else 1)

/-- `Compare32(lhs, rhs)`: the halves from the top. -/
def compare32 (lhs rhs : U256) : Int :=
  if lhs.half 1 > rhs.half 1 then 1
  else if lhs.half 1 < rhs.half 1 then -1
  else if lhs.half 0 > rhs.half 0 then 1
  else if lhs.half 0 < rhs.half 0 then -1
  else 0

/-- `IsZero32`. -/
def isZero32 (n : U256) : Bool := n.word 0 ||| n.word 1 ||| n.word 2 ||| n.word 3 == 0

/-- `IsOne32`: `p[0] - 1` wraps as a `uint64_t`. -/
def isOne32 (n : U256) : Bool := (n.word 0 + 2 ^ 64 - 1) % 2 ^ 64 ||| n.word 1 ||| n.word 2 ||| n.word 3 == 0

/-- `IsEven`: the low bit of byte 0. -/
def isEven (n : U256) : Bool := n.byte 0 &&& 1 == 0

/-- The high `int128_t` read as signed. -/
def signedHigh (x : U256) : Int := if x.half 1 < 2 ^ 127 then x.half 1 else x.half 1 - 2 ^ 128

/-- `CompareSigned32`: the high halves as `int128_t`, the low ones unsigned. -/
def compareSigned32 (lhs rhs : U256) : Int :=
  if lhs.signedHigh > rhs.signedHigh then 1
  else if lhs.signedHigh < rhs.signedHigh then -1
  else if lhs.half 0 > rhs.half 0 then 1
  else if lhs.half 0 < rhs.half 0 then -1
  else 0

/-- `ReduceSigned32(n, n, prime)`: add `prime` to a negative value, subtract
it from one at least `prime`, in place. -/
def reduceSigned32 (n prime : U256) : U256 :=
  if n.byte 31 &&& 0x80 ≠ 0 then (add32 n prime).1
  else if compare32 n prime ≥ 0 then (sub32 n prime).1
  else n

/-- `HalfSigned32`: the low half takes the bit shifted out of the high one,
which is shifted as an `int128_t`, keeping its sign. -/
def halfSigned32 (n : U256) : U256 :=
  ofHalves (n.half 0 >>> 1 ||| (n.half 1 % 2) <<< 127)
    (n.half 1 >>> 1 ||| if n.half 1 < 2 ^ 127 then 0 else 2 ^ 127)

/-- The sixteen 128-bit products of `Mul32`, `product[t]` for the word
pairs in the order of the source, as their 64-bit halves `p[2t]`, `p[2t+1]`. -/
def mulProducts (n1 n2 : U256) : List Nat :=
  [n1.word 0 * n2.word 0, n1.word 0 * n2.word 1, n1.word 1 * n2.word 0, n1.word 0 * n2.word 2,
    n1.word 1 * n2.word 1, n1.word 2 * n2.word 0, n1.word 0 * n2.word 3, n1.word 1 * n2.word 2,
    n1.word 2 * n2.word 1, n1.word 3 * n2.word 0, n1.word 1 * n2.word 3, n1.word 2 * n2.word 2,
    n1.word 3 * n2.word 1, n1.word 2 * n2.word 3, n1.word 3 * n2.word 2, n1.word 3 * n2.word 3].flatMap
    fun product => [product % 2 ^ 64, product / 2 ^ 64 % 2 ^ 64]

/-- `Mul32(output, n1, n2)`: the eight column sums `po[0]` to `po[7]`. -/
def mul32 (n1 n2 : U256) : List Nat :=
  let p := fun i => (mulProducts n1 n2).getD i 0
  [p 0, p 1 + p 2 + p 4, p 3 + p 5 + p 6 + p 8 + p 10, p 7 + p 9 + p 11 + p 12 + p 14 + p 16 + p 18,
    p 13 + p 15 + p 17 + p 19 + p 20 + p 22 + p 24, p 21 + p 23 + p 25 + p 26 + p 28, p 27 + p 29 + p 30,
    p 31]

/-! ## The views -/

theorem half_lt (x : U256) (i : Nat) : x.half i < 2 ^ 128 := Nat.mod_lt _ (by decide)

theorem toNat_eq_halves (x : U256) : x.toNat = x.half 0 + 2 ^ 128 * x.half 1 := by
  have hlt := x.lt
  simp only [half, Nat.mul_zero, Nat.pow_zero, Nat.div_one, Nat.mul_one]
  omega

theorem word_lt (x : U256) (i : Nat) : x.word i < 2 ^ 64 := Nat.mod_lt _ (by decide)

theorem toNat_eq_words (x : U256) :
    x.toNat = x.word 0 + 2 ^ 64 * x.word 1 + 2 ^ 128 * x.word 2 + 2 ^ 192 * x.word 3 := by
  have hlt := x.lt
  simp only [word, Nat.mul_zero, Nat.pow_zero, Nat.div_one, Nat.mul_one]
  omega

theorem toNat_ofWords (w0 w1 w2 w3 : Nat) :
    (ofWords w0 w1 w2 w3).toNat = w0 % 2 ^ 64 + 2 ^ 64 * (w1 % 2 ^ 64) + 2 ^ 128 * (w2 % 2 ^ 64) + 2 ^ 192 * (w3 % 2 ^ 64) :=
  rfl

theorem toNat_ofHalves (h0 h1 : Nat) : (ofHalves h0 h1).toNat = h0 % 2 ^ 128 + 2 ^ 128 * (h1 % 2 ^ 128) :=
  rfl

theorem ext_toNat {x y : U256} (h : x.toNat = y.toNat) : x = y := by
  cases x
  cases y
  simp only at h
  subst h
  rfl

@[simp]
theorem word_zero (i : Nat) : zero.word i = 0 := by
  simp [word, zero]

theorem mul32_zero_left (n2 : U256) : mul32 zero n2 = List.replicate 8 0 := by
  simp [mul32, mulProducts]

/-! ## Addition, subtraction and comparison -/

theorem add32_spec (n1 n2 : U256) :
    (add32 n1 n2).1.toNat + 2 ^ 256 * (add32 n1 n2).2 = n1.toNat + n2.toNat := by
  have h1 := toNat_eq_halves n1
  have h2 := toNat_eq_halves n2
  have := half_lt n1 0
  have := half_lt n1 1
  have := half_lt n2 0
  have := half_lt n2 1
  dsimp only [add32]
  split_ifs <;> simp only [toNat_ofHalves] <;> omega

theorem add32_carry_le (n1 n2 : U256) : (add32 n1 n2).2 ≤ 1 := by
  dsimp only [add32]
  split_ifs <;> simp

theorem toNat_add32_of_lt {n1 n2 : U256} (h : n1.toNat + n2.toNat < 2 ^ 256) :
    (add32 n1 n2).1.toNat = n1.toNat + n2.toNat := by
  have hspec := add32_spec n1 n2
  have hlt := (add32 n1 n2).1.lt
  have hc : (add32 n1 n2).2 = 0 := by
    rcases Nat.eq_zero_or_pos (add32 n1 n2).2 with h0 | hpos
    · exact h0
    · have : 2 ^ 256 ≤ 2 ^ 256 * (add32 n1 n2).2 := Nat.le_mul_of_pos_right _ hpos
      omega
  rw [hc] at hspec
  omega

theorem sub32_spec (n1 n2 : U256) :
    (sub32 n1 n2).1.toNat = (n1.toNat + 2 ^ 256 - n2.toNat) % 2 ^ 256 ∧
      (sub32 n1 n2).2 = if n1.toNat < n2.toNat then 1 else 0 := by
  have h1 := toNat_eq_halves n1
  have h2 := toNat_eq_halves n2
  have := half_lt n1 0
  have := half_lt n1 1
  have := half_lt n2 0
  have := half_lt n2 1
  dsimp only [sub32]
  split_ifs <;> simp only [toNat_ofHalves, and_true, and_false] <;> omega

theorem toNat_sub32_of_le {n1 n2 : U256} (h : n2.toNat ≤ n1.toNat) :
    (sub32 n1 n2).1.toNat = n1.toNat - n2.toNat := by
  rw [(sub32_spec n1 n2).1]
  have := n1.lt
  omega

theorem compare32_spec (lhs rhs : U256) :
    compare32 lhs rhs = if lhs.toNat < rhs.toNat then -1 else if lhs.toNat = rhs.toNat then 0 else 1 := by
  have h1 := toNat_eq_halves lhs
  have h2 := toNat_eq_halves rhs
  have := half_lt lhs 0
  have := half_lt rhs 0
  unfold compare32
  split_ifs <;> omega

theorem compare32_nonneg_iff (lhs rhs : U256) : 0 ≤ compare32 lhs rhs ↔ rhs.toNat ≤ lhs.toNat := by
  rw [compare32_spec]
  split_ifs <;> omega

end U256

end Multiverse.Crypto
