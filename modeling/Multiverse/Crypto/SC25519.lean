import Multiverse.Crypto.Base25519
import Multiverse.Mpvss.SecretShare
import Mathlib.Tactic.IntervalCases

/-! # Scalars of `curve25519`

`CSC25519` of `crypto/curve25519/sc25519.cpp` keeps a scalar modulo the
order `L` of the base point in four words. Sums and differences are brought
back below `L` by one conditional subtraction (`Reduce()`); a 32-byte string
by `Reduce(0)`, which folds its top nibble `t` with the table `reminders[t]`
of `L - t * (L - 2 ^ 252)`; a product with a `uint32` by `Reduce(carry)`,
which folds the bits from 252 up the same way; and a product of two scalars
by `BarrettReduce` with `mu = 2 ^ 506 / L`.

On canonical operands, values below `L`, the operations are the ring
operations of `ZMod L` (`toNat_add`, `toNat_sub`, `toNat_ofBytes`).
`Negative()` is the one that is not: it computes `L - a` by `Sub32` and
reduces nothing, so the negative of zero is `L` itself, a value that
`operator==` tells apart from zero (`negative_zero`).
-/

namespace Multiverse.Crypto

open U256

namespace CSC25519

/-- `prime`, the order `L`. -/
def prime : U256 := ofWords 0x5812631a5cf5d3ed 0x14def9dea2f79cd6 0 0x1000000000000000

/-- `reminder`: `L - 2 ^ 252`, in two words. -/
def reminder : List Nat := [0x5812631a5cf5d3ed, 0x14def9dea2f79cd6]

/-- `reminders[t]`: `L - t * (L - 2 ^ 252)` for `t` from 1 to 15 (row 0 is zero). -/
def reminders : List U256 := [
  ofWords 0 0 0 0,
  ofWords 0x0000000000000000 0x0000000000000000 0x0000000000000000 0x1000000000000000,
  ofWords 0xa7ed9ce5a30a2c13 0xeb2106215d086329 0xffffffffffffffff 0x0fffffffffffffff,
  ofWords 0x4fdb39cb46145826 0xd6420c42ba10c653 0xffffffffffffffff 0x0fffffffffffffff,
  ofWords 0xf7c8d6b0e91e8439 0xc16312641719297c 0xffffffffffffffff 0x0fffffffffffffff,
  ofWords 0x9fb673968c28b04c 0xac84188574218ca6 0xffffffffffffffff 0x0fffffffffffffff,
  ofWords 0x47a4107c2f32dc5f 0x97a51ea6d129efd0 0xffffffffffffffff 0x0fffffffffffffff,
  ofWords 0xef91ad61d23d0872 0x82c624c82e3252f9 0xffffffffffffffff 0x0fffffffffffffff,
  ofWords 0x977f4a4775473485 0x6de72ae98b3ab623 0xffffffffffffffff 0x0fffffffffffffff,
  ofWords 0x3f6ce72d18516098 0x5908310ae843194d 0xffffffffffffffff 0x0fffffffffffffff,
  ofWords 0xe75a8412bb5b8cab 0x4429372c454b7c76 0xffffffffffffffff 0x0fffffffffffffff,
  ofWords 0x8f4820f85e65b8be 0x2f4a3d4da253dfa0 0xffffffffffffffff 0x0fffffffffffffff,
  ofWords 0x3735bdde016fe4d1 0x1a6b436eff5c42ca 0xffffffffffffffff 0x0fffffffffffffff,
  ofWords 0xdf235ac3a47a10e4 0x058c49905c64a5f3 0xffffffffffffffff 0x0fffffffffffffff,
  ofWords 0x8710f7a947843cf7 0xf0ad4fb1b96d091d 0xfffffffffffffffe 0x0fffffffffffffff,
  ofWords 0x2efe948eea8e690a 0xdbce55d316756c47 0xfffffffffffffffe 0x0fffffffffffffff]

/-- The buffer with its bits from 252 up cleared, as `((uint8_t*)value)[31] &= 0x0f`
and `value[3] &= 0x0fffffffffffffff` both do. -/
def low252 (value : U256) : U256 := ⟨value.toNat % 2 ^ 252, by have := value.lt; omega⟩

/-- `Reduce()`. -/
def reduce (value : U256) : U256 :=
  if compare32 value prime ≥ 0 then (sub32 value prime).1 else value

/-- `Reduce(carry)`, with `carry` the `uint32_t` of the words above the buffer. -/
def reduceCarry (value : U256) (carry : Nat) : U256 :=
  if carry = 0 then
    if compare32 value prime ≥ 0 then
      let t := value.byte 31 >>> 4
      if t = 1 then (sub32 value prime).1
      else
        let value := (add32 (low252 value) (reminders.getD t zero)).1
        if compare32 value prime ≥ 0 then (sub32 value prime).1 else value
    else value
  else
    -- `carry << 4` is shifted as a `uint32_t`
    let c := ((carry <<< 4) % 2 ^ 32 + value.word 3 >>> 60) % 2 ^ 64
    let product0 := reminder.getD 0 0 * c % 2 ^ 128
    let product1 := reminder.getD 1 0 * c % 2 ^ 128
    let sum := product0 >>> 64 + product1 % 2 ^ 64
    let product := ofWords (product0 % 2 ^ 64) (sum % 2 ^ 64) (sum >>> 64 + product1 >>> 64) 0
    let product := (sub32 prime product).1
    reduce (add32 product (low252 value)).1

/-- `CSC25519(md32)` and `Unpack(md32)`. -/
def ofBytes (md32 : List UInt8) : U256 := reduceCarry (U256.ofBytes md32) 0

/-- `Negative()`: `Sub32(value, prime, value)`. -/
def negative (value : U256) : U256 := (sub32 prime value).1

/-- `operator==`. -/
def eq (a b : U256) : Bool := compare32 a b == 0

/-- The loop of `operator+=`: each word of the sum with the carry of the one below. -/
def addWords (a b : U256) : U256 :=
  let s0 := a.word 0 + b.word 0
  let s1 := a.word 1 + b.word 1 + s0 / 2 ^ 64
  let s2 := a.word 2 + b.word 2 + s1 / 2 ^ 64
  let s3 := a.word 3 + b.word 3 + s2 / 2 ^ 64
  ofWords s0 s1 s2 s3

/-- `operator+=`. -/
def add (a b : U256) : U256 := reduce (addWords a b)

/-- The loop of `operator-=`: `prime[i] + value[i] + ~b.value[i] + 1 + carry`,
with the `int` carry `(sum >> 64) - 1`. -/
def subWords (a b : U256) : U256 :=
  let step := fun (i : Nat) (carry : Int) => ((prime.word i + a.word i + (2 ^ 64 - 1 - b.word i) + 1 : Nat) : Int) + carry
  let s0 := step 0 0
  let s1 := step 1 (s0 / 2 ^ 64 - 1)
  let s2 := step 2 (s1 / 2 ^ 64 - 1)
  let s3 := step 3 (s2 / 2 ^ 64 - 1)
  ofWords (s0 % 2 ^ 64).toNat (s1 % 2 ^ 64).toNat (s2 % 2 ^ 64).toNat (s3 % 2 ^ 64).toNat

/-- `operator-=`. -/
def sub (a b : U256) : U256 := reduce (subWords a b)

/-- `operator-()`: zero minus the value. -/
def neg (a : U256) : U256 := sub zero a

/-- `operator*=(uint32_t)`: each word times `b`, the carries kept as `uint32_t`,
and the carry out folded by `Reduce(carry)`. -/
def mulUInt32 (a : U256) (b : Nat) : U256 :=
  let m0 := a.word 0 * b
  let m1 := a.word 1 * b + m0 / 2 ^ 64 % 2 ^ 32
  let m2 := a.word 2 * b + m1 / 2 ^ 64 % 2 ^ 32
  let m3 := a.word 3 * b + m2 / 2 ^ 64 % 2 ^ 32
  reduceCarry (ofWords m0 m1 m2 m3) (m3 / 2 ^ 64 % 2 ^ 32)

/-! ## Products -/

/-- `mu`: `2 ^ 506 / L`. -/
def mu : U256 := ofWords 0x9fb673968c28b04c 0xac84188574218ca6 0xffffffffffffffff 0x3fffffffffffffff

/-- `ShiftLeft32(output, n, b)`. -/
def shiftLeft32 (n : U256) (b : Nat) : U256 :=
  if b < 128 then ofHalves (n.half 0 <<< b) ((n.half 1 <<< b) ||| (n.half 0 >>> (128 - b)))
  else if b < 256 then ofHalves 0 (n.half 0 >>> (b - 128))
  else zero

/-- The 512-bit words of `operator*=`: each column plus the carry from the one
below, cut to 64 bits. -/
def carryWords : List Nat → Nat → List Nat
  | [], _ => []
  | m :: ms, carry => (m + carry) % 2 ^ 64 :: carryWords ms ((m + carry) / 2 ^ 64 % 2 ^ 64)

/-- The carry loop of `BarrettReduce` over the columns of `Mul32`: each column
takes the carry of the one below and keeps its low word; the top one keeps all. -/
def carryColumns : List Nat → Nat → List Nat
  | [], _ => []
  | [m], carry => [m + carry]
  | m :: ms, carry => (m + carry) % 2 ^ 64 :: carryColumns ms ((m + carry) >>> 64)

/-- The double loop of `BarrettReduce` for `q3 * prime`: the low and high
words of each product `r2[i] * prime[j]` with `i + j < 4`, added into
`product[i + j]` and `product[i + j + 1]`. -/
def productColumns (r2 : U256) : List Nat :=
  (List.range 5).map fun k =>
    ((List.range 4).flatMap fun i => (List.range 4).filterMap fun j =>
      if i + j < 4 then
        let p := r2.word i * prime.word j
        some ((if i + j = k then p % 2 ^ 64 else 0) + (if i + j + 1 = k then p / 2 ^ 64 % 2 ^ 64 else 0))
      else none).sum

/-- `BarrettReduce(m)` on the eight words `m`. -/
def barrettReduce (m : List Nat) : U256 :=
  let w := fun i => m.getD i 0
  -- r1 = m % 2^254
  let r1 := ofWords (w 0) (w 1) (w 2) (w 3 % 2 ^ 62)
  -- q1 = m / 2^252
  let q1 := shiftLeft32 (ofWords (w 4) (w 5) (w 6) (w 7)) 4
  let q1 := ofWords (q1.word 0 ||| w 3 >>> 60) (q1.word 1) (q1.word 2) (q1.word 3)
  -- q2 = q1 * mu
  let q2 := carryColumns (mul32 q1 mu) 0
  let p := fun i => q2.getD i 0
  -- q3 = q2 / 2^254
  let q3 := ofWords (p 4 <<< 2 ||| p 3 >>> 62) (p 5 <<< 2 ||| p 4 >>> 62) (p 6 <<< 2 ||| p 5 >>> 62)
    (p 7 <<< 2 ||| p 6 >>> 62)
  -- r2 = q3 * prime % 2^254
  let product := productColumns q3
  let c := fun i => product.getD i 0
  let c1 := c 1 + c 0 >>> 64
  let c2 := c 2 + c1 >>> 64
  let r2 := ofWords (c 0) c1 c2 ((c 3 + c2 >>> 64) % 2 ^ 62)
  let r1 := if compare32 r1 r2 < 0 then ofWords (r1.word 0) (r1.word 1) (r1.word 2) (r1.word 3 ||| 0x4000000000000000)
    else r1
  reduce (reduce (sub32 r1 r2).1)

/-- `operator*=(const CSC25519&)`. -/
def mul (a b : U256) : U256 := barrettReduce (carryWords (mul32 a b) 0)

/-! ## Sums and differences -/

theorem toNat_prime : prime.toNat = Mpvss.L := by
  decide

theorem toNat_reduce {value : U256} (h : value.toNat < 2 * Mpvss.L) : (reduce value).toNat = value.toNat % Mpvss.L := by
  unfold reduce
  split_ifs with hge
  · rw [ge_iff_le, compare32_nonneg_iff, toNat_prime] at hge
    rw [toNat_sub32_of_le (by rwa [toNat_prime]), toNat_prime, Nat.mod_eq_sub_mod hge, Nat.mod_eq_of_lt (by omega)]
  · rw [ge_iff_le, compare32_nonneg_iff, toNat_prime] at hge
    rw [Nat.mod_eq_of_lt (by omega)]

theorem toNat_ofWords_carry (x0 x1 x2 x3 : Nat) :
    (ofWords x0 (x1 + x0 / 2 ^ 64) (x2 + (x1 + x0 / 2 ^ 64) / 2 ^ 64)
      (x3 + (x2 + (x1 + x0 / 2 ^ 64) / 2 ^ 64) / 2 ^ 64)).toNat =
      (x0 + 2 ^ 64 * x1 + 2 ^ 128 * x2 + 2 ^ 192 * x3) % 2 ^ 256 := by
  simp only [toNat_ofWords]
  omega

theorem toNat_addWords (a b : U256) : (addWords a b).toNat = (a.toNat + b.toNat) % 2 ^ 256 := by
  have ha := toNat_eq_words a
  have hb := toNat_eq_words b
  simp only [addWords]
  rw [toNat_ofWords_carry]
  congr 1
  omega

/-- `operator+` on canonical scalars is the sum modulo `L`. -/
theorem toNat_add {a b : U256} (ha : a.toNat < Mpvss.L) (hb : b.toNat < Mpvss.L) :
    (add a b).toNat = (a.toNat + b.toNat) % Mpvss.L := by
  have hL : Mpvss.L < 2 ^ 255 := by decide
  have hsum : (addWords a b).toNat = a.toNat + b.toNat := by
    rw [toNat_addWords, Nat.mod_eq_of_lt (by omega)]
  rw [add, toNat_reduce (by omega), hsum]


theorem subStep (t s : Nat) :
    ((t + 1 : Nat) : Int) + ((s : Int) / 2 ^ 64 - 1) = ((t + s / 2 ^ 64 : Nat) : Int) := by
  omega

theorem ofWords_mod (w0 w1 w2 w3 : Nat) :
    ofWords (w0 % 2 ^ 64) (w1 % 2 ^ 64) (w2 % 2 ^ 64) (w3 % 2 ^ 64) = ofWords w0 w1 w2 w3 := by
  apply ext_toNat
  simp only [toNat_ofWords, Nat.mod_mod]

theorem toNat_emod_natCast (t : Nat) : ((t : Int) % 2 ^ 64).toNat = t % 2 ^ 64 := by
  omega

theorem toNat_subWords (a b : U256) : (subWords a b).toNat = (Mpvss.L + a.toNat + 2 ^ 256 - b.toNat) % 2 ^ 256 := by
  have hp := toNat_eq_words prime
  rw [toNat_prime] at hp
  have ha := toNat_eq_words a
  have hb := toNat_eq_words b
  have := word_lt b 0
  have := word_lt b 1
  have := word_lt b 2
  have := word_lt b 3
  simp only [subWords, Int.add_zero]
  rw [subStep, subStep, subStep]
  simp only [toNat_emod_natCast, ofWords_mod]
  rw [toNat_ofWords_carry]
  congr 1
  omega

/-- `operator-` on canonical scalars is the difference modulo `L`. -/
theorem toNat_sub {a b : U256} (ha : a.toNat < Mpvss.L) (hb : b.toNat < Mpvss.L) :
    (sub a b).toNat = (a.toNat + Mpvss.L - b.toNat) % Mpvss.L := by
  have hL : Mpvss.L < 2 ^ 255 := by decide
  have hdiff : (subWords a b).toNat = a.toNat + Mpvss.L - b.toNat := by
    rw [toNat_subWords, Nat.mod_eq_sub_mod (by omega), Nat.mod_eq_of_lt (by omega)]
    omega
  rw [sub, toNat_reduce (by omega), hdiff]

theorem toNat_neg {a : U256} (ha : a.toNat < Mpvss.L) : (neg a).toNat = (Mpvss.L - a.toNat) % Mpvss.L := by
  have h0 : zero.toNat = 0 := rfl
  rw [neg, toNat_sub (by rw [h0]; decide) ha, h0, Nat.zero_add]

theorem toNat_negative {a : U256} (h0 : 0 < a.toNat) (ha : a.toNat < Mpvss.L) :
    (negative a).toNat = (Mpvss.L - a.toNat) % Mpvss.L := by
  rw [negative, toNat_sub32_of_le (by rw [toNat_prime]; omega), toNat_prime, Nat.mod_eq_of_lt (by omega)]

/-- `Negative()` of zero is `prime` itself, not the canonical zero, and
`operator==` tells it apart from zero. -/
theorem negative_zero : (negative zero).toNat = Mpvss.L ∧ eq (negative zero) zero = false := by
  decide

/-! ## Reduction of a 32-byte string -/

theorem byte_31_shiftRight_four (value : U256) : value.byte 31 >>> 4 = value.toNat / 2 ^ 252 := by
  have := value.lt
  simp only [byte, Nat.shiftRight_eq_div_pow]
  omega

theorem toNat_reminders {t : Nat} (h2 : 2 ≤ t) (h16 : t < 16) :
    (reminders.getD t zero).toNat + (t - 1) * Mpvss.L = t * 2 ^ 252 ∧ (reminders.getD t zero).toNat < 2 ^ 252 := by
  interval_cases t <;> decide

theorem toNat_foldTop {value : U256} (hge : Mpvss.L ≤ value.toNat) (ht : value.toNat / 2 ^ 252 ≠ 1) :
    (add32 (low252 value) (reminders.getD (value.toNat / 2 ^ 252) zero)).1.toNat +
        (value.toNat / 2 ^ 252 - 1) * Mpvss.L = value.toNat ∧
      (add32 (low252 value) (reminders.getD (value.toNat / 2 ^ 252) zero)).1.toNat < 2 * Mpvss.L := by
  have hv := value.lt
  have hL : Mpvss.L = 2 ^ 252 + 27742317777372353535851937790883648493 := rfl
  have hlow : (low252 value).toNat = value.toNat % 2 ^ 252 := rfl
  obtain ⟨hrem, hremlt⟩ := toNat_reminders (t := value.toNat / 2 ^ 252) (by omega) (by omega)
  rw [toNat_add32_of_lt (by rw [hlow]; omega), hlow]
  rw [hL] at hrem ⊢
  constructor <;> omega

theorem toNat_reduceCarry_zero (value : U256) : (reduceCarry value 0).toNat = value.toNat % Mpvss.L := by
  simp only [reduceCarry, if_true, byte_31_shiftRight_four]
  rw [← reduce.eq_1]
  split_ifs with hge ht <;> rw [ge_iff_le, compare32_nonneg_iff, toNat_prime] at hge
  · -- the top nibble is one: the value is below `2 * L` and one subtraction does
    have : value.toNat < 2 * Mpvss.L := by
      have hL : Mpvss.L = 2 ^ 252 + 27742317777372353535851937790883648493 := rfl
      omega
    rw [toNat_sub32_of_le (by rwa [toNat_prime]), toNat_prime, Nat.mod_eq_sub_mod hge, Nat.mod_eq_of_lt (by omega)]
  · obtain ⟨hfold, hlt⟩ := toNat_foldTop hge ht
    rw [toNat_reduce hlt, ← Nat.add_mul_mod_self_right _ (value.toNat / 2 ^ 252 - 1), hfold]
  · rw [Nat.mod_eq_of_lt (by omega)]

/-- `CSC25519(md32)` is the little-endian number of the 32 bytes modulo `L`. -/
theorem toNat_ofBytes (md32 : List UInt8) :
    (ofBytes md32).toNat = LittleEndian.decode (md32.take 32) % Mpvss.L :=
  toNat_reduceCarry_zero _

/-! ## As elements of `ZMod L`

On canonical operands the operations are those of the scalar field that
`Mpvss` computes in. -/

theorem natCast_add {a b : U256} (ha : a.toNat < Mpvss.L) (hb : b.toNat < Mpvss.L) :
    ((add a b).toNat : Mpvss.SC25519) = a.toNat + b.toNat := by
  rw [toNat_add ha hb, ZMod.natCast_mod, Nat.cast_add]

theorem natCast_sub {a b : U256} (ha : a.toNat < Mpvss.L) (hb : b.toNat < Mpvss.L) :
    ((sub a b).toNat : Mpvss.SC25519) = a.toNat - b.toNat := by
  rw [toNat_sub ha hb, ZMod.natCast_mod, Nat.cast_sub (by omega), Nat.cast_add, ZMod.natCast_self, add_zero]

theorem natCast_neg {a : U256} (ha : a.toNat < Mpvss.L) : ((neg a).toNat : Mpvss.SC25519) = -a.toNat := by
  rw [toNat_neg ha, ZMod.natCast_mod, Nat.cast_sub ha.le, ZMod.natCast_self, zero_sub]

theorem natCast_ofBytes (md32 : List UInt8) :
    ((ofBytes md32).toNat : Mpvss.SC25519) = LittleEndian.decode (md32.take 32) := by
  rw [toNat_ofBytes, ZMod.natCast_mod]

end CSC25519

end Multiverse.Crypto
