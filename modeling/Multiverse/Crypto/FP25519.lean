import Multiverse.Crypto.Base25519

/-! # The field of `curve25519`

`CFP25519` of `crypto/curve25519/fp25519.cpp` keeps an element of the field
modulo `p = 2 ^ 255 - 19` in one 32-byte buffer. The constructor from 32 bytes
drops bit 255 and reduces (`Reduce()` subtracts `prime` while it can); a sum is
reduced the same way, a difference adds `prime` back on a borrow, and a product
folds the high 256 bits with the factor `38` and then carries in `Range` until
no bit above 255 is left. `Inverse()` is a binary extended gcd on signed
256-bit values, `Sqrt()` the exponentiation by `(p + 3) / 8` with the
correction by `sqrt(-1)`, and `Pack` writes the value with the last
non-canonical values `p` to `2 ^ 255 - 1` brought below `p`.

The loops of `Reduce()`, `Range`, and the two of `Inverse()` are written with
a bound on their rounds: three for `Reduce()` and `Range` (every buffer is
below `3 * p`, and a carry into `Range` is gone after two rounds), `256` for
the halving of a nonzero word and `inverseRounds` for the gcd.
-/

namespace Multiverse.Crypto

open U256

namespace CFP25519

/-- `prime`: `2 ^ 255 - 19`. -/
def prime : U256 := ofWords 0xFFFFFFFFFFFFFFED 0xFFFFFFFFFFFFFFFF 0xFFFFFFFFFFFFFFFF 0x7FFFFFFFFFFFFFFF

/-- `halfPrime`: `(p - 1) / 2`. -/
def halfPrime : U256 := ofWords 0xFFFFFFFFFFFFFFF6 0xFFFFFFFFFFFFFFFF 0xFFFFFFFFFFFFFFFF 0x3FFFFFFFFFFFFFFF

/-- `minusOne`: `p - 1`. -/
def minusOne : U256 := ofWords 0xFFFFFFFFFFFFFFEC 0xFFFFFFFFFFFFFFFF 0xFFFFFFFFFFFFFFFF 0x7FFFFFFFFFFFFFFF

/-- The loop of `Reduce()`, at most `fuel` rounds. -/
def reduceLoop : Nat → U256 → U256
  | 0, value => value
  | fuel + 1, value => if compare32 value prime ≥ 0 then reduceLoop fuel (sub32 value prime).1 else value

/-- `Reduce()`. -/
def reduce (value : U256) : U256 := reduceLoop 3 value

/-- `CFP25519(const uint8_t* md32)` on the buffer read: bit 255 cleared, then reduced. -/
def ofValue (value : U256) : U256 :=
  reduce (ofWords (value.word 0) (value.word 1) (value.word 2) (value.word 3 &&& 0x7FFFFFFFFFFFFFFF))

/-- `CFP25519(md32)`. -/
def ofBytes (md32 : List UInt8) : U256 := ofValue (U256.ofBytes md32)

/-- `Pack(md32)`: the buffer, with `p` to `2 ^ 255 - 1` written as their
difference from `p`. -/
def pack (value : U256) : List UInt8 :=
  if value.word 3 = 0x7FFFFFFFFFFFFFFF ∧ value.word 2 = 0xFFFFFFFFFFFFFFFF ∧
      value.word 1 = 0xFFFFFFFFFFFFFFFF ∧ value.word 0 ≥ 0xFFFFFFFFFFFFFFED then
    toBytes (ofWords (value.word 0 - 0xFFFFFFFFFFFFFFED) 0 0 0)
  else toBytes value

/-- `IsZero()`. -/
def isZero (value : U256) : Bool := isZero32 value

/-- `Parity()`: the low bit, flipped for a value at least `p`. -/
def parity (value : U256) : Nat :=
  let atPrime := value.word 3 = prime.word 3 ∧ value.word 2 = prime.word 2 ∧
    value.word 1 = prime.word 1 ∧ value.word 0 ≥ prime.word 0
  (value.word 0 ^^^ (if atPrime then 1 else 0)) &&& 1

/-- `operator+=`. -/
def add (a b : U256) : U256 := reduce (add32 a b).1

/-- `operator-=`: `prime` is added back when `Sub32` borrows. -/
def sub (a b : U256) : U256 :=
  let (diff, borrow) := sub32 a b
  if borrow > 0 then (add32 diff prime).1 else diff

/-- `operator-()`: zero minus the value. -/
def neg (a : U256) : U256 := sub zero a

/-- One round of the loop of `Range`: the bits from 255 up, times `19`,
added back into the buffer with bit 255 cleared, with the carry out of the
top word. The `uint32_t` carry is shifted and multiplied modulo `2 ^ 32`. -/
def rangeCarry (carry : Nat) (value : U256) : Nat :=
  ((carry <<< 1) % 2 ^ 32 + value.word 3 >>> 63) * 19 % 2 ^ 32

def rangeAdd (carry : Nat) (value : U256) : U256 × Nat :=
  let v3 := value.word 3 &&& 0x7FFFFFFFFFFFFFFF
  let s0 := (value.word 0 + carry) % 2 ^ 64
  let c0 := if s0 ≥ value.word 0 then 0 else 1
  let s1 := (value.word 1 + c0) % 2 ^ 64
  let c1 := if s1 ≥ value.word 1 then 0 else 1
  let s2 := (value.word 2 + c1) % 2 ^ 64
  let c2 := if s2 ≥ value.word 2 then 0 else 1
  let s3 := (v3 + c2) % 2 ^ 64
  let c3 := if s3 ≥ v3 then 0 else 1
  (ofWords s0 s1 s2 s3, c3)

/-- The loop of `Range(carry)`, at most `fuel` rounds, then `Reduce()`. -/
def rangeLoop : Nat → Nat → U256 → U256
  | 0, _, value => value
  | fuel + 1, carry, value =>
    let carry := rangeCarry carry value
    if carry = 0 then reduce value
    else
      let (value, carry) := rangeAdd carry value
      rangeLoop fuel carry value

/-- `Range(carry)`. -/
def range (carry : Nat) (value : U256) : U256 := rangeLoop 3 carry value

/-- The loop of `operator*=` over the eight columns of `Mul32`: column `i`
takes the carry of column `i - 1` and `38` times column `i + 4`, as a
`__uint128_t`; the carry out is the `uint64_t` left of column 3. -/
def foldColumns (m : List Nat) : U256 × Nat :=
  let w := fun i => m.getD i 0
  let m0 := (w 0 + w 4 * 38) % 2 ^ 128
  let m1 := (w 1 + m0 >>> 64 + w 5 * 38) % 2 ^ 128
  let m2 := (w 2 + m1 >>> 64 + w 6 * 38) % 2 ^ 128
  let m3 := (w 3 + m2 >>> 64 + w 7 * 38) % 2 ^ 128
  (ofWords m0 m1 m2 m3, m3 >>> 64)

/-- `operator*=`: the `uint64_t` carry is passed to `Range` as a `uint32_t`. -/
def mul (a b : U256) : U256 :=
  let (value, carry) := foldColumns (mul32 a b)
  range (carry % 2 ^ 32) value

/-- `Square()`. -/
def square (a : U256) : U256 := mul a a

/-- One pass of the `do`-`while` loop of `Inverse()` that halves `u` (or `v`)
while it is even and halves `B` (or `D`) with it, as `(B - prime) / 2` when
`B` is odd. -/
def halveLoop : Nat → U256 → U256 → U256 × U256
  | 0, u, b => (u, b)
  | fuel + 1, u, b =>
    let u := halfSigned32 u
    let b := if isEven b then halfSigned32 b else (sub32 (halfSigned32 b) halfPrime).1
    if isEven u then halveLoop fuel u b else (u, b)

/-- The halving of `Inverse()`: nothing for an odd `u`, else the loop and one
`ReduceSigned32` of `B`. -/
def halve (u b : U256) : U256 × U256 :=
  if isEven u then
    let (u, b) := halveLoop 256 u b
    (u, reduceSigned32 b prime)
  else (u, b)

/-- The main loop of `Inverse()`, at most `fuel` rounds, on `u`, `v`, `B`, `D`;
it returns `D` once `v` is one. -/
def inverseLoop : Nat → U256 → U256 → U256 → U256 → U256
  | 0, _, _, _, d => d
  | fuel + 1, u, v, b, d =>
    if isOne32 v then d
    else
      let (u, b) := halve u b
      let (v, d) := halve v d
      if compareSigned32 u v ≥ 0 then
        inverseLoop fuel (sub32 u v).1 v (reduceSigned32 (sub32 b d).1 prime) d
      else inverseLoop fuel u (sub32 v u).1 b (reduceSigned32 (sub32 d b).1 prime)

/-- The rounds allowed to the gcd of `Inverse()`: each round after the first
takes at least one bit off `u * v`, which starts below `2 ^ 510`. -/
def inverseRounds : Nat := 1024

/-- `Inverse()`. -/
def inverse (value : U256) : U256 :=
  if isZero value then zero
  else ofValue (reduceSigned32 (inverseLoop inverseRounds prime value zero (ofUInt64 1)) prime)

/-- `operator/`. -/
def div (a b : U256) : U256 := mul a (inverse b)

/-- The table `pre` of `Power`: one and `x`, then for each even `i` from 2
to 14 the square of `pre[i / 2]` and that times `x`. -/
def powerTable (x : U256) : List U256 :=
  (List.range 7).foldl (fun pre k =>
    let sq := square (pre.getD (k + 1) zero)
    pre ++ [sq, mul sq x]) [ofUInt64 1, x]

/-- `Power(md32)`: four squarings and one product by an entry of the table
for each nibble, from the top byte down. -/
def power (x : U256) (md32 : List UInt8) : U256 :=
  let pre := fun i => (powerTable x).getD i zero
  (List.range 32).reverse.foldl (fun r i =>
    let byte := (md32.getD i 0).toNat
    let r := mul (square (square (square (square r)))) (pre (byte >>> 4))
    mul (square (square (square (square r)))) (pre (byte &&& 15))) (ofUInt64 1)

/-- `Power58()`: `x ^ (2 ^ 252 - 3)`, as `x ^ (2 ^ 252)` over `x ^ 3`. -/
def power58 (value : U256) : U256 :=
  let g := square (ofValue value)
  let g3 := mul value g
  let g := Nat.repeat square 251 g
  mul g (inverse g3)

/-- The bytes of `sqrt(-1)` in `Sqrt()`. -/
def sqrtMinusOne : List UInt8 :=
  [0xb0, 0xa0, 0x0e, 0x4a, 0x27, 0x1b, 0xee, 0xc4, 0x78, 0xe4, 0x2f, 0xad, 0x06, 0x18, 0x43, 0x2f,
    0xa7, 0xd7, 0xfb, 0x3d, 0x99, 0x00, 0x4d, 0x2b, 0x0b, 0xdf, 0xc1, 0x4f, 0x80, 0x24, 0x83, 0x2b]

/-- `Sqrt()`: `x ^ ((p + 3) / 8)` when `x ^ ((p - 1) / 4)` is one, that times
`sqrt(-1)` when it is `-1`, and zero otherwise. -/
def sqrt (value : U256) : U256 :=
  if isZero value then zero
  else
    let z58 := power58 value
    let z38 := mul z58 value
    let z14 := mul z58 z38
    if isOne32 z14 then z38
    else if compare32 z14 minusOne = 0 then mul z38 (ofBytes sqrtMinusOne)
    else zero

/-! ## Zero -/

theorem mul_zero_left (b : U256) : mul zero b = zero := by
  rw [mul, mul32_zero_left]
  rfl

theorem div_zero_left (b : U256) : div zero b = zero := mul_zero_left _

theorem sqrt_zero : sqrt zero = zero := rfl

end CFP25519

end Multiverse.Crypto
