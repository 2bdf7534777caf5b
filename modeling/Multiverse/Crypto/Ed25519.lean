import Multiverse.Crypto.FP25519

/-! # Points of `curve25519`

`CEdwards25519` of `crypto/curve25519/ed25519.cpp` is a point of the twisted
Edwards curve `-x ^ 2 + y ^ 2 = 1 + d * x ^ 2 * y ^ 2` in extended
coordinates `(X : Y : Z : T)`. `Add` and `Double` compute the completed point
`(x, y, z, t)` and multiply it out (`FromP1P1`); `AddPrescalar` adds and
doubles four times, computing `T` after the last doubling only; `ScalarMult`
runs the nibbles of the scalar from the top through a table of the multiples
`0` to `15` of the point.

`Unpack` decodes `y` with `CFP25519(md32)`, which drops bit 255 and reduces,
and recovers `x` as the square root of `(y ^ 2 - 1) / (d * y ^ 2 + 1)` with the
sign of bit 255. An encoding whose `y` is `1` or `-1` gives `x = 0` whatever
its sign bit (`unpack_of_square_eq_one`), and an encoding of `y` at least `p`
gives the point of `y - p`: both are accepted, and `Pack` writes the point
back as another string.
-/

namespace Multiverse.Crypto

open U256

/-- A point in extended coordinates. -/
structure CEdwards25519 where
  fX : U256
  fY : U256
  fZ : U256
  fT : U256
  deriving DecidableEq

namespace CEdwards25519

open CFP25519

/-- The completed point `(x, y, z, t)` that `FromP1P1` multiplies out. -/
structure P1P1 where
  x : U256
  y : U256
  z : U256
  t : U256

/-- `ecd`: `d = -121665 / 121666`. -/
def ecd : U256 := CFP25519.ofBytes [0xA3, 0x78, 0x59, 0x13, 0xCA, 0x4D, 0xEB, 0x75, 0xAB, 0xD8, 0x41, 0x41, 0x4D,
  0x0A, 0x70, 0x00, 0x98, 0xE8, 0x79, 0x77, 0x79, 0x40, 0xC7, 0x8C, 0x73, 0xFE, 0x6F, 0x2B, 0xEE, 0x6C, 0x03, 0x52]

/-- `ecd2`: `2 * d`. -/
def ecd2 : U256 := CFP25519.ofBytes [0x59, 0xf1, 0xb2, 0x26, 0x94, 0x9b, 0xd6, 0xeb, 0x56, 0xb1, 0x83, 0x82, 0x9a,
  0x14, 0xe0, 0x00, 0x30, 0xd1, 0xf3, 0xee, 0xf2, 0x80, 0x8e, 0x19, 0xe7, 0xfc, 0xdf, 0x56, 0xdc, 0xd9, 0x06, 0x24]

/-- `CEdwards25519()`: the neutral point `(0 : 1 : 1 : 0)`. -/
def identity : CEdwards25519 := ⟨zero, ofUInt64 1, ofUInt64 1, zero⟩

/-- `CEdwards25519(x, y)`. -/
def ofXY (x y : U256) : CEdwards25519 := ⟨x, y, ofUInt64 1, CFP25519.mul x y⟩

/-- `base`. -/
def base : CEdwards25519 :=
  ofXY
    (CFP25519.ofBytes [0x1A, 0xD5, 0x25, 0x8F, 0x60, 0x2D, 0x56, 0xC9, 0xB2, 0xA7, 0x25, 0x95, 0x60, 0xC7, 0x2C,
      0x69, 0x5C, 0xDC, 0xD6, 0xFD, 0x31, 0xE2, 0xA4, 0xC0, 0xFE, 0x53, 0x6E, 0xCD, 0xD3, 0x36, 0x69, 0x21])
    (CFP25519.ofBytes (0x58 :: List.replicate 31 0x66))

/-- `FromP1P1`. -/
def fromP1P1 (r : P1P1) : CEdwards25519 :=
  ⟨CFP25519.mul r.x r.t, CFP25519.mul r.y r.z, CFP25519.mul r.z r.t, CFP25519.mul r.x r.y⟩

/-- The completed sum of `Add` and of the first part of `AddPrescalar`. -/
def addP1P1 (p q : CEdwards25519) : P1P1 :=
  let a := CFP25519.mul (CFP25519.sub p.fY p.fX) (CFP25519.sub q.fY q.fX)
  let b := CFP25519.mul (CFP25519.add p.fY p.fX) (CFP25519.add q.fY q.fX)
  let c := CFP25519.mul (CFP25519.mul p.fT q.fT) ecd2
  let d := CFP25519.mul p.fZ q.fZ
  let d := CFP25519.add d d
  ⟨CFP25519.sub b a, CFP25519.add b a, CFP25519.add d c, CFP25519.sub d c⟩

/-- The completed double of `Double` and of the loop of `AddPrescalar`. -/
def doubleP1P1 (p : CEdwards25519) : P1P1 :=
  let a := square p.fX
  let b := square p.fY
  let c := square p.fZ
  let c := CFP25519.add c c
  let d := CFP25519.neg a
  let e := square (CFP25519.add p.fX p.fY)
  let g := CFP25519.add d b
  ⟨CFP25519.sub (CFP25519.sub e a) b, CFP25519.sub d b, g, CFP25519.sub g c⟩

/-- `Add(q)`. -/
def add (p q : CEdwards25519) : CEdwards25519 := fromP1P1 (addP1P1 p q)

/-- `Double()`. -/
def double (p : CEdwards25519) : CEdwards25519 := fromP1P1 (doubleP1P1 p)

/-- `X`, `Y` and `Z` of `FromP1P1`, with `T` left as it was. -/
def setXYZ (r : P1P1) (p : CEdwards25519) : CEdwards25519 :=
  { p with fX := CFP25519.mul r.x r.t, fY := CFP25519.mul r.y r.z, fZ := CFP25519.mul r.z r.t }

/-- One doubling of `AddPrescalar`, with the completed point it multiplied out. -/
def doubleStep (pr : CEdwards25519 × P1P1) : CEdwards25519 × P1P1 :=
  let r := doubleP1P1 pr.1
  (setXYZ r pr.1, r)

/-- `AddPrescalar(q)`: one addition and four doublings, `T` from the last. -/
def addPrescalar (p q : CEdwards25519) : CEdwards25519 :=
  let r := addP1P1 p q
  let (p, r) := Nat.repeat doubleStep 4 (setXYZ r p, r)
  { p with fT := CFP25519.mul r.x r.y }

/-- `CalcPrescalar()`: `0` and the point, then for each even `i` from 2 to 14
the double of entry `i / 2` and that plus the point. -/
def calcPrescalar (p : CEdwards25519) : List CEdwards25519 :=
  (List.range 7).foldl (fun pre k =>
    let dbl := double (pre.getD (k + 1) identity)
    pre ++ [dbl, add dbl p]) [identity, p]

/-- The first loop of `ScalarMult`: from `i` down, the first index above zero
of a nonzero byte, or zero. -/
def topIndex (u8 : List UInt8) : Nat → Nat
  | 0 => 0
  | i + 1 => if u8.getD (i + 1) 0 = 0 then topIndex u8 i else i + 1

/-- `ScalarMult(u8, size)`: both nibbles of each byte from the top nonzero
one down to byte 1 by `AddPrescalar`, then byte 0, its low nibble by a plain
`Add`. The table is computed afresh. -/
def scalarMult (p : CEdwards25519) (u8 : List UInt8) : CEdwards25519 :=
  let pre := fun i => (calcPrescalar p).getD i identity
  let top := topIndex u8 (u8.length - 1)
  let r := (List.range top).reverse.foldl (fun r i =>
    let byte := (u8.getD (i + 1) 0).toNat
    addPrescalar (addPrescalar r (pre (byte >>> 4))) (pre (byte &&& 15))) identity
  let byte := (u8.getD 0 0).toNat
  add (addPrescalar r (pre (byte >>> 4))) (pre (byte &&& 15))

/-- `operator-()`. -/
def neg (p : CEdwards25519) : CEdwards25519 := ⟨CFP25519.neg p.fX, p.fY, p.fZ, CFP25519.neg p.fT⟩

/-- `operator==`: `X / Z` and `Y / Z` compared by cross products. -/
def eq (p q : CEdwards25519) : Bool :=
  compare32 (CFP25519.mul p.fX q.fZ) (CFP25519.mul q.fX p.fZ) == 0 &&
    compare32 (CFP25519.mul p.fY q.fZ) (CFP25519.mul q.fY p.fZ) == 0

/-- `Unpack(md32)`: whether it succeeds, and the point it leaves. -/
def unpack (md32 : List UInt8) : Bool × CEdwards25519 :=
  let fZ := ofUInt64 1
  let fY := CFP25519.ofBytes md32
  let y2 := square (CFP25519.ofBytes md32)
  let x2 := div (CFP25519.sub y2 fZ) (CFP25519.add (CFP25519.mul y2 ecd) fZ)
  let fX := sqrt x2
  if isZero fX then (isZero x2, ⟨fX, fY, fZ, zero⟩)
  else
    let fX := if parity fX ≠ (md32.getD 31 0).toNat >>> 7 then CFP25519.neg fX else fX
    (true, ⟨fX, fY, fZ, CFP25519.mul fX fY⟩)

/-- `Pack(md32)`: `y / Z` packed, with the parity of `x / Z` in bit 255. -/
def pack (p : CEdwards25519) : List UInt8 :=
  let zi := inverse p.fZ
  let tx := CFP25519.mul p.fX zi
  let ty := CFP25519.mul p.fY zi
  let md32 := CFP25519.pack ty
  md32.set 31 (md32.getD 31 0 ^^^ (parity tx <<< 7).toUInt8)

/-! ## Decoding `y = 1` and `y = -1` -/

/-- A string whose `y` squares to one decodes to `x = 0`, accepted whatever
its sign bit: the numerator `y ^ 2 - 1` is zero, and so is its quotient. -/
theorem unpack_of_square_eq_one {md32 : List UInt8} (h : square (CFP25519.ofBytes md32) = ofUInt64 1) :
    unpack md32 = (true, ⟨zero, CFP25519.ofBytes md32, ofUInt64 1, zero⟩) := by
  have hnum : CFP25519.sub (ofUInt64 1) (ofUInt64 1) = zero := by decide
  simp only [unpack, h, hnum, div_zero_left, sqrt_zero]
  rfl

/-- The strings `y = 1` with the sign bit set and `y = p + 1` are accepted,
and packed back as the canonical encoding of `y = 1`. -/
theorem unpack_accepts_noncanonical_encodings :
    (unpack (0x01 :: List.replicate 30 0 ++ [0x80])).1 = true ∧
      pack (unpack (0x01 :: List.replicate 30 0 ++ [0x80])).2 = 0x01 :: List.replicate 31 0 ∧
      (unpack (0xEE :: List.replicate 30 0xFF ++ [0x7F])).1 = true ∧
      pack (unpack (0xEE :: List.replicate 30 0xFF ++ [0x7F])).2 = 0x01 :: List.replicate 31 0 := by
  rw [unpack_of_square_eq_one (by decide), unpack_of_square_eq_one (by decide)]
  decide

end CEdwards25519

end Multiverse.Crypto
