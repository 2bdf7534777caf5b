import Mathlib.Data.Nat.Bitwise
import Mathlib.Tactic.IntervalCases
import Multiverse.Common.Transaction
import Multiverse.Lib.LittleEndian

/-! # Base32 addresses

`crypto/base32.cpp` writes 32 bytes and their CRC-24Q (`crypto/crc24q.cpp`)
as 56 characters of the alphabet `0123456789abcdefghjkmnpqrstvwxyz`, five
bits to a character and eight characters to each five bytes. `Base32Decode`
reads the characters back through a table of digits and accepts them when
the CRC of the 35 bytes is zero; `CMvAddress` writes the prefix as a digit in
front of them.

Decoding inverts encoding on every 32 bytes. The check meant to reject a
character outside the alphabet, `sum &= idx[k]` from `sum = 0`, never fails,
and the digit `-1` of such a character enters the bit arithmetic with the low
bits of 31, the digit of `z`.
-/

namespace Multiverse.Crypto

/-- The characters of `Base32Encode5Bytes`, as bytes. -/
def alphabet : List UInt8 :=
  ['0', '1', '2', '3', '4', '5', '6', '7', '8', '9', 'a', 'b', 'c', 'd', 'e', 'f', 'g', 'h', 'j', 'k', 'm',
    'n', 'p', 'q', 'r', 's', 't', 'v', 'w', 'x', 'y', 'z'].map Char.toUInt8

/-- The `digit` table of `Base32Decode5Bytes`: the value of each character of
the alphabet in either case, and `-1` for every other byte. -/
def digit : List Int := [
  -1, -1, -1, -1, -1, -1, -1, -1, -1, -1, -1, -1, -1, -1, -1, -1, -1, -1, -1, -1, -1, -1, -1, -1, -1, -1, -1, -1, -1, -1, -1, -1,
  -1, -1, -1, -1, -1, -1, -1, -1, -1, -1, -1, -1, -1, -1, -1, -1, 0, 1, 2, 3, 4, 5, 6, 7, 8, 9, -1, -1, -1, -1, -1, -1,
  -1, 10, 11, 12, 13, 14, 15, 16, 17, -1, 18, 19, -1, 20, 21, -1, 22, 23, 24, 25, 26, -1, 27, 28, 29, 30, 31, -1, -1, -1, -1, -1,
  -1, 10, 11, 12, 13, 14, 15, 16, 17, -1, 18, 19, -1, 20, 21, -1, 22, 23, 24, 25, 26, -1, 27, 28, 29, 30, 31, -1, -1, -1, -1, -1,
  -1, -1, -1, -1, -1, -1, -1, -1, -1, -1, -1, -1, -1, -1, -1, -1, -1, -1, -1, -1, -1, -1, -1, -1, -1, -1, -1, -1, -1, -1, -1, -1,
  -1, -1, -1, -1, -1, -1, -1, -1, -1, -1, -1, -1, -1, -1, -1, -1, -1, -1, -1, -1, -1, -1, -1, -1, -1, -1, -1, -1, -1, -1, -1, -1,
  -1, -1, -1, -1, -1, -1, -1, -1, -1, -1, -1, -1, -1, -1, -1, -1, -1, -1, -1, -1, -1, -1, -1, -1, -1, -1, -1, -1, -1, -1, -1, -1,
  -1, -1, -1, -1, -1, -1, -1, -1, -1, -1, -1, -1, -1, -1, -1, -1, -1, -1, -1, -1, -1, -1, -1, -1, -1, -1, -1, -1, -1, -1, -1, -1]

/-- `idx[k] = digit[*psz]`, the byte the `char` holds: 255 for `-1`. The bit
arithmetic after it keeps at most the low eight bits of the `int` a `char`
is promoted to, where `-1` and 255 agree. A byte from `0x80` on indexes the
table unsigned here; where `char` is signed it indexes before the table. -/
def digitOf (c : UInt8) : Nat := ((digit.getD c.toNat (-1)) % 256).toNat

/-- `Base32Encode5Bytes`: the forty bits of five bytes, five to a character,
the most significant first. -/
def base32Encode5Bytes (md5 : List UInt8) : List UInt8 :=
  let md := fun k => (md5.getD k 0).toNat
  [(md 0 >>> 3) &&& 0x1F, ((md 0 <<< 2) &&& 0x1C) ||| ((md 1 >>> 6) &&& 0x03), (md 1 >>> 1) &&& 0x1F,
      ((md 1 <<< 4) &&& 0x10) ||| ((md 2 >>> 4) &&& 0x0F), ((md 2 <<< 1) &&& 0x1E) ||| ((md 3 >>> 7) &&& 0x01),
      (md 3 >>> 2) &&& 0x1F, ((md 3 <<< 3) &&& 0x18) ||| ((md 4 >>> 5) &&& 0x07), md 4 &&& 0x1F].map
    fun v => alphabet.getD v 0

/-- `Base32Decode5Bytes`: five bytes from the digits of eight characters, and
whether `sum >> 7` is zero. -/
def base32Decode5Bytes (psz : List UInt8) : List UInt8 × Bool :=
  let idx := fun k => digitOf (psz.getD k 0)
  let sum := (List.range 8).foldl (fun sum k => sum &&& idx k) 0
  ([((idx 0 <<< 3) &&& 0xF8) ||| ((idx 1 >>> 2) &&& 0x07),
      ((idx 1 <<< 6) &&& 0xC0) ||| ((idx 2 <<< 1) &&& 0x3E) ||| ((idx 3 >>> 4) &&& 0x01),
      ((idx 3 <<< 4) &&& 0xF0) ||| ((idx 4 >>> 1) &&& 0x0F),
      ((idx 4 <<< 7) &&& 0x80) ||| ((idx 5 <<< 2) &&& 0x7C) ||| ((idx 6 >>> 3) &&& 0x03),
      ((idx 6 <<< 5) &&& 0xE0) ||| (idx 7 &&& 0x1F)].map UInt8.ofNat,
    sum >>> 7 == 0)

/-- `crc24q_table`. -/
def crc24qTable : List Nat := [
  0x00000000, 0x01864CFB, 0x028AD50D, 0x030C99F6, 0x0493E6E1, 0x0515AA1A, 0x061933EC, 0x079F7F17,
  0x08A18139, 0x0927CDC2, 0x0A2B5434, 0x0BAD18CF, 0x0C3267D8, 0x0DB42B23, 0x0EB8B2D5, 0x0F3EFE2E,
  0x10C54E89, 0x11430272, 0x124F9B84, 0x13C9D77F, 0x1456A868, 0x15D0E493, 0x16DC7D65, 0x175A319E,
  0x1864CFB0, 0x19E2834B, 0x1AEE1ABD, 0x1B685646, 0x1CF72951, 0x1D7165AA, 0x1E7DFC5C, 0x1FFBB0A7,
  0x200CD1E9, 0x218A9D12, 0x228604E4, 0x2300481F, 0x249F3708, 0x25197BF3, 0x2615E205, 0x2793AEFE,
  0x28AD50D0, 0x292B1C2B, 0x2A2785DD, 0x2BA1C926, 0x2C3EB631, 0x2DB8FACA, 0x2EB4633C, 0x2F322FC7,
  0x30C99F60, 0x314FD39B, 0x32434A6D, 0x33C50696, 0x345A7981, 0x35DC357A, 0x36D0AC8C, 0x3756E077,
  0x38681E59, 0x39EE52A2, 0x3AE2CB54, 0x3B6487AF, 0x3CFBF8B8, 0x3D7DB443, 0x3E712DB5, 0x3FF7614E,
  0x4019A3D2, 0x419FEF29, 0x429376DF, 0x43153A24, 0x448A4533, 0x450C09C8, 0x4600903E, 0x4786DCC5,
  0x48B822EB, 0x493E6E10, 0x4A32F7E6, 0x4BB4BB1D, 0x4C2BC40A, 0x4DAD88F1, 0x4EA11107, 0x4F275DFC,
  0x50DCED5B, 0x515AA1A0, 0x52563856, 0x53D074AD, 0x544F0BBA, 0x55C94741, 0x56C5DEB7, 0x5743924C,
  0x587D6C62, 0x59FB2099, 0x5AF7B96F, 0x5B71F594, 0x5CEE8A83, 0x5D68C678, 0x5E645F8E, 0x5FE21375,
  0x6015723B, 0x61933EC0, 0x629FA736, 0x6319EBCD, 0x648694DA, 0x6500D821, 0x660C41D7, 0x678A0D2C,
  0x68B4F302, 0x6932BFF9, 0x6A3E260F, 0x6BB86AF4, 0x6C2715E3, 0x6DA15918, 0x6EADC0EE, 0x6F2B8C15,
  0x70D03CB2, 0x71567049, 0x725AE9BF, 0x73DCA544, 0x7443DA53, 0x75C596A8, 0x76C90F5E, 0x774F43A5,
  0x7871BD8B, 0x79F7F170, 0x7AFB6886, 0x7B7D247D, 0x7CE25B6A, 0x7D641791, 0x7E688E67, 0x7FEEC29C,
  0x803347A4, 0x81B50B5F, 0x82B992A9, 0x833FDE52, 0x84A0A145, 0x8526EDBE, 0x862A7448, 0x87AC38B3,
  0x8892C69D, 0x89148A66, 0x8A181390, 0x8B9E5F6B, 0x8C01207C, 0x8D876C87, 0x8E8BF571, 0x8F0DB98A,
  0x90F6092D, 0x917045D6, 0x927CDC20, 0x93FA90DB, 0x9465EFCC, 0x95E3A337, 0x96EF3AC1, 0x9769763A,
  0x98578814, 0x99D1C4EF, 0x9ADD5D19, 0x9B5B11E2, 0x9CC46EF5, 0x9D42220E, 0x9E4EBBF8, 0x9FC8F703,
  0xA03F964D, 0xA1B9DAB6, 0xA2B54340, 0xA3330FBB, 0xA4AC70AC, 0xA52A3C57, 0xA626A5A1, 0xA7A0E95A,
  0xA89E1774, 0xA9185B8F, 0xAA14C279, 0xAB928E82, 0xAC0DF195, 0xAD8BBD6E, 0xAE872498, 0xAF016863,
  0xB0FAD8C4, 0xB17C943F, 0xB2700DC9, 0xB3F64132, 0xB4693E25, 0xB5EF72DE, 0xB6E3EB28, 0xB765A7D3,
  0xB85B59FD, 0xB9DD1506, 0xBAD18CF0, 0xBB57C00B, 0xBCC8BF1C, 0xBD4EF3E7, 0xBE426A11, 0xBFC426EA,
  0xC02AE476, 0xC1ACA88D, 0xC2A0317B, 0xC3267D80, 0xC4B90297, 0xC53F4E6C, 0xC633D79A, 0xC7B59B61,
  0xC88B654F, 0xC90D29B4, 0xCA01B042, 0xCB87FCB9, 0xCC1883AE, 0xCD9ECF55, 0xCE9256A3, 0xCF141A58,
  0xD0EFAAFF, 0xD169E604, 0xD2657FF2, 0xD3E33309, 0xD47C4C1E, 0xD5FA00E5, 0xD6F69913, 0xD770D5E8,
  0xD84E2BC6, 0xD9C8673D, 0xDAC4FECB, 0xDB42B230, 0xDCDDCD27, 0xDD5B81DC, 0xDE57182A, 0xDFD154D1,
  0xE026359F, 0xE1A07964, 0xE2ACE092, 0xE32AAC69, 0xE4B5D37E, 0xE5339F85, 0xE63F0673, 0xE7B94A88,
  0xE887B4A6, 0xE901F85D, 0xEA0D61AB, 0xEB8B2D50, 0xEC145247, 0xED921EBC, 0xEE9E874A, 0xEF18CBB1,
  0xF0E37B16, 0xF16537ED, 0xF269AE1B, 0xF3EFE2E0, 0xF4709DF7, 0xF5F6D10C, 0xF6FA48FA, 0xF77C0401,
  0xF842FA2F, 0xF9C4B6D4, 0xFAC82F22, 0xFB4E63D9, 0xFCD11CCE, 0xFD575035, 0xFE5BC9C3, 0xFFDD8538]

/-- One byte of `crc24q`: the register, an `unsigned int`, shifted a byte up
and added modulo 2 to the entry that the byte and bits 16 to 23 of the
register pick. -/
def crc24qStep (crc : Nat) (b : UInt8) : Nat :=
  ((crc <<< 8) % 2 ^ 32) ^^^ crc24qTable.getD (b.toNat ^^^ (0xFF &&& (crc >>> 16))) 0

/-- `crc24q`: the low 24 bits of the register after every byte. -/
def crc24q (data : List UInt8) : Nat := data.foldl crc24qStep 0 &&& 0x00ffffff

/-- The three bytes of a CRC, the most significant first, as `Base32Encode`
puts them after the data. -/
def crcBytes (crc : Nat) : List UInt8 := [UInt8.ofNat (crc >>> 16), UInt8.ofNat (crc >>> 8), UInt8.ofNat crc]

/-- The loop of `Base32Encode`, five bytes at a time. -/
def base32EncodeGroups : Nat → List UInt8 → List UInt8
  | 0, _ => []
  | n + 1, md => base32Encode5Bytes (md.take 5) ++ base32EncodeGroups n (md.drop 5)

/-- `Base32Encode`: thirty bytes of `md32`, then its last two and its CRC. -/
def base32Encode (md32 : List UInt8) : List UInt8 :=
  let crc := crc24q (md32.take 32)
  base32EncodeGroups 6 md32 ++ base32Encode5Bytes ([md32.getD 30 0, md32.getD 31 0] ++ crcBytes crc)

/-- The loop of `Base32Decode`: five bytes from each eight characters, and
`false` at the first group whose check fails. -/
def base32DecodeGroups : Nat → List UInt8 → Option (List UInt8)
  | 0, _ => some []
  | n + 1, psz =>
    let (md5, ok) := base32Decode5Bytes (psz.take 8)
    if ok then (base32DecodeGroups n (psz.drop 8)).map (md5 ++ ·) else none

/-- `Base32Decode`: the 32 bytes written to `md32` when it returns true. -/
def base32Decode (strBase32 : List UInt8) : Option (List UInt8) :=
  if strBase32.length ≠ 56 then none
  else
    match base32DecodeGroups 7 strBase32 with
    | none => none
    | some data => if crc24q data ≠ 0 then none else some (data.take 32)

/-! ## Five bytes and eight characters -/

theorem digitOf_alphabet : ∀ v, v < 2 ^ 5 → digitOf (alphabet.getD v 0) = v := by decide

theorem foldl_and_zero (f : Nat → Nat) (l : List Nat) : l.foldl (fun sum k => sum &&& f k) 0 = 0 := by
  induction l with
  | nil => rfl
  | cons k l ih => simpa only [List.foldl_cons, Nat.zero_and] using ih

theorem base32Decode5Bytes_check (psz : List UInt8) : (base32Decode5Bytes psz).2 = true := by
  simp only [base32Decode5Bytes, foldl_and_zero]
  rfl

theorem eq_of_testBit_lt_eight {x y : Nat} (hx : x < 2 ^ 8) (hy : y < 2 ^ 8)
    (h : ∀ i < 8, x.testBit i = y.testBit i) : x = y := by
  apply Nat.eq_of_testBit_eq
  intro i
  by_cases hi : i < 8
  · exact h i hi
  · have hpow : 2 ^ 8 ≤ 2 ^ i := Nat.pow_le_pow_right (by decide) (by omega)
    rw [Nat.testBit_eq_false_of_lt (lt_of_lt_of_le hx hpow), Nat.testBit_eq_false_of_lt (lt_of_lt_of_le hy hpow)]

theorem decode_encode_bits {b0 b1 b2 b3 b4 : Nat} (h0 : b0 < 2 ^ 8) (h1 : b1 < 2 ^ 8) (h2 : b2 < 2 ^ 8)
    (h3 : b3 < 2 ^ 8) (h4 : b4 < 2 ^ 8) :
    let c0 := (b0 >>> 3) &&& 0x1F
    let c1 := ((b0 <<< 2) &&& 0x1C) ||| ((b1 >>> 6) &&& 0x03)
    let c2 := (b1 >>> 1) &&& 0x1F
    let c3 := ((b1 <<< 4) &&& 0x10) ||| ((b2 >>> 4) &&& 0x0F)
    let c4 := ((b2 <<< 1) &&& 0x1E) ||| ((b3 >>> 7) &&& 0x01)
    let c5 := (b3 >>> 2) &&& 0x1F
    let c6 := ((b3 <<< 3) &&& 0x18) ||| ((b4 >>> 5) &&& 0x07)
    let c7 := b4 &&& 0x1F
    [((c0 <<< 3) &&& 0xF8) ||| ((c1 >>> 2) &&& 0x07),
      ((c1 <<< 6) &&& 0xC0) ||| ((c2 <<< 1) &&& 0x3E) ||| ((c3 >>> 4) &&& 0x01),
      ((c3 <<< 4) &&& 0xF0) ||| ((c4 >>> 1) &&& 0x0F),
      ((c4 <<< 7) &&& 0x80) ||| ((c5 <<< 2) &&& 0x7C) ||| ((c6 >>> 3) &&& 0x03),
      ((c6 <<< 5) &&& 0xE0) ||| (c7 &&& 0x1F)] = [b0, b1, b2, b3, b4] := by
  intro c0 c1 c2 c3 c4 c5 c6 c7
  simp only [List.cons.injEq, and_true]
  refine ⟨?_, ?_, ?_, ?_, ?_⟩ <;>
    refine eq_of_testBit_lt_eight (by apply_rules [Nat.or_lt_two_pow, Nat.and_lt_two_pow] <;> decide) ‹_›
      fun i hi => ?_ <;>
    interval_cases i <;>
    simp only [c0, c1, c2, c3, c4, c5, c6, c7, Nat.testBit_or, Nat.testBit_and, Nat.testBit_shiftLeft,
      Nat.testBit_shiftRight] <;>
    simp [Nat.testBit_eq_decide_div_mod_eq]

theorem base32Decode5Bytes_base32Encode5Bytes (b0 b1 b2 b3 b4 : UInt8) :
    base32Decode5Bytes (base32Encode5Bytes [b0, b1, b2, b3, b4]) = ([b0, b1, b2, b3, b4], true) := by
  refine Prod.ext ?_ (base32Decode5Bytes_check _)
  have hbits := decode_encode_bits b0.toNat_lt b1.toNat_lt b2.toNat_lt b3.toNat_lt b4.toNat_lt
  simp (disch := apply_rules [Nat.or_lt_two_pow, Nat.and_lt_two_pow] <;> decide) only [base32Decode5Bytes,
    base32Encode5Bytes, List.map_cons, List.map_nil, List.getD_cons_zero, List.getD_cons_succ, digitOf_alphabet]
  simp only [List.cons.injEq, and_true] at hbits
  simp only [hbits.1, hbits.2.1, hbits.2.2.1, hbits.2.2.2.1, hbits.2.2.2.2, UInt8.ofNat_toNat]

theorem base32Decode5Bytes_base32Encode5Bytes_of_length {md5 : List UInt8} (h : md5.length = 5) :
    base32Decode5Bytes (base32Encode5Bytes md5) = (md5, true) := by
  rcases md5 with _ | ⟨b0, _ | ⟨b1, _ | ⟨b2, _ | ⟨b3, _ | ⟨b4, _ | ⟨b5, rest⟩⟩⟩⟩⟩⟩ <;> simp at h
  exact base32Decode5Bytes_base32Encode5Bytes b0 b1 b2 b3 b4

/-! ## The loops over the groups -/

@[simp] theorem length_base32Encode5Bytes (md5 : List UInt8) : (base32Encode5Bytes md5).length = 8 := rfl

theorem length_base32EncodeGroups (n : Nat) (md : List UInt8) : (base32EncodeGroups n md).length = 8 * n := by
  induction n generalizing md with
  | zero => rfl
  | succ n ih =>
    rw [base32EncodeGroups, List.length_append, length_base32Encode5Bytes, ih]
    omega

theorem base32DecodeGroups_base32EncodeGroups {n : Nat} {data : List UInt8} (h : data.length = 5 * n) :
    base32DecodeGroups n (base32EncodeGroups n data) = some data := by
  induction n generalizing data with
  | zero =>
    have hnil : data = [] := List.length_eq_zero_iff.mp (by simpa using h)
    subst hnil
    rfl
  | succ n ih =>
    have hrest : (data.drop 5).length = 5 * n := by simp [h]; omega
    rw [base32EncodeGroups, base32DecodeGroups, List.take_left' (length_base32Encode5Bytes _),
      List.drop_left' (length_base32Encode5Bytes _),
      base32Decode5Bytes_base32Encode5Bytes_of_length (by simp [h])]
    simp only [if_true, ih hrest, Option.map_some, List.take_append_drop]

theorem base32EncodeGroups_succ (n : Nat) (md : List UInt8) :
    base32EncodeGroups (n + 1) md = base32EncodeGroups n md ++ base32Encode5Bytes ((md.drop (5 * n)).take 5) := by
  induction n generalizing md with
  | zero => simp [base32EncodeGroups]
  | succ n ih =>
    have hdrop : (md.drop 5).drop (5 * n) = md.drop (5 * (n + 1)) := by
      rw [List.drop_drop]
      congr 1
      omega
    rw [base32EncodeGroups, ih, base32EncodeGroups, hdrop, List.append_assoc]

theorem base32EncodeGroups_append {n : Nat} {xs : List UInt8} (h : 5 * n ≤ xs.length) (ys : List UInt8) :
    base32EncodeGroups n (xs ++ ys) = base32EncodeGroups n xs := by
  induction n generalizing xs with
  | zero => rfl
  | succ n ih =>
    rw [base32EncodeGroups, base32EncodeGroups, List.take_append_of_le_length (by omega),
      List.drop_append_of_le_length (by omega), ih (by simp; omega)]

/-! ## The CRC of bytes followed by their CRC -/

theorem and_ffffff (x : Nat) : x &&& 0x00ffffff = x % 2 ^ 24 := Nat.and_two_pow_sub_one_eq_mod x 24

theorem crc24qStep_of_high {crc : Nat} {b : UInt8} (hb : b.toNat = crc / 2 ^ 16 % 2 ^ 8) :
    crc24qStep crc b = crc * 2 ^ 8 % 2 ^ 32 := by
  have hidx : b.toNat ^^^ (0xFF &&& (crc >>> 16)) = 0 := by
    rw [Nat.and_comm, Nat.and_two_pow_sub_one_eq_mod _ 8, Nat.shiftRight_eq_div_pow, hb, Nat.xor_self]
  rw [crc24qStep, hidx, Nat.shiftLeft_eq]
  exact Nat.xor_zero _

theorem crc24q_append_crcBytes (md : List UInt8) : crc24q (md ++ crcBytes (crc24q md)) = 0 := by
  have hbyte : ∀ k c : Nat, (UInt8.ofNat ((c % 2 ^ 24) >>> k)).toNat = c % 2 ^ 24 / 2 ^ k % 2 ^ 8 := by
    intro k c
    rw [UInt8.toNat_ofNat', Nat.shiftRight_eq_div_pow]
  simp only [crc24q, List.foldl_append, crcBytes, List.foldl_cons, List.foldl_nil, and_ffffff]
  generalize md.foldl crc24qStep 0 = crc
  have hlast : UInt8.ofNat (crc % 2 ^ 24) = UInt8.ofNat ((crc % 2 ^ 24) >>> 0) := by rw [Nat.shiftRight_zero]
  rw [hlast, @crc24qStep_of_high crc _ (by rw [hbyte]; omega),
    @crc24qStep_of_high (crc * 2 ^ 8 % 2 ^ 32) _ (by rw [hbyte]; omega),
    @crc24qStep_of_high (crc * 2 ^ 8 % 2 ^ 32 * 2 ^ 8 % 2 ^ 32) _ (by rw [hbyte]; omega)]
  omega

/-! ## Round trips -/

theorem base32Encode_eq {md32 : List UInt8} (h : md32.length = 32) :
    base32Encode md32 = base32EncodeGroups 7 (md32 ++ crcBytes (crc24q md32)) := by
  have htail : [md32.getD 30 0, md32.getD 31 0] = md32.drop 30 := by
    rw [List.drop_eq_getElem_cons (by omega), List.drop_eq_getElem_cons (by omega),
      List.drop_eq_nil_of_le (by omega)]
    simp [List.getD_eq_getElem?_getD, h]
  rw [base32EncodeGroups_succ, base32EncodeGroups_append (by omega), base32Encode, List.take_of_length_le (by omega),
    List.drop_append_of_le_length (by omega), htail, List.take_of_length_le (by simp [crcBytes, h])]

theorem base32Decode_base32Encode {md32 : List UInt8} (h : md32.length = 32) :
    base32Decode (base32Encode md32) = some md32 := by
  have hdata : (md32 ++ crcBytes (crc24q md32)).length = 5 * 7 := by simp [crcBytes, h]
  rw [base32Encode_eq h, base32Decode, if_neg (by rw [length_base32EncodeGroups]; decide),
    base32DecodeGroups_base32EncodeGroups hdata]
  simp [crc24q_append_crcBytes, List.take_left' h]

def CDestination.PREFIX_MAX : Nat := 3

namespace CMvAddress

def ADDRESS_LEN : Nat := 57

/-- `CMvAddress::ParseString`: the destination read, or `none` where it
returns false and keeps what it held. `data` is the `uint256` whose bytes
`Base32Decode` writes. -/
def parseString (strAddress : List UInt8) : Option CDestination :=
  let c := (strAddress.getD 0 0).toNat
  if strAddress.length ≠ ADDRESS_LEN ∨ c < '0'.toNat ∨ c ≥ '0'.toNat + CDestination.PREFIX_MAX then none
  else (base32Decode (strAddress.drop 1)).map fun md32 => ⟨c - '0'.toNat, LittleEndian.decode md32⟩

/-- `CMvAddress::ToString`: the prefix digit, then the bytes of `data`. -/
def toString (dest : CDestination) : List UInt8 :=
  UInt8.ofNat ('0'.toNat + dest.nPrefix) :: base32Encode (LittleEndian.encode 32 dest.data)

/-- An address read back from its string is the destination written. -/
theorem parseString_toString {dest : CDestination} (hpre : dest.nPrefix < CDestination.PREFIX_MAX)
    (hdata : dest.data < 2 ^ 256) : parseString (toString dest) = some dest := by
  have hlen : (LittleEndian.encode 32 dest.data).length = 32 := LittleEndian.length_encode 32 dest.data
  have hc : (UInt8.ofNat ('0'.toNat + dest.nPrefix)).toNat = '0'.toNat + dest.nPrefix := by
    rw [UInt8.toNat_ofNat']
    exact Nat.mod_eq_of_lt (by simp [CDestination.PREFIX_MAX] at hpre ⊢; omega)
  have hsize : (toString dest).length = ADDRESS_LEN := by
    rw [toString, List.length_cons, base32Encode_eq hlen, length_base32EncodeGroups]
    rfl
  have hhead : (toString dest).getD 0 0 = UInt8.ofNat ('0'.toNat + dest.nPrefix) := rfl
  have htail : (toString dest).drop 1 = base32Encode (LittleEndian.encode 32 dest.data) := rfl
  simp only [CDestination.PREFIX_MAX] at hpre
  simp only [parseString, hsize, hhead, htail, hc, base32Decode_base32Encode hlen, Option.map_some,
    LittleEndian.decode_encode, CDestination.PREFIX_MAX]
  rw [if_neg (by omega), Nat.mod_eq_of_lt (by simpa using hdata), Nat.add_sub_cancel_left]

theorem parseString_toString_of_template :
    let dest : CDestination := ⟨2, 5⟩
    (dest.nPrefix < CDestination.PREFIX_MAX ∧ dest.data < 2 ^ 256) ∧ parseString (toString dest) = some dest :=
  ⟨⟨by decide, by decide⟩, parseString_toString (by decide) (by decide)⟩

end CMvAddress

/-! ## Characters outside the alphabet -/

theorem base32Decode5Bytes_congr {psz psz' : List UInt8}
    (h : ∀ k < 8, digitOf (psz.getD k 0) % 2 ^ 5 = digitOf (psz'.getD k 0) % 2 ^ 5) :
    base32Decode5Bytes psz = base32Decode5Bytes psz' := by
  have hbit : ∀ k < 8, ∀ j < 5, (digitOf (psz.getD k 0)).testBit j = (digitOf (psz'.getD k 0)).testBit j := by
    intro k hk j hj
    have hmod := congrArg (fun x => x.testBit j) (h k hk)
    simp only [Nat.testBit_mod_two_pow, hj, decide_true, Bool.true_and] at hmod
    exact hmod
  refine Prod.ext ?_ (by rw [base32Decode5Bytes_check, base32Decode5Bytes_check])
  simp only [base32Decode5Bytes, List.map_cons, List.map_nil, List.cons.injEq, and_true]
  refine ⟨?_, ?_, ?_, ?_, ?_⟩ <;> congr 1 <;>
    refine eq_of_testBit_lt_eight (by apply_rules [Nat.or_lt_two_pow, Nat.and_lt_two_pow] <;> decide)
      (by apply_rules [Nat.or_lt_two_pow, Nat.and_lt_two_pow] <;> decide) fun i hi => ?_ <;>
    interval_cases i <;>
    simp only [Nat.testBit_or, Nat.testBit_and, Nat.testBit_shiftLeft, Nat.testBit_shiftRight] <;>
    simp (disch := decide) only [hbit] <;>
    simp [Nat.testBit_eq_decide_div_mod_eq]

theorem base32DecodeGroups_congr {n : Nat} {s s' : List UInt8}
    (h : s.map (fun c => digitOf c % 2 ^ 5) = s'.map fun c => digitOf c % 2 ^ 5) :
    base32DecodeGroups n s = base32DecodeGroups n s' := by
  induction n generalizing s s' with
  | zero => rfl
  | succ n ih =>
    have hgroup : base32Decode5Bytes (s.take 8) = base32Decode5Bytes (s'.take 8) := by
      refine base32Decode5Bytes_congr fun k _ => ?_
      have hk := congrArg (fun l => l.getD k (digitOf 0 % 2 ^ 5)) (congrArg (List.take 8) h)
      simpa only [← List.map_take, List.getD_map] using hk
    have hrest : (s.drop 8).map (fun c => digitOf c % 2 ^ 5) = (s'.drop 8).map fun c => digitOf c % 2 ^ 5 := by
      rw [List.map_drop, List.map_drop, h]
    rw [base32DecodeGroups, base32DecodeGroups, hgroup, ih hrest]

theorem base32Decode_congr {s s' : List UInt8}
    (h : s.map (fun c => digitOf c % 2 ^ 5) = s'.map fun c => digitOf c % 2 ^ 5) :
    base32Decode s = base32Decode s' := by
  have hlen : s.length = s'.length := by simpa using congrArg List.length h
  rw [base32Decode, base32Decode, hlen, base32DecodeGroups_congr h]

theorem base32Decode_set_of_not_digit {s : List UInt8} {i : Nat} {c : UInt8} (hc : digitOf c = 255)
    (hz : s.getD i 0 = 'z'.toUInt8) : base32Decode (s.set i c) = base32Decode s := by
  apply base32Decode_congr
  rw [List.map_set]
  by_cases hi : i < s.length
  · have hget : s[i] = 'z'.toUInt8 := by simpa [List.getD_eq_getElem?_getD, hi] using hz
    conv_rhs => rw [← List.set_getElem_self hi]
    rw [List.map_set, hget, hc]
    rfl
  · rw [List.set_eq_of_length_le (by simpa using hi)]

set_option maxRecDepth 4000 in
/-- The string of 32 bytes `0xFF` begins with `z`; with `!` in its place, a
character outside the alphabet, `Base32Decode` still accepts it and returns
the same bytes, whose encoding is not the string. -/
theorem base32Decode_accepts_outside_alphabet :
    (0x21 : UInt8) ∉ alphabet ∧
      base32Decode (0x21 :: (base32Encode (List.replicate 32 0xFF)).tail) = some (List.replicate 32 0xFF) ∧
      base32Encode (List.replicate 32 0xFF) ≠ 0x21 :: (base32Encode (List.replicate 32 0xFF)).tail := by
  decide

end Multiverse.Crypto
