import Mathlib.Data.List.Basic
import Mathlib.Data.Nat.Bitwise

/-! # Byte bitmaps

A bitmap kept in a byte string, bit `i` being bit `i % 8` of byte `i / 8`.
`testBit` reads it the way C code writes `p[i / 8] & (1 << (i % 8))` and
`setBit` sets it as `p[i / 8] |= (1 << (i % 8))`. Setting a bit changes that
bit only, and two bitmaps of one length with the same bits are equal, so the
bitmap a sequence of `setBit`s leaves depends only on the set of positions it
sets, not on their order or repetitions.
-/

namespace Bitmap

/-- Bit `i`: `p[i / 8] & (1 << (i % 8))`, a byte past the end reading as 0. -/
def testBit (p : List UInt8) (i : Nat) : Bool :=
  (p.getD (i / 8) 0).toNat &&& 1 <<< (i % 8) != 0

/-- `p[i / 8] |= (1 << (i % 8))`. -/
def setBit (p : List UInt8) (i : Nat) : List UInt8 :=
  p.modify (i / 8) fun b => UInt8.ofNat (b.toNat ||| 1 <<< (i % 8))

theorem testBit_eq (p : List UInt8) (i : Nat) :
    testBit p i = (p.getD (i / 8) 0).toNat.testBit (i % 8) := by
  rw [testBit, Nat.one_shiftLeft, Nat.and_two_pow]
  cases (p.getD (i / 8) 0).toNat.testBit (i % 8) <;> simp

@[simp] theorem length_setBit (p : List UInt8) (i : Nat) : (setBit p i).length = p.length :=
  List.length_modify _ _ _

theorem toNat_or_shiftLeft (b : UInt8) {k : Nat} (hk : k < 8) :
    (UInt8.ofNat (b.toNat ||| 1 <<< k)).toNat = b.toNat ||| 2 ^ k := by
  have hlt : b.toNat ||| 2 ^ k < 2 ^ 8 :=
    Nat.or_lt_two_pow b.toNat_lt (Nat.pow_lt_pow_right (by decide) hk)
  rw [UInt8.toNat_ofNat', Nat.one_shiftLeft, Nat.mod_eq_of_lt hlt]

theorem testBit_setBit {p : List UInt8} {i : Nat} (hi : i / 8 < p.length) (j : Nat) :
    testBit (setBit p i) j = (testBit p j || decide (i = j)) := by
  rw [testBit_eq, testBit_eq, setBit, List.getD_eq_getElem?_getD, List.getD_eq_getElem?_getD,
    List.getElem?_modify]
  by_cases hij : i / 8 = j / 8
  · -- the byte that is set: bit `j % 8` is new exactly when `j = i`
    rw [← hij, List.getElem?_eq_getElem hi]
    simp only [Option.map_eq_map, Option.map_some, Option.getD_some, if_true,
      toNat_or_shiftLeft _ (Nat.mod_lt i (by decide)), Nat.testBit_or, Nat.testBit_two_pow]
    congr 1
    exact decide_eq_decide.mpr ⟨fun h => by omega, fun h => by rw [h]⟩
  · -- another byte: it keeps its bits, and `i ≠ j`
    have hne : i ≠ j := fun h => hij (h ▸ rfl)
    cases p[j / 8]? <;> simp [hij, hne]

@[simp] theorem testBit_replicate_zero (n j : Nat) : testBit (List.replicate n 0) j = false := by
  rw [testBit_eq, List.getD_eq_getElem?_getD, List.getElem?_replicate]
  split <;> simp

theorem testBit_append_left {p : List UInt8} {i : Nat} (hi : i / 8 < p.length) (q : List UInt8) :
    testBit (p ++ q) i = testBit p i := by
  rw [testBit_eq, testBit_eq, List.getD_eq_getElem?_getD, List.getD_eq_getElem?_getD,
    List.getElem?_append_left hi]

theorem setBit_append_left {p : List UInt8} {i : Nat} (hi : i / 8 < p.length) (q : List UInt8) :
    setBit (p ++ q) i = setBit p i ++ q := by
  apply List.ext_getElem?
  intro n
  rw [setBit, setBit, List.getElem?_modify]
  by_cases hn : n < p.length
  · rw [List.getElem?_append_left hn, List.getElem?_append_left (by simpa using hn),
      List.getElem?_modify]
  · have hne : i / 8 ≠ n := by omega
    rw [List.getElem?_append_right (by omega), List.getElem?_append_right (by simp; omega)]
    simp [hne]

theorem ext {p q : List UInt8} (hlen : p.length = q.length)
    (h : ∀ i < 8 * p.length, testBit p i = testBit q i) : p = q := by
  apply List.ext_getElem hlen
  intro n hp hq
  apply UInt8.toNat_inj.mp
  apply Nat.eq_of_testBit_eq
  intro t
  by_cases ht : t < 8
  · have hbit := h (8 * n + t) (by omega)
    have hdiv : (8 * n + t) / 8 = n := by omega
    have hmod : (8 * n + t) % 8 = t := by omega
    rwa [testBit_eq, testBit_eq, hdiv, hmod, List.getD_eq_getElem _ _ hp,
      List.getD_eq_getElem _ _ hq] at hbit
  · -- a byte has no bit from 8 on
    have hpow : 2 ^ 8 ≤ 2 ^ t := Nat.pow_le_pow_right (by decide) (by omega)
    rw [Nat.testBit_lt_two_pow (lt_of_lt_of_le p[n].toNat_lt hpow),
      Nat.testBit_lt_two_pow (lt_of_lt_of_le q[n].toNat_lt hpow)]

end Bitmap
