import Multiverse.Lib.Codec
import Multiverse.Lib.SortedMap
import Multiverse.Lib.Multimap

/-! # Serialization by `CWalleveStream`

`walleve/stream/stream.h` serializes a value through one of three overloads
picked by a tag: `SaveType` writes it, `LoadType` reads it back, and a
`std::size_t&` adds its size to a count, which is `GetSerializeSize`. A
fundamental is written as its memory, least significant byte first on the
hosts the code runs on; a string, a vector, a map and a multimap are written
after their size as a `CVarInt`, and a pair as its two members. Each family
of overloads is a `Codec` here: `std::pair` is `Codec.pair`, and a class with
a `WalleveSerialize` template runs one body for all three tags.

A failed `Read` of the source sets the stream's failbit and leaves the value
as it was; here a read past the end is `none`. Loading is into a
default-constructed value, as every caller does.
-/

namespace CWalleveStream

open LittleEndian

variable {α κ ν : Type}

/-! ## `CVarInt` -/

namespace CVarInt

/-- `CVarInt::WalleveSerialize(s, SaveType&)`: one byte below `0xFD`; else the
marker in the low byte of `(nValue << 8) | marker` with the value above it,
or the marker `0xFF` and the value in 8 bytes. -/
def save (nValue : Nat) : List UInt8 :=
  if nValue < 0xFD then encode 1 nValue
  else if nValue ≤ 0xFFFF then encode (1 + 2) ((nValue <<< 8) ||| 0xFD)
  else if nValue ≤ 0xFFFFFFFF then encode (1 + 4) ((nValue <<< 8) ||| 0xFE)
  else encode 1 0xFF ++ encode 8 nValue

/-- `CVarInt::WalleveSerialize(s, std::size_t&)`. -/
def serSize (nValue : Nat) : Nat :=
  if nValue < 0xFD then 1
  else if nValue ≤ 0xFFFF then 1 + 2
  else if nValue ≤ 0xFFFFFFFF then 1 + 4
  else 1 + 8

/-- The three overloads. `CVarInt::WalleveSerialize(s, LoadType&)` reads one
byte and, from `0xFD` on, `2 << (nValue - 0xFD)` bytes over the value, which
is `readCompactSize`. -/
def codec : Codec Nat := ⟨save, readCompactSize, serSize⟩

theorem encode_shiftLeft_or {w m : Nat} (hm : m < 256) (n : Nat) :
    encode (w + 1) ((n <<< 8) ||| m) = UInt8.ofNat m :: encode w n := by
  have hor : (n <<< 8) ||| m = n * 256 + m := by
    rw [← Nat.shiftLeft_add_eq_or_of_lt (by simpa using hm), Nat.shiftLeft_eq]
  rw [hor, encode]
  congr 2 <;> omega

theorem save_eq_compactSize (nValue : Nat) : save nValue = compactSize nValue := by
  unfold save compactSize
  split_ifs
  · rfl
  · exact encode_shiftLeft_or (by decide) nValue
  · exact encode_shiftLeft_or (by decide) nValue
  · rfl

theorem serSize_eq (nValue : Nat) : serSize nValue = (save nValue).length := by
  rw [save_eq_compactSize, length_compactSize, serSize]

theorem lawful : codec.Lawful (· < 2 ^ 64) where
  load_save_append nValue h rest := by
    change readCompactSize (save nValue ++ rest) = some (nValue, rest)
    rw [save_eq_compactSize]
    exact readCompactSize_compactSize_append h rest
  size_eq := serSize_eq

example : serSize 0xFC = 1 ∧ serSize 0xFD = 3 ∧ serSize 0xFFFF = 3 ∧ serSize 0x10000 = 5 ∧
    serSize 0xFFFFFFFF = 5 ∧ serSize 0x100000000 = 9 := by decide

end CVarInt

/-! ## Fundamentals -/

/-- An unsigned fundamental of `sizeof(t)` bytes: `Write((const char *)&t, sizeof(t))`. -/
def fundamental (sizeOf : Nat) : Codec Nat := ⟨encode sizeOf, read sizeOf, fun _ => sizeOf⟩

/-- A signed fundamental: its two's complement in `sizeof(t)` bytes. -/
def fundamentalSigned (sizeOf : Nat) : Codec Int where
  save t := encode sizeOf (t % 2 ^ (8 * sizeOf)).toNat
  load bs := (read sizeOf bs).map fun p =>
    (if p.1 < 2 ^ (8 * sizeOf - 1) then (p.1 : Int) else (p.1 : Int) - 2 ^ (8 * sizeOf), p.2)
  size _ := sizeOf

/-- `uint8`, one byte. -/
def uint8 : Codec UInt8 where
  save t := [t]
  load
    | t :: bs => some (t, bs)
    | [] => none
  size _ := 1

/-- `uint256::WalleveSerialize`: the eight words of `pn`, least significant
first, each little-endian; the number in 32 bytes little-endian. -/
def uint256 : Codec Nat := ⟨encode 32, read 32, fun _ => 32⟩

theorem lawful_fundamental (sizeOf : Nat) : (fundamental sizeOf).Lawful (· < 256 ^ sizeOf) where
  load_save_append _ h rest := read_encode_append h rest
  size_eq t := (length_encode sizeOf t).symm

theorem lawful_uint256 : uint256.Lawful (· < 2 ^ 256) :=
  (lawful_fundamental 32).mono fun _ h => by simpa using h

theorem lawful_uint8 : uint8.Lawful fun _ => True where
  load_save_append _ _ _ := rfl
  size_eq _ := rfl

theorem toNat_emod_two_pow {w : Nat} (hw : 0 < w) {t : Int} (h1 : -2 ^ (8 * w - 1) ≤ t)
    (h2 : t < 2 ^ (8 * w - 1)) :
    (t % 2 ^ (8 * w)).toNat < 256 ^ w ∧
      (if (t % 2 ^ (8 * w)).toNat < 2 ^ (8 * w - 1) then ((t % 2 ^ (8 * w)).toNat : Int)
        else ((t % 2 ^ (8 * w)).toNat : Int) - 2 ^ (8 * w)) = t := by
  have hpow : (2 : Int) ^ (8 * w) = 2 * 2 ^ (8 * w - 1) := by
    rw [← pow_succ']
    congr 1
    omega
  have h256 : ((256 ^ w : Nat) : Int) = 2 ^ (8 * w) := by
    push_cast
    rw [pow_mul]
    norm_num
  have hhalf : ((2 ^ (8 * w - 1) : Nat) : Int) = 2 ^ (8 * w - 1) := by push_cast; rfl
  have hP : (0 : Int) < 2 ^ (8 * w - 1) := by
    rw [← hhalf]
    exact_mod_cast Nat.two_pow_pos _
  by_cases ht : 0 ≤ t
  · have hmod : t % 2 ^ (8 * w) = t := Int.emod_eq_of_lt ht (by omega)
    rw [hmod, if_pos (by omega)]
    constructor <;> omega
  · -- a value below zero is stored as itself plus `2 ^ (8 * w)`
    have hmod : t % 2 ^ (8 * w) = t + 2 ^ (8 * w) := by
      rw [← Int.add_emod_right]
      exact Int.emod_eq_of_lt (by omega) (by omega)
    rw [hmod, if_neg (by omega)]
    constructor <;> omega

theorem lawful_fundamentalSigned {sizeOf : Nat} (h : 0 < sizeOf) :
    (fundamentalSigned sizeOf).Lawful fun t => -2 ^ (8 * sizeOf - 1) ≤ t ∧ t < 2 ^ (8 * sizeOf - 1) where
  load_save_append t ht rest := by
    obtain ⟨hlt, hback⟩ := toNat_emod_two_pow h ht.1 ht.2
    simp only [fundamentalSigned, read_encode_append hlt, Option.map_some, hback]
  size_eq t := (length_encode sizeOf _).symm

/-! ## Strings and vectors -/

/-- `std::string`: its length as a `CVarInt`, then its characters. -/
def string : Codec (List UInt8) where
  save t := CVarInt.save t.length ++ t
  load bs := do
    let (nValue, bs) ← readCompactSize bs
    take? nValue bs
  size t := CVarInt.serSize t.length + t.length

/-- `std::vector<T>` of a class `T`: the size as a `CVarInt`, then each element. -/
def vector (c : Codec α) : Codec (List α) := Codec.counted CVarInt.codec c

/-- `std::vector<T>` of a fundamental `T` of `sizeOf` bytes: the size as a
`CVarInt`, then the elements' memory in one `Write`, read back by one `Read`
of `sizeof(T) * t.size()` bytes. -/
def vectorFundamental (c : Codec α) (sizeOf : Nat) : Codec (List α) where
  save t := CVarInt.save t.length ++ t.flatMap c.save
  load bs := do
    let (nValue, bs) ← readCompactSize bs
    let (raw, bs) ← take? (sizeOf * nValue) bs
    let (t, _) ← readList c.load nValue raw
    pure (t, bs)
  size t := CVarInt.serSize t.length + sizeOf * t.length

theorem lawful_string : string.Lawful fun t => t.length < 2 ^ 64 where
  load_save_append t h rest := by
    simp only [string, List.append_assoc, CVarInt.save_eq_compactSize, readCompactSize_compactSize_append h,
      Option.bind_eq_bind, Option.bind_some]
    exact take?_append t rest
  size_eq t := by simp only [string, List.length_append, CVarInt.serSize_eq]

theorem lawful_vector {c : Codec α} {valid : α → Prop} (hc : c.Lawful valid) :
    (vector c).Lawful fun t => t.length < 2 ^ 64 ∧ ∀ x ∈ t, valid x :=
  CVarInt.lawful.counted hc

theorem length_flatMap_save {c : Codec α} {valid : α → Prop} (hc : c.Lawful valid) {sizeOf : Nat}
    (hsize : ∀ a, c.size a = sizeOf) (t : List α) : (t.flatMap c.save).length = sizeOf * t.length := by
  induction t with
  | nil => rfl
  | cons a t ih =>
    rw [List.flatMap_cons, List.length_append, ih, ← hc.size_eq, hsize, List.length_cons, Nat.mul_succ,
      Nat.add_comm]

theorem lawful_vectorFundamental {c : Codec α} {valid : α → Prop} (hc : c.Lawful valid) {sizeOf : Nat}
    (hsize : ∀ a, c.size a = sizeOf) :
    (vectorFundamental c sizeOf).Lawful fun t => t.length < 2 ^ 64 ∧ ∀ x ∈ t, valid x where
  load_save_append t h rest := by
    have hraw : take? (sizeOf * t.length) (t.flatMap c.save ++ rest) = some (t.flatMap c.save, rest) := by
      rw [← length_flatMap_save hc hsize t]
      exact take?_append _ rest
    have hread := readList_flatMap_append (fun x hx => hc.load_save_append x (h.2 x hx)) []
    rw [List.append_nil] at hread
    simp only [vectorFundamental, List.append_assoc, CVarInt.save_eq_compactSize,
      readCompactSize_compactSize_append h.1, hraw, hread, Option.bind_eq_bind, Option.bind_some,
      Option.pure_def]
  size_eq t := by
    simp only [vectorFundamental, List.length_append, CVarInt.serSize_eq, length_flatMap_save hc hsize]

/-! ## Maps -/

section Maps

variable [LinearOrder κ]

/-- `std::map`: the size as a `CVarInt`, then each entry as a pair in key
order; read back by inserting each pair read into the map. -/
def map (ck : Codec κ) (cv : Codec ν) : Codec (SortedMap κ ν) :=
  (vector (ck.pair cv)).convert (·.foldl (fun t item => t.insertNew item.1 item.2) SortedMap.empty)
    SortedMap.entries

/-- `std::multimap`: the same bytes; an entry read is inserted after those of
a key not above its own. -/
def multimap (ck : Codec κ) (cv : Codec ν) : Codec (List (κ × ν)) :=
  (vector (ck.pair cv)).convert (·.foldl (fun t item => Multimap.insert Prod.fst item t) []) id

variable {ck : Codec κ} {cv : Codec ν} {validKey : κ → Prop} {validValue : ν → Prop}

theorem lawful_map (hk : ck.Lawful validKey) (hv : cv.Lawful validValue) :
    (map ck cv).Lawful fun t => t.size < 2 ^ 64 ∧ ∀ e ∈ t.entries, validKey e.1 ∧ validValue e.2 :=
  (lawful_vector (hk.pair hv)).convert (fun t _ => SortedMap.foldl_insertNew_entries t) fun _ h => h

theorem lawful_multimap (hk : ck.Lawful validKey) (hv : cv.Lawful validValue) :
    (multimap ck cv).Lawful fun t => Multimap.Sorted Prod.fst t ∧ t.length < 2 ^ 64 ∧
      ∀ e ∈ t, validKey e.1 ∧ validValue e.2 :=
  (lawful_vector (hk.pair hv)).convert (fun _ h => Multimap.foldl_insert_of_sorted h.1) fun _ h => h.2

end Maps

end CWalleveStream
