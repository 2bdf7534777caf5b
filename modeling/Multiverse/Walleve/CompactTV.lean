import Multiverse.Lib.LittleEndian
import Multiverse.Lib.Except
import Multiverse.Lib.SortedMap

/-! # Compact tag-value records

`CWalleveCompactTagValue` of `walleve/compacttv.h` keeps a map from tags of
five bits to a type and a value, and writes it as one record per tag in tag
order: a byte holding the tag, with the type in its three high bits, then a
length byte and the bytes for `BINARY`, 32 bytes for `INT256`, and the low 1,
2, 4 or 8 bytes of the `int64` for the integer types.

`Decode` reads such records back until its offset reaches the end of the
input. It compares no index with the size of the input, so a record cut
short makes it read past the end (`decode_reads_past_end`). What `Encode`
writes it reads back record for record (`decode_encode`), an integer of fewer
than 8 bytes as the unsigned value of its bytes.
-/

namespace CWalleveCompactTagValue

def WALLEVE_COMPACT_TYPE_FALSE : Nat := 0 <<< 5
def WALLEVE_COMPACT_TYPE_TRUE : Nat := 1 <<< 5
def WALLEVE_COMPACT_TYPE_INT8 : Nat := 2 <<< 5
def WALLEVE_COMPACT_TYPE_INT16 : Nat := 3 <<< 5
def WALLEVE_COMPACT_TYPE_INT32 : Nat := 4 <<< 5
def WALLEVE_COMPACT_TYPE_INT64 : Nat := 5 <<< 5
def WALLEVE_COMPACT_TYPE_INT256 : Nat := 6 <<< 5
def WALLEVE_COMPACT_TYPE_BINARY : Nat := 7 <<< 5

/-- `CWalleveCompactTVType`: an `int64` or a byte vector. -/
inductive Value
  | int (n : Int)
  | bytes (vch : List UInt8)
  deriving DecidableEq, Repr

/-- `boost::get<boost::int64_t>`. -/
def Value.getInt : Value → Except String Int
  | .int n => .ok n
  | .bytes _ => .error "boost::bad_get"

/-- `boost::get<std::vector<unsigned char> >`. -/
def Value.getBytes : Value → Except String (List UInt8)
  | .bytes vch => .ok vch
  | .int _ => .error "boost::bad_get"

end CWalleveCompactTagValue

open CWalleveCompactTagValue in
/-- The tags, each with its type and value. -/
structure CWalleveCompactTagValue where
  mapTagValue : SortedMap Nat (Nat × Value)

namespace CWalleveCompactTagValue

/-- A fresh `CWalleveCompactTagValue`. -/
def empty : CWalleveCompactTagValue := ⟨SortedMap.empty⟩

/-- What `Push` is given, by the overload that takes it. -/
inductive Pushed
  /-- A `std::vector<unsigned char>`, and a `std::string` through it. -/
  | vector (vch : List UInt8)
  /-- A `bool`. -/
  | bool (f : Bool)
  /-- Another fundamental type, of `size` bytes, holding `n`. -/
  | fundamental (size : Nat) (n : Int)
  /-- An object of a type that is not fundamental, as its bytes. -/
  | object (bytes : List UInt8)

/-- The integer type `Push` gives a fundamental type of `size` bytes. -/
def intType : Nat → Option Nat
  | 1 => some WALLEVE_COMPACT_TYPE_INT8
  | 2 => some WALLEVE_COMPACT_TYPE_INT16
  | 4 => some WALLEVE_COMPACT_TYPE_INT32
  | 8 => some WALLEVE_COMPACT_TYPE_INT64
  | _ => none

/-- `Push(nTag, t)`: a new tag below 32, stored by the overload for `t`'s
type; a fundamental value is converted to `int64`. -/
def push (tv : CWalleveCompactTagValue) (nTag : Nat) (t : Pushed) : Except String CWalleveCompactTagValue :=
  if nTag > 31 then .error "invalid tag"
  else if (tv.mapTagValue.find nTag).isSome then .error "duplicated tag"
  else
    let insert (type : Nat) (v : Value) : CWalleveCompactTagValue := ⟨tv.mapTagValue.insertNew nTag (type, v)⟩
    match t with
    | .vector vch =>
      if vch.length > 255 then .error "out of range" else .ok (insert WALLEVE_COMPACT_TYPE_BINARY (.bytes vch))
    | .bool f =>
      .ok (insert (if f then WALLEVE_COMPACT_TYPE_TRUE else WALLEVE_COMPACT_TYPE_FALSE) (.int 0))
    | .fundamental size n =>
      match intType size with
      | some type => .ok (insert type (.int (Int.bmod n (2 ^ 64))))
      | none => .error "unknown type"
    | .object bytes =>
      if bytes.length ≠ 32 then .error "unknown type" else .ok (insert WALLEVE_COMPACT_TYPE_INT256 (.bytes bytes))

/-- `Get(nTag, std::vector<unsigned char>&)`, and `Get(nTag, std::string&)`:
`none` where the tag is absent. -/
def getBytes (tv : CWalleveCompactTagValue) (nTag : Nat) : Except String (Option (List UInt8)) :=
  match tv.mapTagValue.find nTag with
  | none => .ok none
  | some (type, v) =>
    if type ≠ WALLEVE_COMPACT_TYPE_BINARY then .error "type error" else some <$> v.getBytes

/-- `Get(nTag, bool&)`. -/
def getBool (tv : CWalleveCompactTagValue) (nTag : Nat) : Except String (Option Bool) :=
  match tv.mapTagValue.find nTag with
  | none => .ok none
  | some (type, _) =>
    if type ≠ WALLEVE_COMPACT_TYPE_TRUE ∧ type ≠ WALLEVE_COMPACT_TYPE_FALSE then .error "type error"
    else .ok (some (type = WALLEVE_COMPACT_TYPE_TRUE))

/-- `Get(nTag, T&)` for a type `T` of `size` bytes: the bytes it copies into
`t`, the first of the 32 for `INT256` and the low ones of the `int64` else. -/
def getValue (tv : CWalleveCompactTagValue) (nTag size : Nat) : Except String (Option (List UInt8)) :=
  match tv.mapTagValue.find nTag with
  | none => .ok none
  | some (type, v) =>
    if (type = WALLEVE_COMPACT_TYPE_INT256 ∧ size ≠ 32) ∨ (type ≠ WALLEVE_COMPACT_TYPE_INT256 ∧ size > 8) then
      .error "type error"
    else if type = WALLEVE_COMPACT_TYPE_INT256 then (fun vch => some (vch.take size)) <$> v.getBytes
    else (fun n => some (LittleEndian.encode size (n % 2 ^ 64).toNat)) <$> v.getInt

section Get

variable {tv : CWalleveCompactTagValue} {nTag : Nat}

theorem getBytes_none (h : tv.mapTagValue.find nTag = none) : tv.getBytes nTag = .ok none := by
  rw [getBytes, h]

theorem getBytes_binary {vch : List UInt8} (h : tv.mapTagValue.find nTag = some (WALLEVE_COMPACT_TYPE_BINARY, .bytes vch)) :
    tv.getBytes nTag = .ok (some vch) := by
  rw [getBytes, h]
  rfl

theorem getValue_none {size : Nat} (h : tv.mapTagValue.find nTag = none) : tv.getValue nTag size = .ok none := by
  rw [getValue, h]

theorem getValue_int256 {vch : List UInt8} (h : tv.mapTagValue.find nTag = some (WALLEVE_COMPACT_TYPE_INT256, .bytes vch)) :
    tv.getValue nTag 32 = .ok (some (vch.take 32)) := by
  rw [getValue, h]
  rfl

theorem getValue_int {type : Nat} {n : Int} (size : Nat) (h : tv.mapTagValue.find nTag = some (type, .int n))
    (htype : type ≠ WALLEVE_COMPACT_TYPE_INT256) (hsize : size ≤ 8) :
    tv.getValue nTag size = .ok (some (LittleEndian.encode size (n % 2 ^ 64).toNat)) := by
  rw [getValue, h]
  dsimp only
  rw [if_neg (by omega), if_neg htype]
  rfl

end Get

/-- How many bytes of the `int64` the records of an integer type hold. -/
def intLength (type : Nat) : Nat :=
  if type = WALLEVE_COMPACT_TYPE_INT8 then 1
  else if type = WALLEVE_COMPACT_TYPE_INT16 then 2
  else if type = WALLEVE_COMPACT_TYPE_INT32 then 4
  else if type = WALLEVE_COMPACT_TYPE_INT64 then 8
  else 0

/-- The record `Encode` writes for one tag. -/
def encodeEntry (e : Nat × (Nat × Value)) : Except String (List UInt8) :=
  let (tag, type, v) := e
  let head := UInt8.ofNat (tag ||| type)
  if type = WALLEVE_COMPACT_TYPE_BINARY then
    (fun vch => head :: UInt8.ofNat vch.length :: vch) <$> v.getBytes
  else if type = WALLEVE_COMPACT_TYPE_INT256 then
    (fun vch => head :: vch) <$> v.getBytes
  else
    (fun n => head :: LittleEndian.encode (intLength type) (n % 2 ^ 64).toNat) <$> v.getInt

/-- The records of a list of tags, one after another. -/
def encodeList : List (Nat × (Nat × Value)) → Except String (List UInt8)
  | [] => .ok []
  | e :: es => do
    let bs ← encodeEntry e
    let rest ← encodeList es
    pure (bs ++ rest)

/-- `Encode`: the records of the tags in tag order. -/
def encode (tv : CWalleveCompactTagValue) : Except String (List UInt8) := encodeList tv.mapTagValue.entries

/-- How `Decode` stops short of a map: a `std::range_error`, or a read of an
index at or past the end of its input, which the source does not guard. -/
inductive DecodeError
  | rangeError (what : String)
  | readPastEnd (index : Nat)
  deriving DecidableEq, Repr

/-- `vchEncoded[i]`. -/
def byteAt (v : List UInt8) (i : Nat) : Except DecodeError UInt8 :=
  match v[i]? with
  | some b => .ok b
  | none => .error (.readPastEnd i)

/-- The `n` bytes from index `i` on, as the range constructor of
`std::vector` copies them; the first index it reads past the end. -/
def bytesAt (v : List UInt8) (i n : Nat) : Except DecodeError (List UInt8) :=
  if i + n ≤ v.length then .ok ((v.drop i).take n) else .error (.readPastEnd (max i v.length))

/-- The value of an `int64` stored in eight bytes. -/
def toInt64 (n : Nat) : Int := if n < 2 ^ 63 then n else (n : Int) - 2 ^ 64

/-- One round of `Decode`'s loop from `offset`: the tag and its entry, and
the offset of the next record. -/
def decodeEntry (v : List UInt8) (offset : Nat) : Except DecodeError (Nat × (Nat × Value) × Nat) := do
  let c ← byteAt v offset
  let tag := c.toNat &&& 0x1f
  let type := c.toNat &&& 0xe0
  if type = WALLEVE_COMPACT_TYPE_BINARY then
    let size ← byteAt v (offset + 1)
    let vch ← bytesAt v (offset + 2) size.toNat
    pure (tag, (type, .bytes vch), offset + 2 + size.toNat)
  else if type = WALLEVE_COMPACT_TYPE_INT256 then
    let vch ← bytesAt v (offset + 1) 32
    pure (tag, (type, .bytes vch), offset + 1 + 32)
  else
    -- the integer types, and `FALSE` and `TRUE` with no bytes and the value 0
    let bs ← bytesAt v (offset + 1) (intLength type)
    let value : Int :=
      if type = WALLEVE_COMPACT_TYPE_INT64 then toInt64 (LittleEndian.decode bs) else LittleEndian.decode bs
    pure (tag, (type, .int value), offset + 1 + intLength type)

theorem byteAt_eq_ok {v : List UInt8} {i : Nat} {b : UInt8} (h : byteAt v i = .ok b) :
    i < v.length ∧ v[i]? = some b := by
  unfold byteAt at h
  split at h
  · rename_i hb
    cases h
    exact ⟨(List.getElem?_eq_some_iff.mp hb).1, hb⟩
  · cases h

theorem bytesAt_eq_ok {v : List UInt8} {i n : Nat} {bs : List UInt8} (h : bytesAt v i n = .ok bs) :
    i + n ≤ v.length ∧ bs = (v.drop i).take n := by
  unfold bytesAt at h
  split_ifs at h with hn
  cases h
  exact ⟨hn, rfl⟩

theorem decodeEntry_offset {v : List UInt8} {offset tag next : Nat} {e : Nat × Value}
    (h : decodeEntry v offset = .ok (tag, e, next)) : offset < next ∧ next ≤ v.length := by
  simp only [decodeEntry, Except.bind_eq_ok_iff] at h
  obtain ⟨c, hc, h⟩ := h
  have hc := (byteAt_eq_ok hc).1
  split_ifs at h
  · obtain ⟨size, -, vch, hvch, h⟩ := by simpa only [Except.bind_eq_ok_iff] using h
    cases h
    have := (bytesAt_eq_ok hvch).1
    omega
  · obtain ⟨vch, hvch, h⟩ := by simpa only [Except.bind_eq_ok_iff] using h
    cases h
    have := (bytesAt_eq_ok hvch).1
    omega
  all_goals
    obtain ⟨bs, hbs, h⟩ := by simpa only [Except.bind_eq_ok_iff] using h
    cases h
    have := (bytesAt_eq_ok hbs).1
    omega

/-- `Decode`'s loop: records until the offset is the size of the input, each
tag inserted once. -/
def decodeLoop (v : List UInt8) (offset : Nat) (m : SortedMap Nat (Nat × Value)) :
    Except DecodeError (SortedMap Nat (Nat × Value)) :=
  if offset = v.length then .ok m
  else
    match h : decodeEntry v offset with
    | .error err => .error err
    | .ok (tag, e, next) =>
      if (m.find tag).isSome then .error (.rangeError "duplicated tag")
      else
        have := decodeEntry_offset h
        decodeLoop v next (m.insertNew tag e)
termination_by v.length - offset

/-- `Decode(vchEncoded)` on a cleared map. -/
def decode (v : List UInt8) : Except DecodeError CWalleveCompactTagValue :=
  (decodeLoop v 0 SortedMap.empty).map fun m => ⟨m⟩

/-! ## Reading back what `Encode` writes -/

/-- An entry as `Push` makes it: a tag below 32, and a value of the kind its
type names, of a size its record has room for. -/
def EntryOk : Nat × (Nat × Value) → Prop
  | (tag, type, .bytes vch) =>
    tag < 32 ∧ (type = WALLEVE_COMPACT_TYPE_BINARY ∧ vch.length < 256 ∨
      type = WALLEVE_COMPACT_TYPE_INT256 ∧ vch.length = 32)
  | (tag, type, .int _) =>
    tag < 32 ∧ (type = WALLEVE_COMPACT_TYPE_FALSE ∨ type = WALLEVE_COMPACT_TYPE_TRUE ∨
      type = WALLEVE_COMPACT_TYPE_INT8 ∨ type = WALLEVE_COMPACT_TYPE_INT16 ∨
      type = WALLEVE_COMPACT_TYPE_INT32 ∨ type = WALLEVE_COMPACT_TYPE_INT64)

/-- Every entry is as `Push` makes it. -/
structure WellFormed (tv : CWalleveCompactTagValue) : Prop where
  entries_ok : ∀ e ∈ tv.mapTagValue.entries, EntryOk e

theorem WellFormed.insertNew {m : SortedMap Nat (Nat × Value)} (hwf : WellFormed ⟨m⟩) {nTag : Nat}
    {e : Nat × Value} (he : EntryOk (nTag, e)) : WellFormed ⟨m.insertNew nTag e⟩ := by
  constructor
  intro x hx
  rcases SortedMap.mem_insertNew hx with hx | rfl
  · exact hwf.entries_ok x hx
  · exact he

theorem WellFormed.foldl_insertNew {m : SortedMap Nat (Nat × Value)} (hwf : WellFormed ⟨m⟩)
    {l : List (Nat × (Nat × Value))} (hl : ∀ e ∈ l, EntryOk e) :
    WellFormed ⟨l.foldl (fun m e => m.insertNew e.1 e.2) m⟩ := by
  induction l generalizing m with
  | nil => exact hwf
  | cons e l ih =>
    exact ih (hwf.insertNew (hl e List.mem_cons_self)) fun e' he' => hl e' (List.mem_cons_of_mem e he')

theorem WellFormed.push {tv tv' : CWalleveCompactTagValue} (hwf : tv.WellFormed) {nTag : Nat} {t : Pushed}
    (h : tv.push nTag t = .ok tv') : tv'.WellFormed := by
  unfold CWalleveCompactTagValue.push at h
  split_ifs at h with htag hdup
  have htag : nTag < 32 := by omega
  cases t <;> dsimp only at h
  case vector vch =>
    split_ifs at h with hlen
    cases h
    exact hwf.insertNew ⟨htag, .inl ⟨rfl, by omega⟩⟩
  case bool f =>
    cases h
    exact hwf.insertNew ⟨htag, by cases f <;> simp⟩
  case fundamental size n =>
    split at h
    · rename_i type htype
      cases h
      refine hwf.insertNew ⟨htag, ?_⟩
      unfold intType at htype
      split at htype <;> cases htype <;> simp
    · cases h
  case object bytes =>
    split_ifs at h with hlen
    cases h
    exact hwf.insertNew ⟨htag, .inr ⟨rfl, by omega⟩⟩

section Push

variable {tv : CWalleveCompactTagValue} {nTag : Nat} (htag : nTag < 32) (hnew : tv.mapTagValue.find nTag = none)
include htag hnew

theorem push_vector {vch : List UInt8} (hlen : vch.length ≤ 255) :
    tv.push nTag (.vector vch) = .ok ⟨tv.mapTagValue.insertNew nTag (WALLEVE_COMPACT_TYPE_BINARY, .bytes vch)⟩ := by
  rw [CWalleveCompactTagValue.push, if_neg (by omega), hnew, Option.isSome_none, if_neg Bool.false_ne_true]
  simp only [if_neg (show ¬vch.length > 255 by omega)]

theorem push_fundamental {size type : Nat} (n : Int) (htype : intType size = some type) :
    tv.push nTag (.fundamental size n) = .ok ⟨tv.mapTagValue.insertNew nTag (type, .int (Int.bmod n (2 ^ 64)))⟩ := by
  rw [CWalleveCompactTagValue.push, if_neg (by omega), hnew, Option.isSome_none, if_neg Bool.false_ne_true]
  simp only [htype]

theorem push_object {bytes : List UInt8} (hlen : bytes.length = 32) :
    tv.push nTag (.object bytes) = .ok ⟨tv.mapTagValue.insertNew nTag (WALLEVE_COMPACT_TYPE_INT256, .bytes bytes)⟩ := by
  rw [CWalleveCompactTagValue.push, if_neg (by omega), hnew, Option.isSome_none, if_neg Bool.false_ne_true]
  simp only [hlen, ne_eq, not_true_eq_false, if_false]

end Push

/-- The value `Decode` reads from the record `Encode` writes: the low bytes
of an integer, as an unsigned value but for `INT64`. -/
def Value.reread (type : Nat) : Value → Value
  | .int n =>
    let u := (n % 2 ^ 64).toNat % 256 ^ intLength type
    .int (if type = WALLEVE_COMPACT_TYPE_INT64 then toInt64 u else u)
  | v => v

/-- An entry as `Decode` reads it back. -/
def reread (e : Nat × (Nat × Value)) : Nat × (Nat × Value) := (e.1, e.2.1, e.2.2.reread e.2.1)

theorem tagByte_split : ∀ tag < 32, ∀ k < 8, (UInt8.ofNat (tag ||| k <<< 5)).toNat &&& 0x1f = tag ∧
    (UInt8.ofNat (tag ||| k <<< 5)).toNat &&& 0xe0 = k <<< 5 := by
  decide

theorem byteAt_of_drop {v rest : List UInt8} {i : Nat} {b : UInt8} (h : v.drop i = b :: rest) :
    byteAt v i = .ok b := by
  have hb : v[i]? = some b := by rw [← List.head?_drop, h, List.head?_cons]
  simp [byteAt, hb]

theorem bytesAt_of_drop {v rest : List UInt8} {i n : Nat} (h : v.drop i = rest) (hi : i ≤ v.length)
    (hn : n ≤ rest.length) : bytesAt v i n = .ok (rest.take n) := by
  have hlen : rest.length = v.length - i := by rw [← h, List.length_drop]
  rw [bytesAt, if_pos (by omega), h]

theorem drop_succ_of_drop {v rest : List UInt8} {i : Nat} {b : UInt8} (h : v.drop i = b :: rest) :
    v.drop (i + 1) = rest := by
  rw [← List.drop_drop, h, List.drop_one, List.tail_cons]

theorem le_length_of_drop {v rest : List UInt8} {i : Nat} {b : UInt8} (h : v.drop i = b :: rest) :
    i + 1 ≤ v.length := by
  have := congrArg List.length h
  simp only [List.length_drop, List.length_cons] at this
  omega

theorem tagByte_eq {tag type : Nat} (htag : tag < 32) (htype : ∃ k < 8, type = k <<< 5) :
    (UInt8.ofNat (tag ||| type)).toNat &&& 0x1f = tag ∧ (UInt8.ofNat (tag ||| type)).toNat &&& 0xe0 = type := by
  obtain ⟨k, hk, rfl⟩ := htype
  exact tagByte_split tag htag k hk

theorem decodeEntry_binary {v rest : List UInt8} {offset : Nat} {c n : UInt8}
    (hv : v.drop offset = c :: n :: rest) (hc : c.toNat &&& 0xe0 = WALLEVE_COMPACT_TYPE_BINARY)
    (hn : n.toNat ≤ rest.length) :
    decodeEntry v offset = .ok (c.toNat &&& 0x1f, (WALLEVE_COMPACT_TYPE_BINARY, .bytes (rest.take n.toNat)),
      offset + 2 + n.toNat) := by
  have h1 := drop_succ_of_drop hv
  have h2 : v.drop (offset + 2) = rest := drop_succ_of_drop h1
  have hi : offset + 2 ≤ v.length := le_length_of_drop h1
  simp only [decodeEntry, byteAt_of_drop hv, Except.ok_bind, hc, if_true, byteAt_of_drop h1,
    bytesAt_of_drop h2 hi hn, Except.pure_eq_ok]

theorem decodeEntry_int256 {v rest : List UInt8} {offset : Nat} {c : UInt8}
    (hv : v.drop offset = c :: rest) (hc : c.toNat &&& 0xe0 = WALLEVE_COMPACT_TYPE_INT256)
    (hn : 32 ≤ rest.length) :
    decodeEntry v offset = .ok (c.toNat &&& 0x1f, (WALLEVE_COMPACT_TYPE_INT256, .bytes (rest.take 32)),
      offset + 1 + 32) := by
  have h1 := drop_succ_of_drop hv
  have hi : offset + 1 ≤ v.length := le_length_of_drop hv
  simp only [decodeEntry, byteAt_of_drop hv, Except.ok_bind, hc, bytesAt_of_drop h1 hi hn,
    Except.pure_eq_ok]
  simp [WALLEVE_COMPACT_TYPE_INT256, WALLEVE_COMPACT_TYPE_BINARY]

theorem decodeEntry_int {v rest : List UInt8} {offset : Nat} {c : UInt8}
    (hv : v.drop offset = c :: rest) (hc1 : c.toNat &&& 0xe0 ≠ WALLEVE_COMPACT_TYPE_BINARY)
    (hc2 : c.toNat &&& 0xe0 ≠ WALLEVE_COMPACT_TYPE_INT256) (hn : intLength (c.toNat &&& 0xe0) ≤ rest.length) :
    decodeEntry v offset =
      let type := c.toNat &&& 0xe0
      let u := LittleEndian.decode (rest.take (intLength type))
      .ok (c.toNat &&& 0x1f, (type, .int (if type = WALLEVE_COMPACT_TYPE_INT64 then toInt64 u else u)),
        offset + 1 + intLength type) := by
  have h1 := drop_succ_of_drop hv
  have hi : offset + 1 ≤ v.length := le_length_of_drop hv
  simp only [decodeEntry, byteAt_of_drop hv, Except.ok_bind, if_neg hc1, if_neg hc2, bytesAt_of_drop h1 hi hn,
    Except.pure_eq_ok]

theorem decodeEntry_encodeEntry {e : Nat × (Nat × Value)} (he : EntryOk e) {bs : List UInt8}
    (h : encodeEntry e = .ok bs) (pre post : List UInt8) :
    decodeEntry (pre ++ bs ++ post) pre.length = .ok ((reread e).1, (reread e).2, pre.length + bs.length) := by
  have hdrop : (pre ++ bs ++ post).drop pre.length = bs ++ post := by simp
  obtain ⟨tag, type, v⟩ := e
  cases v with
  | bytes vch =>
    obtain ⟨htag, ⟨rfl, hlen⟩ | ⟨rfl, hlen⟩⟩ := he
    · obtain ⟨hc1, hc2⟩ := tagByte_eq htag ⟨7, by decide, (rfl : WALLEVE_COMPACT_TYPE_BINARY = 7 <<< 5)⟩
      simp only [encodeEntry, if_true, Value.getBytes, Except.map_ok, Except.ok.injEq] at h
      subst h
      have hb : (UInt8.ofNat vch.length).toNat = vch.length := by rw [UInt8.toNat_ofNat']; omega
      rw [decodeEntry_binary hdrop hc2 (by simp [hb]), hc1]
      simp [hb, reread, Value.reread]
      omega
    · obtain ⟨hc1, hc2⟩ := tagByte_eq htag ⟨6, by decide, (rfl : WALLEVE_COMPACT_TYPE_INT256 = 6 <<< 5)⟩
      have henc : encodeEntry (tag, WALLEVE_COMPACT_TYPE_INT256, .bytes vch) =
          .ok (UInt8.ofNat (tag ||| WALLEVE_COMPACT_TYPE_INT256) :: vch) := rfl
      rw [henc, Except.ok.injEq] at h
      subst h
      rw [decodeEntry_int256 hdrop hc2 (by simp [hlen]), hc1]
      simp [reread, Value.reread, hlen]
  | int n =>
    obtain ⟨htag, htype⟩ := he
    have hk : ∃ k < 8, type = k <<< 5 := by
      rcases htype with rfl | rfl | rfl | rfl | rfl | rfl
      exacts [⟨0, by decide, rfl⟩, ⟨1, by decide, rfl⟩, ⟨2, by decide, rfl⟩, ⟨3, by decide, rfl⟩,
        ⟨4, by decide, rfl⟩, ⟨5, by decide, rfl⟩]
    have hne : type ≠ WALLEVE_COMPACT_TYPE_BINARY ∧ type ≠ WALLEVE_COMPACT_TYPE_INT256 := by
      rcases htype with rfl | rfl | rfl | rfl | rfl | rfl <;> decide
    obtain ⟨hc1, hc2⟩ := tagByte_eq htag hk
    have henc : encodeEntry (tag, type, .int n) =
        .ok (UInt8.ofNat (tag ||| type) :: LittleEndian.encode (intLength type) (n % 2 ^ 64).toNat) := by
      simp only [encodeEntry, if_neg hne.1, if_neg hne.2, Value.getInt, Except.map_ok]
    rw [henc, Except.ok.injEq] at h
    subst h
    rw [decodeEntry_int hdrop (by rw [hc2]; exact hne.1) (by rw [hc2]; exact hne.2) (by rw [hc2]; simp)]
    have ht : (LittleEndian.encode (intLength type) (n % 2 ^ 64).toNat ++ post).take (intLength type) =
        LittleEndian.encode (intLength type) (n % 2 ^ 64).toNat :=
      List.take_left' (LittleEndian.length_encode _ _)
    simp only [List.append_eq, hc1, hc2, ht, LittleEndian.decode_encode]
    simp [reread, Value.reread]
    omega

theorem decodeLoop_end {v : List UInt8} {offset : Nat} (h : offset = v.length)
    (m : SortedMap Nat (Nat × Value)) : decodeLoop v offset m = .ok m := by
  rw [decodeLoop, if_pos h]

theorem decodeLoop_error {v : List UInt8} {offset : Nat} {err : DecodeError} (hne : offset ≠ v.length)
    (he : decodeEntry v offset = .error err) (m : SortedMap Nat (Nat × Value)) :
    decodeLoop v offset m = .error err := by
  rw [decodeLoop, if_neg hne]
  split
  · rename_i h
    rw [he] at h
    cases h
    rfl
  · rename_i h
    rw [he] at h
    cases h

theorem decodeLoop_ok {v : List UInt8} {offset tag next : Nat} {e : Nat × Value} (hne : offset ≠ v.length)
    (he : decodeEntry v offset = .ok (tag, e, next)) (m : SortedMap Nat (Nat × Value)) :
    decodeLoop v offset m = if (m.find tag).isSome then .error (.rangeError "duplicated tag")
      else decodeLoop v next (m.insertNew tag e) := by
  rw [decodeLoop, if_neg hne]
  split
  · rename_i h
    rw [he] at h
    cases h
  · rename_i h
    rw [he] at h
    cases h
    rfl

theorem encodeEntry_ne_nil {e : Nat × (Nat × Value)} {bs : List UInt8} (h : encodeEntry e = .ok bs) :
    bs ≠ [] := by
  obtain ⟨tag, type, v⟩ := e
  simp only [encodeEntry] at h
  split_ifs at h <;> obtain ⟨x, -, rfl⟩ := Except.map_eq_ok_iff.mp h <;> simp

theorem encodeEntry_ok {e : Nat × (Nat × Value)} (he : EntryOk e) : ∃ bs, encodeEntry e = .ok bs := by
  obtain ⟨tag, type, v⟩ := e
  cases v with
  | bytes vch =>
    obtain ⟨-, ⟨rfl, -⟩ | ⟨rfl, -⟩⟩ := he
    · exact ⟨_, rfl⟩
    · exact ⟨_, rfl⟩
  | int n =>
    obtain ⟨-, htype⟩ := he
    rcases htype with rfl | rfl | rfl | rfl | rfl | rfl <;> exact ⟨_, rfl⟩

theorem encodeList_ok {es : List (Nat × (Nat × Value))} (hok : ∀ e ∈ es, EntryOk e) :
    ∃ bs, encodeList es = .ok bs := by
  induction es with
  | nil => exact ⟨[], rfl⟩
  | cons e es ih =>
    obtain ⟨b, hb⟩ := encodeEntry_ok (hok e List.mem_cons_self)
    obtain ⟨rest, hrest⟩ := ih fun e' he' => hok e' (List.mem_cons_of_mem e he')
    exact ⟨b ++ rest, by simp [encodeList, hb, hrest]⟩

theorem decodeLoop_encodeList {es : List (Nat × (Nat × Value))} {bs : List UInt8} (h : encodeList es = .ok bs)
    (hok : ∀ e ∈ es, EntryOk e) (hsorted : es.Pairwise fun a b => a.1 < b.1) (pre : List UInt8)
    (m : SortedMap Nat (Nat × Value)) (hm : ∀ e ∈ es, m.find e.1 = none) :
    decodeLoop (pre ++ bs) pre.length m = .ok ((es.map reread).foldl (fun m e => m.insertNew e.1 e.2) m) := by
  induction es generalizing pre m bs with
  | nil =>
    simp only [encodeList, Except.ok.injEq] at h
    subst h
    exact decodeLoop_end (by simp) m
  | cons e es ih =>
    simp only [encodeList, Except.bind_eq_ok_iff, Except.pure_eq_ok, Except.ok.injEq] at h
    obtain ⟨b, hb, rest, hrest, rfl⟩ := h
    have hne : b ≠ [] := encodeEntry_ne_nil hb
    have he := decodeEntry_encodeEntry (hok e List.mem_cons_self) hb pre rest
    have hoff : pre.length ≠ (pre ++ b ++ rest).length := by
      have := List.length_pos_iff.mpr hne
      simp only [List.length_append]
      omega
    have hfind : m.find (reread e).1 = none := hm e List.mem_cons_self
    rw [← List.append_assoc, decodeLoop_ok hoff he, hfind, Option.isSome_none, if_neg Bool.false_ne_true,
      show pre.length + b.length = (pre ++ b).length from (List.length_append).symm]
    refine ih hrest (fun e' he' => hok e' (List.mem_cons_of_mem e he')) (List.pairwise_cons.mp hsorted).2
      (pre ++ b) _ fun e' he' => ?_
    have hlt : e.1 < e'.1 := (List.pairwise_cons.mp hsorted).1 e' he'
    rw [SortedMap.find_insertNew, if_neg (show e'.1 ≠ (reread e).1 from Nat.ne_of_gt hlt)]
    exact hm e' (List.mem_cons_of_mem e he')

/-- What `Encode` writes `Decode` reads back: the same tags, each with its
type and its value reread. -/
theorem decode_encode {tv : CWalleveCompactTagValue} (hwf : tv.WellFormed) :
    ∃ bs, tv.encode = .ok bs ∧ ∃ tv', decode bs = .ok tv' ∧
      ∀ tag, tv'.mapTagValue.find tag = (tv.mapTagValue.find tag).map fun p => (p.1, p.2.reread p.1) := by
  obtain ⟨bs, hbs⟩ := encodeList_ok hwf.entries_ok
  have hloop := decodeLoop_encodeList hbs hwf.entries_ok tv.mapTagValue.sorted [] SortedMap.empty
    fun _ _ => rfl
  rw [List.nil_append, List.length_nil] at hloop
  refine ⟨bs, hbs, _, by rw [decode, hloop]; rfl, fun tag => ?_⟩
  rw [SortedMap.find_foldl_insertNew, SortedMap.find_empty, Option.none_or]
  exact SortedMap.findList_map (fun p : Nat × Value => (p.1, p.2.reread p.1)) tag tv.mapTagValue.entries

theorem intLength_le (type : Nat) : intLength type ≤ 8 := by
  unfold intLength
  split_ifs <;> omega

theorem toNat_toInt64_emod {u : Nat} (h : u < 2 ^ 64) : (toInt64 u % 2 ^ 64).toNat = u := by
  unfold toInt64
  split_ifs <;> omega

theorem encode_reread {type size : Nat} (hsize : size ≤ intLength type) (n : Int) :
    ∃ m, (Value.int n).reread type = .int m ∧
      LittleEndian.encode size (m % 2 ^ 64).toNat = LittleEndian.encode size (n % 2 ^ 64).toNat := by
  have hx : (n % 2 ^ 64).toNat < 2 ^ 64 := by omega
  have hpow : 256 ^ intLength type ≤ 2 ^ 64 :=
    calc 256 ^ intLength type ≤ 256 ^ 8 := Nat.pow_le_pow_right (by norm_num) (intLength_le type)
      _ = 2 ^ 64 := by norm_num
  have hlow := LittleEndian.encode_mod_pow hsize (n % 2 ^ 64).toNat
  refine ⟨_, rfl, ?_⟩
  split_ifs with h64
  · have hL : intLength type = 8 := by rw [h64]; rfl
    rw [hL, show (256 : Nat) ^ 8 = 2 ^ 64 by norm_num, Nat.mod_eq_of_lt hx,
      toNat_toInt64_emod hx]
  · have hu : (n % 2 ^ 64).toNat % 256 ^ intLength type < 2 ^ 64 :=
      lt_of_lt_of_le (Nat.mod_lt _ (Nat.pow_pos (by norm_num))) hpow
    rw [← hlow]
    congr 1
    omega

variable {tv tv' : CWalleveCompactTagValue} {nTag : Nat}

section Reread

variable (hfind : tv'.mapTagValue.find nTag = (tv.mapTagValue.find nTag).map fun p => (p.1, p.2.reread p.1))
include hfind

theorem getBytes_reread : tv'.getBytes nTag = tv.getBytes nTag := by
  unfold getBytes
  rw [hfind]
  rcases tv.mapTagValue.find nTag with _ | ⟨type, _ | vch⟩ <;> rfl

theorem getBool_reread : tv'.getBool nTag = tv.getBool nTag := by
  unfold getBool
  rw [hfind]
  rcases tv.mapTagValue.find nTag with _ | ⟨type, v⟩ <;> rfl

theorem getValue_reread {size : Nat}
    (hsize : ∀ type n, tv.mapTagValue.find nTag = some (type, .int n) → size ≤ intLength type) :
    tv'.getValue nTag size = tv.getValue nTag size := by
  unfold getValue
  rw [hfind]
  rcases hf : tv.mapTagValue.find nTag with _ | ⟨type, _ | vch⟩
  · rfl
  · rename_i n
    obtain ⟨m, hm, he⟩ := encode_reread (hsize type n hf) n
    simp only [Option.map_some, hm]
    split_ifs
    · rfl
    · rfl
    · exact congrArg (fun bs => (Except.ok (some bs) : Except String (Option (List UInt8)))) he
  · rfl

end Reread

/-! ## Reading past the end -/

theorem byteAt_readPastEnd {v : List UInt8} {i j : Nat} (h : byteAt v i = .error (.readPastEnd j)) :
    v.length ≤ j := by
  unfold byteAt at h
  split at h
  · cases h
  · rename_i hb
    cases h
    exact List.getElem?_eq_none_iff.mp hb

theorem bytesAt_readPastEnd {v : List UInt8} {i n j : Nat} (h : bytesAt v i n = .error (.readPastEnd j)) :
    v.length ≤ j := by
  unfold bytesAt at h
  split_ifs at h
  cases h
  exact le_max_right _ _

theorem decodeEntry_readPastEnd {v : List UInt8} {offset j : Nat}
    (h : decodeEntry v offset = .error (.readPastEnd j)) : v.length ≤ j := by
  simp only [decodeEntry] at h
  cases hc : byteAt v offset with
  | error err =>
    rw [hc] at h
    cases h
    exact byteAt_readPastEnd hc
  | ok c =>
    simp only [hc, Except.ok_bind] at h
    split_ifs at h
    · cases hs : byteAt v (offset + 1) with
      | error err =>
        rw [hs] at h
        cases h
        exact byteAt_readPastEnd hs
      | ok size =>
        simp only [hs, Except.ok_bind] at h
        cases hb : bytesAt v (offset + 2) size.toNat <;> rw [hb] at h <;> cases h
        exact bytesAt_readPastEnd hb
    all_goals
      cases hb : bytesAt v (offset + 1) _ <;> rw [hb] at h <;> cases h
      exact bytesAt_readPastEnd hb

theorem decodeLoop_readPastEnd {v : List UInt8} {offset j : Nat} {m : SortedMap Nat (Nat × Value)}
    (h : decodeLoop v offset m = .error (.readPastEnd j)) : v.length ≤ j := by
  induction offset, m using decodeLoop.induct v with
  | case1 m =>
    rw [decodeLoop_end rfl] at h
    cases h
  | case2 offset m hne err he =>
    rw [decodeLoop_error hne he] at h
    cases h
    exact decodeEntry_readPastEnd he
  | case3 offset m hne tag e next he hdup =>
    rw [decodeLoop_ok hne he, if_pos hdup] at h
    cases h
  | case4 offset m hne tag e next he hdup _ ih =>
    rw [decodeLoop_ok hne he, if_neg hdup] at h
    exact ih h

theorem decode_readPastEnd {v : List UInt8} {j : Nat} (h : decode v = .error (.readPastEnd j)) :
    v.length ≤ j := by
  cases hl : decodeLoop v 0 SortedMap.empty <;> rw [decode, hl] at h <;> cases h
  exact decodeLoop_readPastEnd hl

theorem decode_of_first_error {v : List UInt8} {err : DecodeError} (hne : 0 ≠ v.length)
    (he : decodeEntry v 0 = .error err) : decode v = .error err := by
  rw [decode, decodeLoop_error hne he]
  rfl

/-- A record cut short in each of its fields: the length byte and the bytes of
`BINARY`, the 32 bytes of `INT256`, and the bytes of each integer type. -/
theorem decode_reads_past_end :
    decode [0xE0] = .error (.readPastEnd 1) ∧ decode [0xE0, 2, 7] = .error (.readPastEnd 3) ∧
    decode [0xC0] = .error (.readPastEnd 1) ∧ decode [0x40] = .error (.readPastEnd 1) ∧
    decode [0x60, 1] = .error (.readPastEnd 2) ∧ decode [0x80, 1, 2, 3] = .error (.readPastEnd 4) ∧
    decode [0xA0] = .error (.readPastEnd 1) := by
  refine ⟨?_, ?_, ?_, ?_, ?_, ?_, ?_⟩ <;> exact decode_of_first_error (by simp) rfl

end CWalleveCompactTagValue
