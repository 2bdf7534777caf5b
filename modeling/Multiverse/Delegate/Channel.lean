import Mathlib.Data.Nat.Bitwise
import Mathlib.Tactic.IntervalCases
import Multiverse.Common.Transaction

/-! # The delegated channel chain

`CDelegatedChannelChain` of `src/delegatedchn.cpp` keeps, for the last
`MV_CONSENSUS_DISTRIBUTE_INTERVAL + 1` blocks, the delegates each block
enrolled and the distribute and publish data received for it. Peers exchange
64-bit bitmaps over the enrolled list: `GetBitmap` sets bit `i` when the data
of `vEnrolled[i]` is held, and `GetKnownData` lists the delegates whose bit is
set. The two are written apart. `GetBitmap` shifts the `size_t` count, but
`GetKnownData` tests `bitmap & (1 << i)` with the `int` literal `1`: the shift
is made in 32 bits, and bit 31 comes out as the negative `int` whose
conversion to `uint64` sets bits 31 to 63. The two agree on up to 31 enrolled
delegates (`mem_askForDistribute_of_length_le`); with 32, a peer's bit above
31 reads as bit 31 (`askForDistribute_reads_high_bit_as_bit_31`).

`std::map`s keyed by destination or hash are partial functions here, and a
`std::set` of destinations is a list read by membership.
-/

namespace Multiverse.Delegate

/-- `MV_CONSENSUS_DISTRIBUTE_INTERVAL`. -/
def MV_CONSENSUS_DISTRIBUTE_INTERVAL : Nat := 15

/-- `DELEGATE_THRESH`, the most delegates a block enrolls. -/
def DELEGATE_THRESH : Nat := 50

/-- `CDelegatedChannelChainData`. -/
structure CDelegatedChannelChainData where
  mapDistributeData : CDestination → Option (List UInt8)
  mapPublishData : CDestination → Option (List UInt8)
  vEnrolled : List CDestination

namespace CDelegatedChannelChainData

/-- A default-constructed entry of `mapChainData`. -/
def empty : CDelegatedChannelChainData := ⟨fun _ => none, fun _ => none, []⟩

/-- `mapData.count(dest)`, a `size_t`. -/
def count (mapData : CDestination → Option (List UInt8)) (dest : CDestination) : UInt64 :=
  if (mapData dest).isSome then 1 else 0

/-- The loop of `GetBitmap` from index `i`. -/
def getBitmapLoop (mapData : CDestination → Option (List UInt8)) :
    Nat → List CDestination → UInt64 → UInt64
  | _, [], bitmap => bitmap
  | i, dest :: vEnrolled, bitmap =>
    getBitmapLoop mapData (i + 1) vEnrolled (bitmap ||| count mapData dest <<< i.toUInt64)

/-- `GetBitmap(mapData)`. -/
def getBitmap (data : CDelegatedChannelChainData) (mapData : CDestination → Option (List UInt8)) : UInt64 :=
  getBitmapLoop mapData 0 data.vEnrolled 0

/-- `1 << i` as `GetKnownData` computes it: an `int` shifted in 32 bits, then
brought to `uint64` by `bitmap & ...`, which extends its sign. A count from 32
on is undefined in C++; the model shifts by the count modulo 32, as the
hardware does. -/
def intBit (i : Nat) : UInt64 :=
  ((1 : Int32) <<< i.toInt32).toInt64.toUInt64

/-- The loop of `GetKnownData` from index `i`. -/
def getKnownDataLoop (bitmap : UInt64) :
    Nat → List CDestination → List CDestination → List CDestination
  | _, [], setDestination => setDestination
  | i, dest :: vEnrolled, setDestination =>
    getKnownDataLoop bitmap (i + 1) vEnrolled
      (if bitmap &&& intBit i ≠ 0 then setDestination.insert dest else setDestination)

/-- `GetKnownData(bitmap, setDestination)`. -/
def getKnownData (data : CDelegatedChannelChainData) (bitmap : UInt64) (setDestination : List CDestination) :
    List CDestination :=
  getKnownDataLoop bitmap 0 data.vEnrolled setDestination

end CDelegatedChannelChainData

open CDelegatedChannelChainData

/-- `CDelegatedChannelChain`: the hashes of the window, newest first. -/
structure CDelegatedChannelChain where
  listBlockHash : List Nat
  mapChainData : Nat → Option CDelegatedChannelChainData
  nLastBlockHeight : Int

namespace CDelegatedChannelChain

/-- `Clear()`. -/
def clear : CDelegatedChannelChain := ⟨[], fun _ => none, -1⟩

/-- `mapChainData[hash]`, default-constructed when absent. -/
def dataAt (c : CDelegatedChannelChain) (hash : Nat) : CDelegatedChannelChainData :=
  (c.mapChainData hash).getD .empty

/-- The first loop of `Update`: blocks above `nStartHeight` leave from the front. -/
def rollback (nStartHeight : Int) :
    List Nat → (Nat → Option CDelegatedChannelChainData) → Int → CDelegatedChannelChain
  | [], mapChainData, nLastBlockHeight => ⟨[], mapChainData, nLastBlockHeight⟩
  | hash :: listBlockHash, mapChainData, nLastBlockHeight =>
    if nStartHeight < nLastBlockHeight then
      rollback nStartHeight listBlockHash (Function.update mapChainData hash none) (nLastBlockHeight - 1)
    else ⟨hash :: listBlockHash, mapChainData, nLastBlockHeight⟩

/-- One entry of `vEnrolledWeight`: the destinations of its weight map, in the
map's order, appended to the block's `vEnrolled`, and its hash pushed at the front. -/
def addBlock (c : CDelegatedChannelChain) (enrolled : Nat × List (CDestination × Nat)) :
    CDelegatedChannelChain :=
  let data := c.dataAt enrolled.1
  { listBlockHash := enrolled.1 :: c.listBlockHash
    mapChainData := Function.update c.mapChainData enrolled.1
      (some { data with vEnrolled := data.vEnrolled ++ enrolled.2.map Prod.fst })
    nLastBlockHeight := c.nLastBlockHeight + 1 }

/-- `std::map::insert(first, last)`: a key already held keeps its data. -/
def insertRange (m m' : CDestination → Option (List UInt8)) : CDestination → Option (List UInt8) :=
  fun dest => (m dest).or (m' dest)

/-- The received data go to the newest block. -/
def addData (c : CDelegatedChannelChain) (mapDistributeData mapPublishData : CDestination → Option (List UInt8)) :
    CDelegatedChannelChain :=
  match c.listBlockHash with
  | [] => c
  | hash :: _ =>
    let data := c.dataAt hash
    let data := { data with mapDistributeData := insertRange data.mapDistributeData mapDistributeData,
                            mapPublishData := insertRange data.mapPublishData mapPublishData }
    { c with mapChainData := Function.update c.mapChainData hash (some data) }

/-- The last loop of `Update`: blocks past the window leave from the back. -/
def trim (c : CDelegatedChannelChain) : CDelegatedChannelChain :=
  { c with listBlockHash := c.listBlockHash.take (MV_CONSENSUS_DISTRIBUTE_INTERVAL + 1),
           mapChainData := (c.listBlockHash.drop (MV_CONSENSUS_DISTRIBUTE_INTERVAL + 1)).foldr
             (fun hash m => Function.update m hash none) c.mapChainData }

/-- `Update(nStartHeight, vEnrolledWeight, mapDistributeData, mapPublishData)`. -/
def update (c : CDelegatedChannelChain) (nStartHeight : Int) (vEnrolledWeight : List (Nat × List (CDestination × Nat)))
    (mapDistributeData mapPublishData : CDestination → Option (List UInt8)) : CDelegatedChannelChain :=
  let c := if c.nLastBlockHeight < nStartHeight then clear else c
  let c := rollback nStartHeight c.listBlockHash c.mapChainData c.nLastBlockHeight
  let c := vEnrolledWeight.foldl addBlock { c with nLastBlockHeight := nStartHeight }
  trim (c.addData mapDistributeData mapPublishData)

/-- The window is full and `hashAnchor` is its newest block. -/
def isFullAt (c : CDelegatedChannelChain) (hashAnchor : Nat) : Bool :=
  c.listBlockHash.length == MV_CONSENSUS_DISTRIBUTE_INTERVAL + 1 && c.listBlockHash.head? == some hashAnchor

/-- The oldest block of the window, `listBlockHash.back()`. -/
def oldest (c : CDelegatedChannelChain) : CDelegatedChannelChainData :=
  c.dataAt (c.listBlockHash.getLast?.getD 0)

/-- `GetDistributeBitmap(hashAnchor)`. -/
def getDistributeBitmap (c : CDelegatedChannelChain) (hashAnchor : Nat) : UInt64 :=
  match c.mapChainData hashAnchor with
  | some data => data.getBitmap data.mapDistributeData
  | none => 0

/-- `GetPublishBitmap(hashAnchor)`: the publish data of the anchor against the
enrolled list of the oldest block. -/
def getPublishBitmap (c : CDelegatedChannelChain) (hashAnchor : Nat) : UInt64 :=
  if c.isFullAt hashAnchor then c.oldest.getBitmap (c.dataAt hashAnchor).mapPublishData else 0

/-- `GetDistribute(hashAnchor, bmDistribute, setDestination)`. -/
def getDistribute (c : CDelegatedChannelChain) (hashAnchor : Nat) (bmDistribute : UInt64)
    (setDestination : List CDestination) : List CDestination :=
  match c.mapChainData hashAnchor with
  | some data => data.getKnownData bmDistribute setDestination
  | none => setDestination

/-- `GetPublish(hashAnchor, bmPublish, setDestination)`. -/
def getPublish (c : CDelegatedChannelChain) (hashAnchor : Nat) (bmPublish : UInt64)
    (setDestination : List CDestination) : List CDestination :=
  if c.isFullAt hashAnchor then c.oldest.getKnownData bmPublish setDestination else setDestination

/-- `AskForDistribute(hashAnchor, bmDistribute, setDestination)`: the delegates
the peer marks and whose data is not held. -/
def askForDistribute (c : CDelegatedChannelChain) (hashAnchor : Nat) (bmDistribute : UInt64)
    (setDestination : List CDestination) : List CDestination :=
  match c.mapChainData hashAnchor with
  | some data =>
    let bitmap := data.getBitmap data.mapDistributeData
    data.getKnownData ((bitmap &&& bmDistribute) ^^^ bmDistribute) setDestination
  | none => setDestination

/-- `AskForPublish(hashAnchor, bmDistribute, setDestination)`. -/
def askForPublish (c : CDelegatedChannelChain) (hashAnchor : Nat) (bmDistribute : UInt64)
    (setDestination : List CDestination) : List CDestination :=
  if c.isFullAt hashAnchor then
    let bitmap := c.oldest.getBitmap (c.dataAt hashAnchor).mapPublishData
    c.oldest.getKnownData ((bitmap &&& bmDistribute) ^^^ bmDistribute) setDestination
  else setDestination

/-! ## What the bitmaps say -/

theorem length_update_le (c : CDelegatedChannelChain) (nStartHeight : Int)
    (vEnrolledWeight : List (Nat × List (CDestination × Nat))) (mapDistributeData mapPublishData : CDestination → Option (List UInt8)) :
    (c.update nStartHeight vEnrolledWeight mapDistributeData mapPublishData).listBlockHash.length ≤
      MV_CONSENSUS_DISTRIBUTE_INTERVAL + 1 :=
  List.length_take_le _ _

end CDelegatedChannelChain

namespace CDelegatedChannelChainData

variable {mapData : CDestination → Option (List UInt8)}

theorem toNat_count_shiftLeft {i : Nat} (hi : i < 64) (dest : CDestination) :
    (count mapData dest <<< i.toUInt64).toNat = if (mapData dest).isSome then 2 ^ i else 0 := by
  have hi' : i.toUInt64.toNat % 64 = i := by
    rw [Nat.toUInt64_eq, UInt64.toNat_ofNat', Nat.mod_eq_of_lt (show i < 2 ^ 64 by omega), Nat.mod_eq_of_lt hi]
  have hpow : 2 ^ i < 2 ^ 64 := Nat.pow_lt_pow_right (by decide) hi
  rw [UInt64.toNat_shiftLeft, hi', count]
  split_ifs
  · rw [UInt64.toNat_one, Nat.one_shiftLeft, Nat.mod_eq_of_lt hpow]
  · simp

theorem testBit_getBitmapLoop {i : Nat} {vEnrolled : List CDestination} (h : i + vEnrolled.length ≤ 64)
    (bitmap : UInt64) (j : Nat) :
    (getBitmapLoop mapData i vEnrolled bitmap).toNat.testBit j =
      (bitmap.toNat.testBit j || decide (i ≤ j) && (vEnrolled[j - i]?.any fun dest => (mapData dest).isSome)) := by
  induction vEnrolled generalizing i bitmap with
  | nil => simp [getBitmapLoop]
  | cons dest vEnrolled ih =>
    simp only [List.length_cons] at h
    rw [getBitmapLoop, ih (by omega), UInt64.toNat_or, Nat.testBit_or, toNat_count_shiftLeft (by omega)]
    rcases lt_trichotomy j i with hj | rfl | hj
    · have : ¬ i + 1 ≤ j := by omega
      have : ¬ i ≤ j := by omega
      split_ifs <;> simp [*, Nat.ne_of_gt hj]
    · split_ifs <;> simp [*]
    · obtain ⟨k, rfl⟩ : ∃ k, j = i + (k + 1) := ⟨j - (i + 1), by omega⟩
      have hk : i + (k + 1) - (i + 1) = k := by omega
      split_ifs <;> simp [hk]

theorem testBit_getBitmap {data : CDelegatedChannelChainData} (h : data.vEnrolled.length ≤ 64) (k : Nat) :
    (data.getBitmap mapData).toNat.testBit k = (data.vEnrolled[k]?.any fun dest => (mapData dest).isSome) := by
  rw [getBitmap, testBit_getBitmapLoop (by omega)]
  simp

theorem mem_getKnownDataLoop {bitmap : UInt64} {dest : CDestination} :
    ∀ {i : Nat} {vEnrolled setDestination : List CDestination},
      dest ∈ getKnownDataLoop bitmap i vEnrolled setDestination ↔
        dest ∈ setDestination ∨ ∃ k, ∃ hk : k < vEnrolled.length, vEnrolled[k] = dest ∧ bitmap &&& intBit (i + k) ≠ 0
  | _, [], _ => by simp [getKnownDataLoop]
  | i, d :: vEnrolled, setDestination => by
    rw [getKnownDataLoop, mem_getKnownDataLoop]
    constructor
    · rintro (hs | ⟨k, hk, hdk, hbit⟩)
      · split_ifs at hs with hb
        · rcases List.mem_insert_iff.mp hs with rfl | hs
          · exact Or.inr ⟨0, by simp, rfl, by simpa using hb⟩
          · exact Or.inl hs
        · exact Or.inl hs
      · refine Or.inr ⟨k + 1, by simpa using hk, hdk, ?_⟩
        rwa [← Nat.add_assoc, Nat.add_right_comm]
    · rintro (hs | ⟨k, hk, hdk, hbit⟩)
      · left
        split_ifs
        · exact List.mem_insert_of_mem hs
        · exact hs
      · cases k with
        | zero =>
          left
          simp only [List.getElem_cons_zero] at hdk
          subst hdk
          rw [if_pos (by simpa using hbit)]
          exact List.mem_insert_self
        | succ k =>
          refine Or.inr ⟨k, by simpa using hk, hdk, ?_⟩
          rwa [Nat.add_right_comm, Nat.add_assoc]

theorem toNat_intBit {i : Nat} (h : i < 31) : (intBit i).toNat = 2 ^ i := by
  interval_cases i <;> decide

theorem intBit_thirtyOne : intBit 31 = 0xFFFFFFFF80000000 := by
  decide

theorem and_intBit_ne_zero {bitmap : UInt64} {i : Nat} (h : i < 31) :
    bitmap &&& intBit i ≠ 0 ↔ bitmap.toNat.testBit i = true := by
  rw [ne_eq, ← UInt64.toNat_inj, UInt64.toNat_and, toNat_intBit h, Nat.and_two_pow]
  cases bitmap.toNat.testBit i <;> simp

theorem mem_getKnownData_of_length_le {data : CDelegatedChannelChainData} (h : data.vEnrolled.length ≤ 31)
    {bitmap : UInt64} {setDestination : List CDestination} {dest : CDestination} :
    dest ∈ data.getKnownData bitmap setDestination ↔
      dest ∈ setDestination ∨
        ∃ k, ∃ hk : k < data.vEnrolled.length, data.vEnrolled[k] = dest ∧ bitmap.toNat.testBit k = true := by
  rw [getKnownData, mem_getKnownDataLoop]
  constructor
  · rintro (hs | ⟨k, hk, hdk, hbit⟩)
    · exact Or.inl hs
    · exact Or.inr ⟨k, hk, hdk, (and_intBit_ne_zero (by omega)).mp (by simpa using hbit)⟩
  · rintro (hs | ⟨k, hk, hdk, hbit⟩)
    · exact Or.inl hs
    · exact Or.inr ⟨k, hk, hdk, by simpa using (and_intBit_ne_zero (by omega)).mpr hbit⟩

end CDelegatedChannelChainData

namespace CDelegatedChannelChain

theorem mem_getDistribute_getDistributeBitmap {c : CDelegatedChannelChain} {hashAnchor : Nat}
    {data : CDelegatedChannelChainData} (hdata : c.mapChainData hashAnchor = some data)
    (h : data.vEnrolled.length ≤ 31) {dest : CDestination} :
    dest ∈ c.getDistribute hashAnchor (c.getDistributeBitmap hashAnchor) [] ↔
      ∃ k, ∃ hk : k < data.vEnrolled.length, data.vEnrolled[k] = dest ∧ (data.mapDistributeData dest).isSome := by
  simp only [getDistribute, getDistributeBitmap, hdata, mem_getKnownData_of_length_le h,
    testBit_getBitmap (show data.vEnrolled.length ≤ 64 by omega), List.not_mem_nil, false_or]
  constructor
  · rintro ⟨k, hk, rfl, hbit⟩
    exact ⟨k, hk, rfl, by simpa [List.getElem?_eq_getElem hk] using hbit⟩
  · rintro ⟨k, hk, rfl, hsome⟩
    exact ⟨k, hk, rfl, by simpa [List.getElem?_eq_getElem hk] using hsome⟩

/-- On an anchor with at most 31 enrolled delegates, `AskForDistribute(bm)` lists
exactly the enrolled delegates whose bit of `bm` is set and whose data is not held. -/
theorem mem_askForDistribute_of_length_le {c : CDelegatedChannelChain} {hashAnchor : Nat}
    {data : CDelegatedChannelChainData} (hdata : c.mapChainData hashAnchor = some data)
    (h : data.vEnrolled.length ≤ 31) {bmDistribute : UInt64} {dest : CDestination} :
    dest ∈ c.askForDistribute hashAnchor bmDistribute [] ↔
      ∃ k, ∃ hk : k < data.vEnrolled.length, data.vEnrolled[k] = dest ∧
        bmDistribute.toNat.testBit k = true ∧ (data.mapDistributeData dest).isNone := by
  simp only [askForDistribute, hdata, mem_getKnownData_of_length_le h, List.not_mem_nil, false_or,
    UInt64.toNat_xor, UInt64.toNat_and, Nat.testBit_xor, Nat.testBit_and,
    testBit_getBitmap (show data.vEnrolled.length ≤ 64 by omega)]
  constructor
  · rintro ⟨k, hk, rfl, hbit⟩
    refine ⟨k, hk, rfl, ?_⟩
    cases hb : bmDistribute.toNat.testBit k <;> simp_all [Option.isNone_iff_eq_none]
  · rintro ⟨k, hk, rfl, hbit, hnone⟩
    refine ⟨k, hk, rfl, ?_⟩
    simp_all [Option.isNone_iff_eq_none]

/-- Thirty-two delegates enrolled at the anchor, none of whose data is held: a
peer whose bitmap marks only bit 32 is answered with the delegate of bit 31. -/
theorem askForDistribute_reads_high_bit_as_bit_31 :
    let vEnrolled : List CDestination := (List.range 32).map fun i => ⟨1, i⟩
    let c := clear.update 0 [(7, vEnrolled.map fun dest => (dest, 1))] (fun _ => none) (fun _ => none)
    vEnrolled.length ≤ DELEGATE_THRESH ∧ (0x100000000 : UInt64).toNat.testBit 31 = false ∧
      c.askForDistribute 7 0x100000000 [] = [⟨1, 31⟩] := by
  decide

end CDelegatedChannelChain

end Multiverse.Delegate
