import Multiverse.Lib.SortedMap
import Mathlib.Data.Int.Order.Basic
import Mathlib.Algebra.Group.Int.Defs
import Mathlib.Algebra.Group.Nat.Defs
import Mathlib.Data.Nat.Basic
import Mathlib.Data.List.Dedup
import Mathlib.Data.List.Perm.Subperm

/-! # The time-series database

`CCTSDB<K,V,C>` of `storage/ctsdb.h` keeps time buckets, each a map of keys to
values, in three layers. The upper map of `CDblMap` takes the updates, the
lower map waits for `Flush`, and on disk an index (`CCTSIndex`) gives a time's
position in the chunk file (`CTimeSeriesChunk`), where a chunk holds a bucket's
entries in key order. The first layer that holds a bucket holds all of it:
`GetUpdateMap` copies the bucket into the upper map before it changes, and
`Retrieve` asks the layers in turn, on disk by the binary search of
`CCTSChunk::Find`. `Flush` writes the lower map's buckets, drops the index
entries of the empty ones, and `Flip`s the maps, so what the upper map holds
is written by the `Flush` after the next.

The index is a sorted map and the chunk file the list of its chunks, a
position being a chunk's place in it. Writing them always succeeds, and the
calls run one after another, so `ReadTryLock` on the lower map succeeds.

`Find` keeps its bounds in `int`. On a chunk of at most 2^30 entries `s + e`
never overflows and the search finds exactly the keys of the chunk; on one of
2^31 entries it overflows at the second probe. So, as long as no bucket gets
more than 2^30 keys, `Retrieve` reads the value of the last `Update` that no
`Erase` followed, before and after any `Flush`.
-/

namespace Multiverse.Storage

def INT_MIN : Int := -2 ^ 31

def INT_MAX : Int := 2 ^ 31 - 1

/-- `a + b` on `int`: `none` where it overflows, which C++ leaves undefined. -/
def intAdd (a b : Int) : Option Int :=
  if INT_MIN ≤ a + b ∧ a + b ≤ INT_MAX then some (a + b) else none

theorem intAdd_eq {a b : Int} (h1 : INT_MIN ≤ a + b) (h2 : a + b ≤ INT_MAX) :
    intAdd a b = some (a + b) :=
  if_pos ⟨h1, h2⟩

/-- `CCTSChunk<K,V>`: a bucket's entries, as iterating its `std::map` lists them. -/
abbrev CCTSChunk (K V : Type) := List (K × V)

namespace CCTSChunk

variable {K V : Type} [LinearOrder K]

/-- `at(m)`: `none` where it throws `out_of_range`. -/
def getAt (chunk : CCTSChunk K V) (m : Int) : Option (K × V) :=
  if 0 ≤ m then chunk[m.toNat]? else none

/-- The loop of `Find(k, v)` between the bounds `s` and `e`: some value found,
or none for `false`; `none` where the loop does what C++ leaves undefined or
runs out of `fuel`. -/
def findLoop (chunk : CCTSChunk K V) (k : K) : Nat → Int → Int → Option (Option V)
  | 0, _, _ => none
  | fuel + 1, s, e =>
    if s ≤ e then do
      let m := (← intAdd s e) >>> (1 : Nat)
      let (km, vm) ← chunk.getAt m
      if km < k then
        chunk.findLoop k fuel (← intAdd m 1) e
      else if k < km then
        chunk.findLoop k fuel s (← intAdd m (-1))
      else
        pure (some vm)
    else pure none

/-- `Find(k, v)`: `e` starts at `size() - 1` taken to `int`. The bounds close
in at each probe, so `size() + 1` probes are enough. -/
def find (chunk : CCTSChunk K V) (k : K) : Option (Option V) :=
  chunk.findLoop k (chunk.length + 1) 0 (Int.bmod ((chunk.length : Int) - 1) (2 ^ 32))

omit [LinearOrder K] in
theorem getAt_of_nonneg (chunk : CCTSChunk K V) {m : Int} (h : 0 ≤ m) :
    chunk.getAt m = chunk[m.toNat]? :=
  if_pos h

theorem findList_eq_none_of_forall {chunk : CCTSChunk K V} {k : K}
    (h : ∀ (i : Nat) (hi : i < chunk.length), chunk[i].1 ≠ k) : SortedMap.findList k chunk = none := by
  cases hf : SortedMap.findList k chunk with
  | none => rfl
  | some v =>
    obtain ⟨i, hi, he⟩ := List.getElem_of_mem (SortedMap.mem_of_findList_eq_some hf)
    exact absurd (congrArg Prod.fst he) (h i hi)

section Search

variable {chunk : CCTSChunk K V} {k : K}

theorem findLoop_eq (hs : chunk.Pairwise fun a b => a.1 < b.1) (hn : chunk.length ≤ 2 ^ 30) :
    ∀ (fuel : Nat) (s e : Int), 0 ≤ s → s ≤ e + 1 → e < chunk.length → e - s + 2 ≤ fuel →
      (∀ (i : Nat) (hi : i < chunk.length), chunk[i].1 = k → s ≤ i ∧ (i : Int) ≤ e) →
      chunk.findLoop k fuel s e = some (SortedMap.findList k chunk) := by
  have hlt : ∀ (i j : Nat) (hi : i < chunk.length) (hj : j < chunk.length), i < j → chunk[i].1 < chunk[j].1 :=
    fun i j hi hj hij => List.pairwise_iff_getElem.mp hs i j hi hj hij
  intro fuel
  induction fuel with
  | zero =>
    intro s e _ hse _ hfuel _
    omega
  | succ fuel ih =>
    intro s e h0 hse hen hfuel hk
    rw [findLoop]
    by_cases hle : s ≤ e
    · rw [if_pos hle, intAdd_eq (by unfold INT_MIN; omega) (by unfold INT_MAX; omega)]
      have hm : (s + e) >>> (1 : Nat) = (s + e) / 2 := Int.shiftRight_eq_div_pow _ 1
      have hmlt : ((s + e) / 2).toNat < chunk.length := by omega
      have hmi : ((((s + e) / 2).toNat : Nat) : Int) = (s + e) / 2 := Int.toNat_of_nonneg (by omega)
      simp only [Option.bind_eq_bind, Option.bind_some, hm, getAt_of_nonneg chunk (by omega : 0 ≤ (s + e) / 2),
        List.getElem?_eq_getElem hmlt]
      by_cases hbelow : chunk[((s + e) / 2).toNat].1 < k
      · -- the key lies above the probe
        rw [if_pos hbelow, intAdd_eq (by unfold INT_MIN; omega) (by unfold INT_MAX; omega), Option.bind_some]
        refine ih _ _ (by omega) (by omega) hen (by omega) fun i hi hik => ?_
        refine ⟨?_, (hk i hi hik).2⟩
        by_contra hi'
        rcases Nat.lt_or_ge i ((s + e) / 2).toNat with h | h
        · exact absurd (hlt i _ hi hmlt h) (by rw [hik]; exact not_lt.mpr hbelow.le)
        · have hieq : i = ((s + e) / 2).toNat := by omega
          subst hieq
          exact absurd hik (ne_of_lt hbelow)
      · rw [if_neg hbelow]
        by_cases habove : k < chunk[((s + e) / 2).toNat].1
        · -- the key lies below the probe
          rw [if_pos habove, intAdd_eq (by unfold INT_MIN; omega) (by unfold INT_MAX; omega), Option.bind_some]
          refine ih _ _ h0 (by omega) (by omega) (by omega) fun i hi hik => ?_
          refine ⟨(hk i hi hik).1, ?_⟩
          by_contra hi'
          rcases Nat.lt_or_ge ((s + e) / 2).toNat i with h | h
          · exact absurd (hlt _ i hmlt hi h) (by rw [hik]; exact not_lt.mpr habove.le)
          · have hieq : i = ((s + e) / 2).toNat := by omega
            subst hieq
            exact absurd hik (ne_of_gt habove)
        · -- the probe holds the key
          rw [if_neg habove]
          have hkey : chunk[((s + e) / 2).toNat].1 = k := le_antisymm (not_lt.mp habove) (not_lt.mp hbelow)
          have hfind := SortedMap.findList_eq_some_of_mem hs (List.getElem_mem hmlt)
          rw [hkey] at hfind
          rw [hfind]
          rfl
    · rw [if_neg hle, findList_eq_none_of_forall fun i hi hik => by have := hk i hi hik; omega]
      rfl

theorem find_eq (hs : chunk.Pairwise fun a b => a.1 < b.1) (hn : chunk.length ≤ 2 ^ 30) (k : K) :
    chunk.find k = some (SortedMap.findList k chunk) := by
  have h32 : ((2 ^ 32 : Nat) : Int) = 4294967296 := rfl
  have he : Int.bmod ((chunk.length : Int) - 1) (2 ^ 32) = (chunk.length : Int) - 1 :=
    Int.bmod_eq_of_le (by rw [h32]; omega) (by rw [h32]; omega)
  rw [find, he]
  exact findLoop_eq hs hn _ 0 _ le_rfl (by omega) (by omega) (by omega)
    fun i hi _ => ⟨by omega, by omega⟩

end Search

/-- On a chunk in key order of 2^31 entries, the search for its last key
overflows `s + e` at the second probe. -/
theorem find_overflows_on_two_pow_31_entries :
    let chunk : CCTSChunk Nat Nat := (List.range (2 ^ 31)).map fun i => (i, i)
    (chunk.Pairwise fun a b => a.1 < b.1) ∧ (2 ^ 31 - 1, 2 ^ 31 - 1) ∈ chunk ∧
      chunk.find (2 ^ 31 - 1) = none := by
  intro chunk
  have hlen : chunk.length = 2147483647 + 1 := by simp [chunk]
  have hbmod : Int.bmod (((2147483647 + 1 : Nat) : Int) - 1) (2 ^ 32) = 2147483647 := by decide
  have hprobe : chunk.getAt ((2147483647 : Int) >>> (1 : Nat)) = some (1073741823, 1073741823) := by
    rw [getAt_of_nonneg chunk (by decide), show ((2147483647 : Int) >>> (1 : Nat)).toNat = 1073741823 by decide,
      List.getElem?_map, List.getElem?_range (by decide)]
    rfl
  refine ⟨List.pairwise_map.mpr (List.pairwise_lt_range.imp id),
    List.mem_map.mpr ⟨2 ^ 31 - 1, List.mem_range.mpr (by decide), rfl⟩, ?_⟩
  -- the first probe, at 2^30 - 1, is below the key; the second overflows
  rw [find, hlen, hbmod, findLoop, if_pos (by decide), show intAdd 0 2147483647 = some 2147483647 by decide,
    Option.bind_eq_bind, Option.bind_some]
  dsimp only
  rw [hprobe, Option.bind_eq_bind, Option.bind_some]
  dsimp only
  rw [if_pos (by decide), show intAdd ((2147483647 : Int) >>> (1 : Nat)) 1 = some 1073741824 by decide, Option.bind_some,
    findLoop, if_pos (by decide), show intAdd 1073741824 2147483647 = none by decide]
  rfl

end CCTSChunk

namespace CCTSDB

/-- `MapType`: the buckets by time. -/
abbrev MapType (K V : Type) [LinearOrder K] := SortedMap Int (SortedMap K V)

/-- `CDblMap`: `mapCache[nIdxUpper]` is the upper map, the other the lower. -/
structure CDblMap (K V : Type) [LinearOrder K] where
  mapCache : Bool → MapType K V
  nIdxUpper : Bool

namespace CDblMap

variable {K V : Type} [LinearOrder K]

def empty : CDblMap K V := ⟨fun _ => SortedMap.empty, false⟩

def getUpperMap (c : CDblMap K V) : MapType K V := c.mapCache c.nIdxUpper

def getLowerMap (c : CDblMap K V) : MapType K V := c.mapCache !c.nIdxUpper

def setUpperMap (c : CDblMap K V) (m : MapType K V) : CDblMap K V :=
  { c with mapCache := Function.update c.mapCache c.nIdxUpper m }

/-- `Flip()`: the lower map is cleared and becomes the upper map. -/
def flip (c : CDblMap K V) : CDblMap K V :=
  ⟨Function.update c.mapCache (!c.nIdxUpper) SortedMap.empty, !c.nIdxUpper⟩

@[simp] theorem getUpperMap_setUpperMap (c : CDblMap K V) (m : MapType K V) :
    (c.setUpperMap m).getUpperMap = m := by
  simp [setUpperMap, getUpperMap]

@[simp] theorem getLowerMap_setUpperMap (c : CDblMap K V) (m : MapType K V) :
    (c.setUpperMap m).getLowerMap = c.getLowerMap := by
  simp [setUpperMap, getLowerMap]

@[simp] theorem setUpperMap_setUpperMap (c : CDblMap K V) (m m' : MapType K V) :
    (c.setUpperMap m).setUpperMap m' = c.setUpperMap m' := by
  simp [setUpperMap]

@[simp] theorem setUpperMap_getUpperMap (c : CDblMap K V) : c.setUpperMap c.getUpperMap = c := by
  simp [setUpperMap, getUpperMap]

@[simp] theorem getUpperMap_flip (c : CDblMap K V) : c.flip.getUpperMap = SortedMap.empty := by
  simp [flip, getUpperMap]

@[simp] theorem getLowerMap_flip (c : CDblMap K V) : c.flip.getLowerMap = c.getUpperMap := by
  simp [flip, getLowerMap, getUpperMap]

@[simp] theorem getUpperMap_empty : (empty : CDblMap K V).getUpperMap = SortedMap.empty := rfl

@[simp] theorem getLowerMap_empty : (empty : CDblMap K V).getLowerMap = SortedMap.empty := rfl

end CDblMap

end CCTSDB

/-- `CCTSDB<K,V,C>`: the index of the chunk file's positions by time, the
chunk file, and the two maps. -/
structure CCTSDB (K V : Type) [LinearOrder K] where
  dbIndex : SortedMap Int Nat
  tsChunk : List (CCTSChunk K V)
  dblMeta : CCTSDB.CDblMap K V

namespace CCTSDB

variable {K V : Type} [LinearOrder K]

def empty : CCTSDB K V := ⟨SortedMap.empty, [], CDblMap.empty⟩

/-- `LoadFromFile(nTime, chunk)`: the chunk at the index's position for the time. -/
def loadFromFile (db : CCTSDB K V) (nTime : Int) : Option (CCTSChunk K V) := do
  let pos ← db.dbIndex.find nTime
  db.tsChunk[pos]?

/-- `GetUpdateMap(nTime)`: the upper map's bucket for the time, copied there
first from the lower map or, when that has none, read from the chunk on disk,
or else made empty. `ReadTryLock` on the lower map succeeds: no `Flush` runs
meanwhile. -/
def getUpdateMap (db : CCTSDB K V) (nTime : Int) : CCTSDB K V × SortedMap K V :=
  let mapUpdate := db.dblMeta.getUpperMap
  match mapUpdate.find nTime with
  | some mapValue => (db, mapValue)
  | none =>
    match db.dblMeta.getLowerMap.find nTime with
    | some mapValue =>
      ({ db with dblMeta := db.dblMeta.setUpperMap (mapUpdate.insert nTime mapValue) }, mapValue)
    | none =>
      let mapValue := match db.loadFromFile nTime with
        | some chunk => chunk.foldl (fun m e => m.insertNew e.1 e.2) SortedMap.empty
        | none => SortedMap.empty
      ({ db with dblMeta := db.dblMeta.setUpperMap (mapUpdate.insert nTime mapValue) }, mapValue)

/-- A change made through `GetUpdateMap(nTime)` to the bucket it returns. -/
def modifyUpdateMap (db : CCTSDB K V) (nTime : Int) (f : SortedMap K V → SortedMap K V) : CCTSDB K V :=
  let r := db.getUpdateMap nTime
  { r.1 with dblMeta := r.1.dblMeta.setUpperMap (r.1.dblMeta.getUpperMap.insert nTime (f r.2)) }

/-- `Update(nTime, key, value)`: `GetUpdateMap(nTime)[key] = value`. -/
def update (db : CCTSDB K V) (nTime : Int) (key : K) (value : V) : CCTSDB K V :=
  db.modifyUpdateMap nTime fun m => m.insert key value

/-- `Erase(nTime, key)`: `GetUpdateMap(nTime).erase(key)`. -/
def erase (db : CCTSDB K V) (nTime : Int) (key : K) : CCTSDB K V :=
  db.modifyUpdateMap nTime fun m => m.erase key

/-- `Retrieve(nTime, key, value)`: the upper map's bucket, else the lower
map's, else the chunk on disk searched by `Find`; `none` where `Find` does
what C++ leaves undefined. -/
def retrieve (db : CCTSDB K V) (nTime : Int) (key : K) : Option (Option V) :=
  match db.dblMeta.getUpperMap.find nTime with
  | some mapValue => some (mapValue.find key)
  | none =>
    match db.dblMeta.getLowerMap.find nTime with
    | some mapValue => some (mapValue.find key)
    | none =>
      match db.loadFromFile nTime with
      | some chunk => chunk.find key
      | none => some none

/-- `Flush()`: each bucket of the lower map that is not empty is appended to
the chunk file as its entries in key order, at the position the index then
gives its time, the index entries of the empty ones are erased, and the maps
flip. -/
def flush (db : CCTSDB K V) : CCTSDB K V :=
  let mapFlush := db.dblMeta.getLowerMap
  let vDel := (mapFlush.entries.filter fun e => e.2.isEmpty).map Prod.fst
  let vNew := mapFlush.entries.filter fun e => !e.2.isEmpty
  let vTime := vNew.map Prod.fst
  let vChunk := vNew.map fun e => e.2.entries
  let vPos := List.range' db.tsChunk.length vChunk.length
  let dbIndex := (vTime.zip vPos).foldl (fun idx e => idx.insert e.1 e.2) db.dbIndex
  ⟨vDel.foldl (fun idx t => idx.erase t) dbIndex, db.tsChunk ++ vChunk, db.dblMeta.flip⟩

/-- The calls that change the store; `Retrieve` changes nothing. -/
inductive Call (K V : Type)
  | update (nTime : Int) (key : K) (value : V)
  | erase (nTime : Int) (key : K)
  | flush

def step (db : CCTSDB K V) : Call K V → CCTSDB K V
  | .update nTime key value => db.update nTime key value
  | .erase nTime key => db.erase nTime key
  | .flush => db.flush

/-- The store after the calls, from an empty one. -/
def run (calls : List (Call K V)) : CCTSDB K V := calls.foldl step empty

/-! ## The plain map the store stands for -/

/-- What a call does to the value of `(nTime, key)`. -/
def lastWriteStep (nTime : Int) (key : K) (r : Option V) : Call K V → Option V
  | .update t k v => if t = nTime ∧ k = key then some v else r
  | .erase t k => if t = nTime ∧ k = key then none else r
  | .flush => r

/-- The value of the last `Update` of `(nTime, key)` that no `Erase` of it follows. -/
def lastWrite (calls : List (Call K V)) (nTime : Int) (key : K) : Option V :=
  calls.foldl (lastWriteStep nTime key) none

/-- The keys the calls update in the bucket of `nTime`. -/
def updatedKeys (calls : List (Call K V)) (nTime : Int) : List K :=
  calls.filterMap fun
    | .update t k _ => if t = nTime then some k else none
    | _ => none

/-- The bucket of a time in the first layer that holds it, empty when none does. -/
def bucket (db : CCTSDB K V) (nTime : Int) : SortedMap K V :=
  match db.dblMeta.getUpperMap.find nTime with
  | some m => m
  | none =>
    match db.dblMeta.getLowerMap.find nTime with
    | some m => m
    | none =>
      match db.loadFromFile nTime with
      | some chunk => chunk.foldl (fun m e => m.insertNew e.1 e.2) SortedMap.empty
      | none => SortedMap.empty

/-- What the store holds for `(nTime, key)`. -/
def view (db : CCTSDB K V) (nTime : Int) (key : K) : Option V := (db.bucket nTime).find key

/-- Keys of `U` only. -/
def KeysIn (U : List K) (m : SortedMap K V) : Prop := ∀ k v, m.find k = some v → k ∈ U

/-- What keeps the store readable, for `U t` the keys a bucket of time `t` may
hold: the buckets of both maps hold such keys, and each position the index
gives holds a chunk in key order of such keys. -/
structure Inv (U : Int → List K) (db : CCTSDB K V) : Prop where
  upper : ∀ t m, db.dblMeta.getUpperMap.find t = some m → KeysIn (U t) m
  lower : ∀ t m, db.dblMeta.getLowerMap.find t = some m → KeysIn (U t) m
  indexed : ∀ t p, db.dbIndex.find t = some p → p < db.tsChunk.length
  chunk : ∀ t chunk, db.loadFromFile t = some chunk →
    (chunk.Pairwise fun a b => a.1 < b.1) ∧ ∀ e ∈ chunk, e.1 ∈ U t

/-! ## What each call does to the buckets -/

theorem loadFromFile_eq (db : CCTSDB K V) (t : Int) :
    db.loadFromFile t = (db.dbIndex.find t).bind fun p => db.tsChunk[p]? := rfl

theorem getUpdateMap_eq (db : CCTSDB K V) (t : Int) :
    ∃ u : MapType K V, db.getUpdateMap t = ({ db with dblMeta := db.dblMeta.setUpperMap u }, db.bucket t) ∧
      ∀ t', t' ≠ t → u.find t' = db.dblMeta.getUpperMap.find t' := by
  unfold getUpdateMap bucket
  dsimp only
  cases hu : db.dblMeta.getUpperMap.find t with
  | some m => exact ⟨db.dblMeta.getUpperMap, by rw [CDblMap.setUpperMap_getUpperMap], fun _ _ => rfl⟩
  | none =>
    cases hl : db.dblMeta.getLowerMap.find t with
    | some m => exact ⟨_, rfl, fun t' ht' => by simp [ht']⟩
    | none => exact ⟨_, rfl, fun t' ht' => by simp [ht']⟩

theorem modifyUpdateMap_eq (db : CCTSDB K V) (t : Int) (f : SortedMap K V → SortedMap K V) :
    ∃ u : MapType K V, db.modifyUpdateMap t f =
        { db with dblMeta := db.dblMeta.setUpperMap (u.insert t (f (db.bucket t))) } ∧
      ∀ t', t' ≠ t → u.find t' = db.dblMeta.getUpperMap.find t' := by
  obtain ⟨u, hr, hu⟩ := getUpdateMap_eq db t
  refine ⟨u, ?_, hu⟩
  simp only [modifyUpdateMap, hr, CDblMap.getUpperMap_setUpperMap, CDblMap.setUpperMap_setUpperMap]

theorem find_getUpperMap_modifyUpdateMap (db : CCTSDB K V) (t t' : Int) (f : SortedMap K V → SortedMap K V) :
    (db.modifyUpdateMap t f).dblMeta.getUpperMap.find t' =
      if t' = t then some (f (db.bucket t)) else db.dblMeta.getUpperMap.find t' := by
  obtain ⟨u, hr, hu⟩ := modifyUpdateMap_eq db t f
  rw [hr, CDblMap.getUpperMap_setUpperMap, SortedMap.find_insert]
  split_ifs with h
  · rfl
  · exact hu t' h

@[simp] theorem getLowerMap_modifyUpdateMap (db : CCTSDB K V) (t : Int) (f : SortedMap K V → SortedMap K V) :
    (db.modifyUpdateMap t f).dblMeta.getLowerMap = db.dblMeta.getLowerMap := by
  obtain ⟨u, hr, -⟩ := modifyUpdateMap_eq db t f
  rw [hr, CDblMap.getLowerMap_setUpperMap]

@[simp] theorem dbIndex_modifyUpdateMap (db : CCTSDB K V) (t : Int) (f : SortedMap K V → SortedMap K V) :
    (db.modifyUpdateMap t f).dbIndex = db.dbIndex := by
  obtain ⟨u, hr, -⟩ := modifyUpdateMap_eq db t f
  rw [hr]

@[simp] theorem tsChunk_modifyUpdateMap (db : CCTSDB K V) (t : Int) (f : SortedMap K V → SortedMap K V) :
    (db.modifyUpdateMap t f).tsChunk = db.tsChunk := by
  obtain ⟨u, hr, -⟩ := modifyUpdateMap_eq db t f
  rw [hr]

@[simp] theorem loadFromFile_modifyUpdateMap (db : CCTSDB K V) (t : Int) (f : SortedMap K V → SortedMap K V) :
    (db.modifyUpdateMap t f).loadFromFile = db.loadFromFile := by
  funext t'
  simp only [loadFromFile_eq, dbIndex_modifyUpdateMap, tsChunk_modifyUpdateMap]

theorem bucket_modifyUpdateMap (db : CCTSDB K V) (t t' : Int) (f : SortedMap K V → SortedMap K V) :
    (db.modifyUpdateMap t f).bucket t' = if t' = t then f (db.bucket t) else db.bucket t' := by
  unfold bucket
  rw [find_getUpperMap_modifyUpdateMap, getLowerMap_modifyUpdateMap, loadFromFile_modifyUpdateMap]
  split_ifs <;> rfl

theorem view_update (db : CCTSDB K V) (t : Int) (k : K) (v : V) (t' : Int) (k' : K) :
    (db.update t k v).view t' k' = if t = t' ∧ k = k' then some v else db.view t' k' := by
  unfold view update
  rw [bucket_modifyUpdateMap]
  by_cases ht : t' = t
  · subst ht
    simp [eq_comm]
  · simp [ht, Ne.symm ht]

theorem view_erase (db : CCTSDB K V) (t : Int) (k : K) (t' : Int) (k' : K) :
    (db.erase t k).view t' k' = if t = t' ∧ k = k' then none else db.view t' k' := by
  unfold view erase
  rw [bucket_modifyUpdateMap]
  by_cases ht : t' = t
  · subst ht
    simp [eq_comm]
  · simp [ht, Ne.symm ht]

/-! ## What `Flush` writes -/

section Flush

variable {α : Type} (key : α → Int) (g : α → CCTSChunk K V)

omit [LinearOrder K] in
theorem find_foldl_insert_zip_range' (l : List α) (hl : (l.map key).Nodup) (base : List (CCTSChunk K V))
    (idx : SortedMap Int Nat) {x : α} (hx : x ∈ l) :
    ∃ p, (((l.map key).zip (List.range' base.length (l.map g).length)).foldl
        (fun idx e => idx.insert e.1 e.2) idx).find (key x) = some p ∧
      (base ++ l.map g)[p]? = some (g x) := by
  induction l generalizing base idx with
  | nil => cases hx
  | cons a l ih =>
    rw [List.map_cons, List.nodup_cons] at hl
    rw [List.map_cons, List.map_cons, List.length_cons, List.range'_succ, List.zip_cons_cons, List.foldl_cons]
    rcases List.mem_cons.mp hx with rfl | hx
    · have hkeys : ((l.map key).zip (List.range' (base.length + 1) (l.map g).length)).map Prod.fst = l.map key :=
        List.map_fst_zip (by simp)
      refine ⟨base.length, ?_, by simp⟩
      rw [SortedMap.find_foldl_insert_of_not_mem (by rw [hkeys]; exact hl.1), SortedMap.find_insert, if_pos rfl]
    · have h := ih hl.2 (base ++ [g a]) (idx.insert (key a) base.length) hx
      rw [List.length_append, List.length_singleton, List.append_assoc, List.singleton_append] at h
      exact h

omit [LinearOrder K] in
theorem find_foldl_insert_zip_range'_of_not_mem (l : List α) (base : List (CCTSChunk K V))
    (idx : SortedMap Int Nat) {t : Int} (ht : t ∉ l.map key) :
    (((l.map key).zip (List.range' base.length (l.map g).length)).foldl
        (fun idx e => idx.insert e.1 e.2) idx).find t = idx.find t := by
  have hkeys : ((l.map key).zip (List.range' base.length (l.map g).length)).map Prod.fst = l.map key :=
    List.map_fst_zip (by simp)
  exact SortedMap.find_foldl_insert_of_not_mem (by rw [hkeys]; exact ht) idx

end Flush

theorem tsChunk_prefix_flush (db : CCTSDB K V) : db.tsChunk <+: db.flush.tsChunk :=
  List.prefix_append _ _

theorem getElem?_tsChunk_flush (db : CCTSDB K V) {p : Nat} (hp : p < db.tsChunk.length) :
    db.flush.tsChunk[p]? = db.tsChunk[p]? :=
  List.getElem?_append_left hp

@[simp] theorem dblMeta_flush (db : CCTSDB K V) : db.flush.dblMeta = db.dblMeta.flip := rfl

theorem find_dbIndex_flush (db : CCTSDB K V) (t : Int) :
    (db.dblMeta.getLowerMap.find t = none ∧ db.flush.dbIndex.find t = db.dbIndex.find t) ∨
      (∃ m, db.dblMeta.getLowerMap.find t = some m ∧ m.isEmpty = true ∧ db.flush.dbIndex.find t = none) ∨
      ∃ m p, db.dblMeta.getLowerMap.find t = some m ∧ m.isEmpty = false ∧ db.flush.dbIndex.find t = some p ∧
        db.flush.tsChunk[p]? = some m.entries := by
  have hfind : db.flush.dbIndex.find t = _ := SortedMap.find_foldl_erase _ _ t
  cases hl : db.dblMeta.getLowerMap.find t with
  | none =>
    refine .inl ⟨rfl, ?_⟩
    rw [hfind, if_neg (by simp [SortedMap.mem_filter_keys_iff, hl])]
    refine find_foldl_insert_zip_range'_of_not_mem Prod.fst (fun e : Int × SortedMap K V => e.2.entries)
      (db.dblMeta.getLowerMap.entries.filter fun e => !e.2.isEmpty) _ _ ?_
    simp [SortedMap.mem_filter_keys_iff, hl]
  | some m =>
    cases hm : m.isEmpty with
    | true =>
      refine .inr (.inl ⟨m, rfl, hm, ?_⟩)
      rw [hfind, if_pos ((SortedMap.mem_filter_keys_iff _ _ _).mpr ⟨m, hl, hm⟩)]
    | false =>
      have hmem : (t, m) ∈ db.dblMeta.getLowerMap.entries.filter fun e => !e.2.isEmpty :=
        List.mem_filter.mpr ⟨(SortedMap.mem_entries_iff _ _ _).mpr hl, by simp [hm]⟩
      obtain ⟨p, hp, hc⟩ := find_foldl_insert_zip_range' Prod.fst (fun e : Int × SortedMap K V => e.2.entries) _
        (SortedMap.nodup_filter_keys _ _) db.tsChunk db.dbIndex hmem
      refine .inr (.inr ⟨m, p, rfl, hm, ?_, hc⟩)
      rw [hfind, if_neg (by simp [SortedMap.mem_filter_keys_iff, hl, hm])]
      exact hp

theorem loadFromFile_flush (db : CCTSDB K V) (hidx : ∀ t p, db.dbIndex.find t = some p → p < db.tsChunk.length)
    (t : Int) :
    db.flush.loadFromFile t =
      match db.dblMeta.getLowerMap.find t with
      | some m => if m.isEmpty then none else some m.entries
      | none => db.loadFromFile t := by
  rcases find_dbIndex_flush db t with ⟨hl, hi⟩ | ⟨m, hl, hm, hi⟩ | ⟨m, p, hl, hm, hi, hc⟩
  · rw [hl, loadFromFile_eq, loadFromFile_eq, hi]
    cases hp : db.dbIndex.find t with
    | none => rfl
    | some p => exact getElem?_tsChunk_flush db (hidx t p hp)
  · rw [hl, loadFromFile_eq, hi]
    simp [hm]
  · rw [hl, loadFromFile_eq, hi]
    simp [hm, hc]

/-! ## The store stands for the plain map -/

section Refinement

variable {U : Int → List K} {db : CCTSDB K V}

theorem keysIn_foldl_insertNew {U : List K} {chunk : CCTSChunk K V} (h : ∀ e ∈ chunk, e.1 ∈ U) :
    KeysIn U (chunk.foldl (fun m e => m.insertNew e.1 e.2) SortedMap.empty) := by
  intro k v hk
  rw [SortedMap.find_foldl_insertNew, SortedMap.find_empty, Option.none_or] at hk
  exact h _ (SortedMap.mem_of_findList_eq_some hk)

theorem Inv.keysIn_bucket (h : Inv U db) (t : Int) : KeysIn (U t) (db.bucket t) := by
  unfold bucket
  cases hu : db.dblMeta.getUpperMap.find t with
  | some m => exact h.upper t m hu
  | none =>
    cases hl : db.dblMeta.getLowerMap.find t with
    | some m => exact h.lower t m hl
    | none =>
      cases hc : db.loadFromFile t with
      | some chunk => exact keysIn_foldl_insertNew (h.chunk t chunk hc).2
      | none => exact fun k v hk => absurd hk (by simp)

theorem length_le_of_keys {U : List K} {chunk : CCTSChunk K V} (hs : chunk.Pairwise fun a b => a.1 < b.1)
    (h : ∀ e ∈ chunk, e.1 ∈ U) : chunk.length ≤ U.dedup.length := by
  have hnodup : (chunk.map Prod.fst).Nodup := (hs.map Prod.fst fun a b (hab : a.1 < b.1) => hab).imp ne_of_lt
  have hsub : chunk.map Prod.fst ⊆ U.dedup := by
    intro k hk
    obtain ⟨e, he, rfl⟩ := List.mem_map.mp hk
    exact List.mem_dedup.mpr (h e he)
  simpa using (hnodup.subperm hsub).length_le

theorem retrieve_eq_view (h : Inv U db) {t : Int} (hU : (U t).dedup.length ≤ 2 ^ 30) (k : K) :
    db.retrieve t k = some (db.view t k) := by
  unfold retrieve view bucket
  cases hu : db.dblMeta.getUpperMap.find t with
  | some m => rfl
  | none =>
    cases hl : db.dblMeta.getLowerMap.find t with
    | some m => rfl
    | none =>
      cases hc : db.loadFromFile t with
      | some chunk =>
        obtain ⟨hs, hkeys⟩ := h.chunk t chunk hc
        dsimp only
        rw [CCTSChunk.find_eq hs ((length_le_of_keys hs hkeys).trans hU), SortedMap.find_foldl_insertNew,
          SortedMap.find_empty, Option.none_or]
      | none => rfl

theorem view_flush (db : CCTSDB K V) (hidx : ∀ t p, db.dbIndex.find t = some p → p < db.tsChunk.length) :
    db.flush.view = db.view := by
  funext t k
  unfold view bucket
  rw [dblMeta_flush, CDblMap.getUpperMap_flip, SortedMap.find_empty, CDblMap.getLowerMap_flip,
    loadFromFile_flush db hidx]
  cases hu : db.dblMeta.getUpperMap.find t with
  | some m => rfl
  | none =>
    cases hl : db.dblMeta.getLowerMap.find t with
    | some m =>
      cases hm : m.isEmpty with
      | false =>
        simp only [hm, Bool.false_eq_true, if_false, SortedMap.find_foldl_insertNew, SortedMap.find_empty,
          Option.none_or]
        rfl
      | true => simp [hm, (SortedMap.isEmpty_iff m).mp hm]
    | none => rfl

theorem Inv.modifyUpdateMap (h : Inv U db) (t : Int) (f : SortedMap K V → SortedMap K V)
    (hf : KeysIn (U t) (db.bucket t) → KeysIn (U t) (f (db.bucket t))) : Inv U (db.modifyUpdateMap t f) where
  upper t' m hm := by
    rw [find_getUpperMap_modifyUpdateMap] at hm
    split_ifs at hm with ht
    · cases hm
      subst ht
      exact hf (h.keysIn_bucket t')
    · exact h.upper t' m hm
  lower t' m hm := h.lower t' m (by rwa [getLowerMap_modifyUpdateMap] at hm)
  indexed t' p hp := by
    rw [tsChunk_modifyUpdateMap]
    exact h.indexed t' p (by rwa [dbIndex_modifyUpdateMap] at hp)
  chunk t' c hc := h.chunk t' c (by rwa [loadFromFile_modifyUpdateMap] at hc)

theorem Inv.update (h : Inv U db) {t : Int} {k : K} (hk : k ∈ U t) (v : V) : Inv U (db.update t k v) := by
  refine h.modifyUpdateMap t _ fun hm k' v' hk' => ?_
  rw [SortedMap.find_insert] at hk'
  split_ifs at hk' with h'
  · exact h' ▸ hk
  · exact hm k' v' hk'

theorem Inv.erase (h : Inv U db) (t : Int) (k : K) : Inv U (db.erase t k) := by
  refine h.modifyUpdateMap t _ fun hm k' v' hk' => ?_
  rw [SortedMap.find_erase] at hk'
  split_ifs at hk'
  exact hm k' v' hk'

theorem Inv.flush (h : Inv U db) : Inv U db.flush where
  upper t m hm := by simp at hm
  lower t m hm := h.upper t m (by simpa using hm)
  indexed t p hp := by
    rcases find_dbIndex_flush db t with ⟨-, hi⟩ | ⟨m, -, -, hi⟩ | ⟨m, q, -, -, hi, hc⟩
    · rw [hi] at hp
      exact (h.indexed t p hp).trans_le db.tsChunk_prefix_flush.length_le
    · rw [hi] at hp
      cases hp
    · rw [hi] at hp
      cases hp
      exact (List.getElem?_eq_some_iff.mp hc).1
  chunk t c hc := by
    rw [loadFromFile_flush db h.indexed] at hc
    cases hl : db.dblMeta.getLowerMap.find t with
    | some m =>
      cases hm : m.isEmpty
      · simp only [hl, hm, Bool.false_eq_true, if_false, Option.some.injEq] at hc
        subst hc
        exact ⟨m.sorted, fun e he => h.lower t m hl e.1 e.2 ((SortedMap.mem_entries_iff m _ _).mp he)⟩
      · simp [hl, hm] at hc
    | none =>
      rw [hl] at hc
      exact h.chunk t c hc

theorem Inv.step (h : Inv U db) (c : Call K V) (hc : ∀ t k v, c = .update t k v → k ∈ U t) :
    Inv U (db.step c) := by
  cases c with
  | update t k v => exact h.update (hc t k v rfl) v
  | erase t k => exact h.erase t k
  | flush => exact h.flush

theorem view_step (h : Inv U db) (c : Call K V) (t : Int) (k : K) :
    (db.step c).view t k = lastWriteStep t k (db.view t k) c := by
  cases c with
  | update t' k' v => exact view_update db t' k' v t k
  | erase t' k' => exact view_erase db t' k' t k
  | flush => exact congrFun (congrFun (view_flush db h.indexed) t) k

theorem Inv.foldl_step (calls : List (Call K V)) (h : Inv U db)
    (hc : ∀ c ∈ calls, ∀ t k v, c = .update t k v → k ∈ U t) : Inv U (calls.foldl CCTSDB.step db) := by
  induction calls generalizing db with
  | nil => exact h
  | cons c calls ih =>
    exact ih (h.step c (hc c List.mem_cons_self)) fun c' hc' => hc c' (List.mem_cons_of_mem c hc')

theorem view_foldl_step (calls : List (Call K V)) (h : Inv U db)
    (hc : ∀ c ∈ calls, ∀ t k v, c = .update t k v → k ∈ U t) (t : Int) (k : K) :
    (calls.foldl step db).view t k = calls.foldl (lastWriteStep t k) (db.view t k) := by
  induction calls generalizing db with
  | nil => rfl
  | cons c calls ih =>
    rw [List.foldl_cons, List.foldl_cons, ih (h.step c (hc c List.mem_cons_self))
      fun c' hc' => hc c' (List.mem_cons_of_mem c hc'), view_step h c t k]

theorem inv_empty (U : Int → List K) : Inv U (empty : CCTSDB K V) where
  upper t m hm := by simp [empty] at hm
  lower t m hm := by simp [empty] at hm
  indexed t p hp := by simp [empty] at hp
  chunk t c hc := by simp [empty, loadFromFile_eq] at hc

omit [LinearOrder K] in
theorem mem_updatedKeys {calls : List (Call K V)} {t : Int} {k : K} {v : V} (h : Call.update t k v ∈ calls) :
    k ∈ updatedKeys calls t :=
  List.mem_filterMap.mpr ⟨_, h, by simp⟩

omit [LinearOrder K] in
theorem length_updatedKeys_le (calls : List (Call K V)) (t : Int) : (updatedKeys calls t).length ≤ calls.length :=
  List.length_filterMap_le _ _

theorem inv_run (calls : List (Call K V)) : Inv (updatedKeys calls) (run calls) :=
  Inv.foldl_step calls (inv_empty _) fun _ hc _ _ _ he => mem_updatedKeys (he ▸ hc)

theorem view_run (calls : List (Call K V)) (t : Int) (k : K) : (run calls).view t k = lastWrite calls t k := by
  rw [run, view_foldl_step calls (inv_empty (updatedKeys calls)) (fun _ hc _ _ _ he => mem_updatedKeys (he ▸ hc))]
  rfl

end Refinement

/-- After any calls that give no bucket more than 2^30 keys: `Retrieve`
reads the value of the last `Update` of the key that no `Erase` of it
followed, and reads the same after a `Flush`; `Flush` writes each bucket of
the lower map that is not empty as the chunk of its entries in key order,
drops the index entry of each empty one and leaves the other chunks, so each
bucket of the upper map is on disk after two; and `Find` on a chunk in key
order of at most 2^30 entries finds exactly the values the chunk holds. -/
theorem retrieve_reads_last_write (calls : List (Call K V))
    (hbucket : ∀ t, (updatedKeys calls t).dedup.length ≤ 2 ^ 30) :
    let db := run calls
    (∀ t k, db.retrieve t k = some (lastWrite calls t k)) ∧
      (∀ t k, db.flush.retrieve t k = some (lastWrite calls t k)) ∧
      (∀ t m, db.dblMeta.getLowerMap.find t = some m →
        (m.isEmpty = false → db.flush.loadFromFile t = some m.entries) ∧
          (m.isEmpty = true → db.flush.dbIndex.find t = none)) ∧
      (∀ t, db.dblMeta.getLowerMap.find t = none → db.flush.loadFromFile t = db.loadFromFile t) ∧
      (∀ t m, db.dblMeta.getUpperMap.find t = some m → m.isEmpty = false →
        db.flush.flush.loadFromFile t = some m.entries) ∧
      ∀ (chunk : CCTSChunk K V), (chunk.Pairwise fun a b => a.1 < b.1) → chunk.length ≤ 2 ^ 30 → ∀ k,
        chunk.find k ≠ none ∧ ∀ v, chunk.find k = some (some v) ↔ (k, v) ∈ chunk := by
  intro db
  have hinv : Inv (updatedKeys calls) db := inv_run calls
  refine ⟨fun t k => ?_, fun t k => ?_, fun t m hl => ⟨fun hm => ?_, fun hm => ?_⟩, fun t hl => ?_,
    fun t m hu hm => ?_, fun chunk hs hn k => ?_⟩
  · rw [retrieve_eq_view hinv (hbucket t), view_run]
  · rw [retrieve_eq_view hinv.flush (hbucket t), view_flush db hinv.indexed, view_run]
  · rw [loadFromFile_flush db hinv.indexed, hl]
    simp [hm]
  · rcases find_dbIndex_flush db t with ⟨hl', -⟩ | ⟨m', -, -, hi⟩ | ⟨m', p, hl', hm', -⟩
    · rw [hl] at hl'
      cases hl'
    · exact hi
    · rw [hl] at hl'
      cases hl'
      rw [hm] at hm'
      cases hm'
  · rw [loadFromFile_flush db hinv.indexed, hl]
  · rw [loadFromFile_flush db.flush hinv.flush.indexed, dblMeta_flush, CDblMap.getLowerMap_flip, hu]
    simp [hm]
  · rw [CCTSChunk.find_eq hs hn]
    refine ⟨Option.some_ne_none _, fun v => ⟨fun h => ?_, fun h => ?_⟩⟩
    · exact SortedMap.mem_of_findList_eq_some (Option.some.inj h)
    · rw [SortedMap.findList_eq_some_of_mem hs h]

theorem retrieve_reads_last_write_after_flushes :
    let calls : List (Call Nat Nat) :=
      [.update 7 1 10, .update 7 2 20, .flush, .update 7 1 11, .flush, .flush, .erase 7 2]
    (∀ t, (updatedKeys calls t).dedup.length ≤ 2 ^ 30) ∧
      (run calls).retrieve 7 1 = some (some 11) ∧ (run calls).retrieve 7 2 = some none := by
  intro calls
  have hbucket : ∀ t, (updatedKeys calls t).dedup.length ≤ 2 ^ 30 := fun t =>
    ((List.dedup_sublist _).length_le.trans (length_updatedKeys_le calls t)).trans (by decide)
  have h := retrieve_reads_last_write calls hbucket
  exact ⟨hbucket, (h.1 7 1).trans (by decide), (h.1 7 2).trans (by decide)⟩

end CCTSDB

end Multiverse.Storage
