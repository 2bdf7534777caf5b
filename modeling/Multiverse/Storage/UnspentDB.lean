import Multiverse.Common.Transaction
import Multiverse.Lib.SortedMap

/-! # The unspent outputs of a fork on disk

`CForkUnspentDB` of `storage/unspentdb.cpp` keeps a fork's unspent outputs in
a key-value store with two caches in front of it: the upper map takes the
updates, the lower map waits to be written. A null output in a cache marks
an outpoint removed. `Flush` writes the lower map to the store, erasing the
removed outpoints, and `Flip`s the caches: the lower map is cleared and
becomes the upper one. The store is a sorted map here, its transactions
always succeed, and the calls run one after another.

What the caches and the store stand for is one map of outputs: an update
sets an added outpoint's output, none for a null output, and a removed
outpoint's none. `ReadUnspent` reads it, `WalkThroughUnspent` visits each
of its outputs once, and `Flush` and `Copy` keep it, as long as the store
holds no null output, which it never gets from `Flush` or `Copy`.
-/

namespace Multiverse.Storage

abbrev MapType := SortedMap CTxOutPoint CTxOutput

/-- `CDblMap`: `mapCache[nIdxUpper]` is the upper map, the other the lower. -/
structure CDblMap where
  mapCache : Bool → MapType
  nIdxUpper : Bool

namespace CDblMap

def empty : CDblMap := ⟨fun _ => SortedMap.empty, false⟩

def getUpperMap (c : CDblMap) : MapType := c.mapCache c.nIdxUpper

def getLowerMap (c : CDblMap) : MapType := c.mapCache !c.nIdxUpper

def setUpperMap (c : CDblMap) (m : MapType) : CDblMap :=
  { c with mapCache := Function.update c.mapCache c.nIdxUpper m }

/-- `Flip()`: the lower map is cleared and becomes the upper map. -/
def flip (c : CDblMap) : CDblMap :=
  ⟨Function.update c.mapCache (!c.nIdxUpper) SortedMap.empty, !c.nIdxUpper⟩

@[simp] theorem getUpperMap_setUpperMap (c : CDblMap) (m : MapType) :
    (c.setUpperMap m).getUpperMap = m := by
  simp [setUpperMap, getUpperMap]

@[simp] theorem getLowerMap_setUpperMap (c : CDblMap) (m : MapType) :
    (c.setUpperMap m).getLowerMap = c.getLowerMap := by
  simp [setUpperMap, getLowerMap]

@[simp] theorem getUpperMap_flip (c : CDblMap) : c.flip.getUpperMap = SortedMap.empty := by
  simp [flip, getUpperMap]

@[simp] theorem getLowerMap_flip (c : CDblMap) : c.flip.getLowerMap = c.getUpperMap := by
  simp [flip, getLowerMap, getUpperMap]

end CDblMap

structure CForkUnspentDB where
  db : MapType
  dblCache : CDblMap

namespace CForkUnspentDB

/-- One cache's answer for an outpoint: `none` when it has no entry, and
otherwise the output, or none for a null one. -/
def readCache (m : MapType) (o : CTxOutPoint) : Option (Option CTxOutput) :=
  (m.find o).map CTxOutput.toOption

/-- A cache in front of what lies below it. -/
def readFrom (m : MapType) (below : CTxOutPoint → Option CTxOutput) (o : CTxOutPoint) :
    Option CTxOutput :=
  (readCache m o).getD (below o)

/-- `ReadUnspent(txout, output)`: the upper map, then the lower map, then the store. -/
def readUnspent (u : CForkUnspentDB) (o : CTxOutPoint) : Option CTxOutput :=
  readFrom u.dblCache.getUpperMap (readFrom u.dblCache.getLowerMap u.db.find) o

/-- `UpdateUnspent(vAddNew, vRemove)`: the outputs added, then the removed
outpoints set to null, in the upper map. -/
def updateUnspent (u : CForkUnspentDB) (vAddNew : List (CTxOutPoint × CTxOutput))
    (vRemove : List CTxOutPoint) : CForkUnspentDB :=
  let mapUpper := vAddNew.foldl (fun m e => m.insert e.1 e.2) u.dblCache.getUpperMap
  let mapUpper := vRemove.foldl (fun m o => m.insert o CTxOutput.null) mapUpper
  { u with dblCache := u.dblCache.setUpperMap mapUpper }

/-- `Flush()`: the lower map's outputs are written to the store and its null
entries erased from it, then the caches flip. -/
def flush (u : CForkUnspentDB) : CForkUnspentDB :=
  let mapLower := u.dblCache.getLowerMap
  let vAddNew := mapLower.entries.filter fun e => !e.2.isNull
  let vRemove := (mapLower.entries.filter fun e => e.2.isNull).map Prod.fst
  let db := vAddNew.foldl (fun db e => db.insert e.1 e.2) u.db
  ⟨vRemove.foldl (fun db o => db.erase o) db, u.dblCache.flip⟩

/-- `WalkThroughUnspent(walker)`, for a walker that always goes on: the
stored outputs neither cache holds (`LoadWalker`), the lower map's outputs
the upper map does not hold, and the upper map's, the null ones left out of
the caches. -/
def walkThroughUnspent (u : CForkUnspentDB) : List (CTxOutPoint × CTxOutput) :=
  let mapUpper := u.dblCache.getUpperMap
  let mapLower := u.dblCache.getLowerMap
  u.db.entries.filter (fun e => (mapUpper.find e.1).isNone && (mapLower.find e.1).isNone) ++
    mapLower.entries.filter (fun e => (mapUpper.find e.1).isNone && !e.2.isNull) ++
    mapUpper.entries.filter fun e => !e.2.isNull

/-- `RemoveAll()`: the store and the caches emptied. -/
def removeAll (_ : CForkUnspentDB) : CForkUnspentDB := ⟨SortedMap.empty, CDblMap.empty⟩

def writeUnspent (u : CForkUnspentDB) (o : CTxOutPoint) (out : CTxOutput) : CForkUnspentDB :=
  { u with db := u.db.insert o out }

/-- `Copy(dbUnspent)`: the destination emptied, every stored output written
to it by `CopyWalker`, and the caches copied. -/
def copy (src dest : CForkUnspentDB) : CForkUnspentDB :=
  let dest := src.db.entries.foldl (fun d e => d.writeUnspent e.1 e.2) dest.removeAll
  { dest with dblCache := src.dblCache }

/-! ## The map of outputs the caches and the store stand for -/

/-- What `UpdateUnspent` does to the outputs: each added outpoint gets its
output, none for a null one, and then each removed outpoint none. -/
def applyUpdate (outputs : CTxOutPoint → Option CTxOutput) (vAddNew : List (CTxOutPoint × CTxOutput))
    (vRemove : List CTxOutPoint) : CTxOutPoint → Option CTxOutput :=
  let outputs := vAddNew.foldl (fun M e => Function.update M e.1 e.2.toOption) outputs
  vRemove.foldl (fun M o => Function.update M o none) outputs

/-- The store holds no null output. -/
def StoreLive (u : CForkUnspentDB) : Prop := ∀ o out, u.db.find o = some out → out.isNull = false

theorem readFrom_insert (m : MapType) (below : CTxOutPoint → Option CTxOutput) (k : CTxOutPoint)
    (v : CTxOutput) : readFrom (m.insert k v) below = Function.update (readFrom m below) k v.toOption := by
  funext o
  by_cases h : o = k
  · subst h
    simp [readFrom, readCache]
  · simp [readFrom, readCache, h]

theorem readFrom_foldl_insert (l : List (CTxOutPoint × CTxOutput)) (m : MapType)
    (below : CTxOutPoint → Option CTxOutput) :
    readFrom (l.foldl (fun m e => m.insert e.1 e.2) m) below =
      l.foldl (fun M e => Function.update M e.1 e.2.toOption) (readFrom m below) := by
  induction l generalizing m with
  | nil => rfl
  | cons e l ih => rw [List.foldl_cons, List.foldl_cons, ih, readFrom_insert]

@[simp] theorem readFrom_empty (below : CTxOutPoint → Option CTxOutput) :
    readFrom SortedMap.empty below = below := by
  funext o
  simp [readFrom, readCache]

theorem readUnspent_updateUnspent (u : CForkUnspentDB) (vAddNew : List (CTxOutPoint × CTxOutput))
    (vRemove : List CTxOutPoint) :
    (u.updateUnspent vAddNew vRemove).readUnspent = applyUpdate u.readUnspent vAddNew vRemove := by
  -- the removals are additions of the null output
  have hremove : ∀ m : MapType, vRemove.foldl (fun m o => m.insert o CTxOutput.null) m =
      (vRemove.map fun o => (o, CTxOutput.null)).foldl (fun m e => m.insert e.1 e.2) m := by
    intro m
    rw [List.foldl_map]
  have hnone : ∀ M : CTxOutPoint → Option CTxOutput, vRemove.foldl (fun M o => Function.update M o none) M =
      (vRemove.map fun o => (o, CTxOutput.null)).foldl (fun M e => Function.update M e.1 e.2.toOption) M := by
    intro M
    rw [List.foldl_map]
    rfl
  funext o
  simp only [readUnspent, updateUnspent, CDblMap.getUpperMap_setUpperMap, CDblMap.getLowerMap_setUpperMap,
    applyUpdate]
  rw [hremove, readFrom_foldl_insert, readFrom_foldl_insert, hnone]
  rfl

@[simp] theorem flush_dblCache (u : CForkUnspentDB) : u.flush.dblCache = u.dblCache.flip := rfl

theorem find_flush_db (u : CForkUnspentDB) : u.flush.db.find = readFrom u.dblCache.getLowerMap u.db.find := by
  funext o
  simp only [flush, SortedMap.find_foldl_erase, readFrom, readCache]
  cases hl : u.dblCache.getLowerMap.find o with
  | none =>
    have hw : o ∉ (u.dblCache.getLowerMap.entries.filter fun e => !e.2.isNull).map Prod.fst := by
      simp [SortedMap.mem_filter_keys_iff, hl]
    have he : o ∉ (u.dblCache.getLowerMap.entries.filter fun e => e.2.isNull).map Prod.fst := by
      simp [SortedMap.mem_filter_keys_iff, hl]
    rw [if_neg he, SortedMap.find_foldl_insert_of_not_mem hw]
    rfl
  | some v =>
    have hmem : (o, v) ∈ u.dblCache.getLowerMap.entries := (SortedMap.mem_entries_iff _ _ _).mpr hl
    by_cases hv : v.isNull
    · -- a removed outpoint is erased
      have he : o ∈ (u.dblCache.getLowerMap.entries.filter fun e => e.2.isNull).map Prod.fst :=
        (SortedMap.mem_filter_keys_iff _ _ _).mpr ⟨v, hl, hv⟩
      rw [if_pos he]
      simp [CTxOutput.toOption, hv]
    · -- a live output is written, and not erased
      have he : o ∉ (u.dblCache.getLowerMap.entries.filter fun e => e.2.isNull).map Prod.fst := by
        simp [SortedMap.mem_filter_keys_iff, hl, hv]
      have hw : (o, v) ∈ u.dblCache.getLowerMap.entries.filter fun e => !e.2.isNull :=
        List.mem_filter.mpr ⟨hmem, by simpa using hv⟩
      rw [if_neg he, SortedMap.find_foldl_insert_of_mem (SortedMap.nodup_filter_keys _ _) hw]
      simp [CTxOutput.toOption, hv]

theorem flush_storeLive (u : CForkUnspentDB) (hlive : u.StoreLive) : u.flush.StoreLive := by
  intro o out h
  rw [find_flush_db u] at h
  simp only [readFrom, readCache] at h
  cases hl : u.dblCache.getLowerMap.find o with
  | none =>
    simp only [hl, Option.map_none, Option.getD_none] at h
    exact hlive o out h
  | some v =>
    simp only [hl, Option.map_some, Option.getD_some] at h
    obtain ⟨hv, rfl⟩ := CTxOutput.toOption_eq_some.mp h
    exact hv

theorem readUnspent_flush (u : CForkUnspentDB) : u.flush.readUnspent = u.readUnspent := by
  funext o
  simp only [readUnspent, flush_dblCache, CDblMap.getUpperMap_flip, readFrom_empty, CDblMap.getLowerMap_flip,
    find_flush_db]

theorem db_foldl_writeUnspent (l : List (CTxOutPoint × CTxOutput)) (d : CForkUnspentDB) :
    (l.foldl (fun d e => d.writeUnspent e.1 e.2) d).db = l.foldl (fun m e => m.insert e.1 e.2) d.db := by
  induction l generalizing d with
  | nil => rfl
  | cons e l ih => exact ih _

theorem find_copy_db (src dest : CForkUnspentDB) : (src.copy dest).db.find = src.db.find := by
  funext o
  simp only [copy, db_foldl_writeUnspent]
  cases h : src.db.find o with
  | none =>
    have hk : o ∉ src.db.entries.map Prod.fst := (SortedMap.mem_keys_iff src.db o).not.mpr (by simp [h])
    rw [SortedMap.find_foldl_insert_of_not_mem hk]
    rfl
  | some v =>
    exact SortedMap.find_foldl_insert_of_mem src.db.nodup_keys ((SortedMap.mem_entries_iff _ _ _).mpr h) _

theorem readUnspent_copy (src dest : CForkUnspentDB) : (src.copy dest).readUnspent = src.readUnspent := by
  have hcache : (src.copy dest).dblCache = src.dblCache := rfl
  funext o
  simp only [readUnspent, hcache, find_copy_db]

theorem copy_storeLive {src : CForkUnspentDB} (hlive : src.StoreLive) (dest : CForkUnspentDB) :
    (src.copy dest).StoreLive := by
  intro o out h
  rw [find_copy_db] at h
  exact hlive o out h

theorem isNull_of_readUnspent {u : CForkUnspentDB} (hlive : u.StoreLive) {o : CTxOutPoint} {out : CTxOutput}
    (h : u.readUnspent o = some out) : out.isNull = false := by
  simp only [readUnspent, readFrom, readCache] at h
  cases hu : u.dblCache.getUpperMap.find o with
  | some w =>
    simp only [hu, Option.map_some, Option.getD_some] at h
    exact (CTxOutput.toOption_eq_some.mp h).2 ▸ (CTxOutput.toOption_eq_some.mp h).1
  | none =>
    cases hl : u.dblCache.getLowerMap.find o with
    | some w =>
      simp only [hu, hl, Option.map_some, Option.map_none, Option.getD_some, Option.getD_none] at h
      exact (CTxOutput.toOption_eq_some.mp h).2 ▸ (CTxOutput.toOption_eq_some.mp h).1
    | none =>
      simp only [hu, hl, Option.map_none, Option.getD_none] at h
      exact hlive o out h

theorem mem_walkThroughUnspent (u : CForkUnspentDB) (o : CTxOutPoint) (out : CTxOutput) :
    (o, out) ∈ u.walkThroughUnspent ↔ u.readUnspent o = some out := by
  simp only [walkThroughUnspent, List.mem_append, List.mem_filter, SortedMap.mem_entries_iff, readUnspent,
    readFrom, readCache]
  cases hu : u.dblCache.getUpperMap.find o <;> cases hl : u.dblCache.getLowerMap.find o <;>
    simp +contextual [CTxOutput.toOption_eq_some, and_comm]

theorem nodup_walkThroughUnspent (u : CForkUnspentDB) : (u.walkThroughUnspent.map Prod.fst).Nodup := by
  simp only [walkThroughUnspent, List.map_append, List.nodup_append, SortedMap.nodup_filter_keys, true_and,
    List.mem_append, SortedMap.mem_filter_keys_iff]
  constructor
  · -- a stored output the walk visits is in neither cache
    rintro a ⟨v, -, hp⟩ b ⟨w, hw, hq⟩ rfl
    simp_all
  · rintro a (⟨v, -, hp⟩ | ⟨v, hv, hp⟩) b ⟨w, hw, -⟩ rfl <;> simp_all

/-! ## Runs of updates and flushes -/

/-- The calls that change a fork's unspent outputs. -/
inductive Call
  | updateUnspent (vAddNew : List (CTxOutPoint × CTxOutput)) (vRemove : List CTxOutPoint)
  | flush

def step (u : CForkUnspentDB) : Call → CForkUnspentDB
  | .updateUnspent vAddNew vRemove => u.updateUnspent vAddNew vRemove
  | .flush => u.flush

/-- What a call does to the map of outputs. -/
def logicalStep (outputs : CTxOutPoint → Option CTxOutput) : Call → CTxOutPoint → Option CTxOutput
  | .updateUnspent vAddNew vRemove => applyUpdate outputs vAddNew vRemove
  | .flush => outputs

theorem readUnspent_step (u : CForkUnspentDB) (c : Call) : (u.step c).readUnspent = logicalStep u.readUnspent c := by
  cases c with
  | updateUnspent vAddNew vRemove => exact readUnspent_updateUnspent u vAddNew vRemove
  | flush => exact readUnspent_flush u

theorem step_storeLive {u : CForkUnspentDB} (hlive : u.StoreLive) (c : Call) : (u.step c).StoreLive := by
  cases c with
  | updateUnspent vAddNew vRemove => exact hlive
  | flush => exact flush_storeLive u hlive

theorem readUnspent_run (calls : List Call) (u : CForkUnspentDB) :
    (calls.foldl step u).readUnspent = calls.foldl logicalStep u.readUnspent := by
  induction calls generalizing u with
  | nil => rfl
  | cons c calls ih => rw [List.foldl_cons, List.foldl_cons, ih, readUnspent_step]

theorem run_storeLive (calls : List Call) {u : CForkUnspentDB} (hlive : u.StoreLive) :
    (calls.foldl step u).StoreLive := by
  induction calls generalizing u with
  | nil => exact hlive
  | cons c calls ih => exact ih (step_storeLive hlive c)

@[simp] theorem readUnspent_of_empty_cache (db : MapType) : (⟨db, CDblMap.empty⟩ : CForkUnspentDB).readUnspent = db.find := by
  funext o
  simp [readUnspent, readFrom, readCache, CDblMap.getUpperMap, CDblMap.getLowerMap, CDblMap.empty]

/-- From a store with no null output and empty caches, after any run of
updates and flushes: `ReadUnspent` reads the map of outputs the calls make,
whose outputs are not null; `WalkThroughUnspent` visits exactly its outputs,
each once; and `Flush` and `Copy` keep it. -/
theorem readUnspent_refines_logical_map (db : MapType) (hdb : ∀ o out, db.find o = some out → out.isNull = false)
    (calls : List Call) :
    let u := calls.foldl step ⟨db, CDblMap.empty⟩
    let outputs := calls.foldl logicalStep db.find
    u.readUnspent = outputs ∧ (∀ o out, outputs o = some out → out.isNull = false) ∧
      (∀ o out, (o, out) ∈ u.walkThroughUnspent ↔ outputs o = some out) ∧
      (u.walkThroughUnspent.map Prod.fst).Nodup ∧
      u.flush.readUnspent = outputs ∧ ∀ dest, (u.copy dest).readUnspent = outputs := by
  intro u outputs
  have hread : u.readUnspent = outputs := by
    simp only [u, outputs, readUnspent_run, readUnspent_of_empty_cache]
  have hlive : u.StoreLive := run_storeLive calls hdb
  refine ⟨hread, fun o out h => isNull_of_readUnspent hlive (hread ▸ h), fun o out => ?_,
    nodup_walkThroughUnspent u, (readUnspent_flush u).trans hread, fun dest => (readUnspent_copy u dest).trans hread⟩
  rw [mem_walkThroughUnspent, hread]

theorem readUnspent_refines_logical_map_of_one_output :
    let output : CTxOutput := ⟨CDestination.ofPubKey 3, 5, 0, 0⟩
    let calls := [Call.updateUnspent [(⟨1, 0⟩, output)] [], Call.flush]
    (∀ o out, (SortedMap.empty : MapType).find o = some out → out.isNull = false) ∧
      (calls.foldl step ⟨SortedMap.empty, CDblMap.empty⟩).readUnspent ⟨1, 0⟩ = some output := by
  intro output calls
  have hempty : ∀ o out, (SortedMap.empty : MapType).find o = some out → out.isNull = false := by simp
  refine ⟨hempty, ?_⟩
  rw [(readUnspent_refines_logical_map SortedMap.empty hempty calls).1]
  decide

/-- An output with no amount, added by `UpdateUnspent` to an empty fork, reads as absent. -/
theorem readUnspent_added_null_output :
    let output : CTxOutput := ⟨CDestination.ofPubKey 3, 0, 0, 0⟩
    (CForkUnspentDB.mk SortedMap.empty CDblMap.empty).updateUnspent [(⟨1, 0⟩, output)] [] |>.readUnspent ⟨1, 0⟩ =
      none := by
  decide

end CForkUnspentDB

end Multiverse.Storage
