import Multiverse.Common.Serialize
import Multiverse.Lib.SortedMap

/-! # Files of records, with a cache

`CTimeSeriesCached` of `storage/timeseries.h` appends records to numbered
files: the magic number, the record's size, then its bytes, and the record's
position is its file and the offset of its first byte. `Read` answers from
the cache when it holds the position, and otherwise reads the file there and
caches what it read. The files are a sorted map from their numbers to their
bytes, and the cache is the list of positions and bytes in the order
`cacheStream` holds them. A cached entry is read on its own bytes; the
circular stream would go on into the next entries, which only a read of
another type than the one cached at a position can reach.

Files only grow, and every cached entry lies inside a file
(`CacheInFiles`), so nothing is cached inside a record when it is written.
From then on the record reads back at every position inside it where a
transaction starts, whatever is written or read elsewhere
(`read_of_holdsAt`, `holdsAt_run`).
-/

namespace Multiverse.Storage

open LittleEndian

structure CDiskPos where
  nFile : Nat
  nOffset : Nat
  deriving DecidableEq, Repr

def nMagicNum : Nat := 0x5E33A1EF

def MAX_FILE_SIZE : Nat := 0x7F000000

def MAX_CHUNK_SIZE : Nat := 0x200000

def FILE_CACHE_SIZE : Nat := 0x2000000

abbrev CacheEntry := CDiskPos × List UInt8

structure CTimeSeriesCached where
  files : SortedMap Nat (List UInt8)
  nLastFile : Nat
  cache : List CacheEntry

namespace CTimeSeriesCached

/-- After `Initialize`: the files on disk, the last file 1 and the cache empty. -/
def initial (files : SortedMap Nat (List UInt8)) : CTimeSeriesCached := ⟨files, 1, []⟩

/-- `GetLastFilePath`: from `nLastFile` on, the first file that is missing,
and is then created empty, or has room for another chunk. -/
def getLastFilePath : Nat → SortedMap Nat (List UInt8) → Nat → Option (SortedMap Nat (List UInt8) × Nat)
  | 0, _, _ => none
  | fuel + 1, files, nLastFile =>
    let files := if (files.find nLastFile).isSome then files else files.insert nLastFile []
    if ((files.find nLastFile).getD []).length < MAX_FILE_SIZE - MAX_CHUNK_SIZE - 8 then some (files, nLastFile)
    else getLastFilePath fuel files (nLastFile + 1)

/-- The bytes `cacheStream` holds: for each entry its position, size and bytes. -/
def cacheSize (cache : List CacheEntry) : Nat := (cache.map fun e => e.2.length + 12).sum

/-- `VacateCache(nNeeded)`: the oldest entries dropped until `nNeeded` bytes
and a header fit in the free space, which is a byte short of what the cache
does not hold, and `none` when the cache runs empty first. -/
def vacateCache (nNeeded : Nat) : List CacheEntry → Option (List CacheEntry)
  | [] => if nNeeded + 12 ≤ FILE_CACHE_SIZE - 1 then some [] else none
  | e :: cache =>
    if nNeeded + 12 ≤ FILE_CACHE_SIZE - cacheSize (e :: cache) - 1 then some (e :: cache)
    else vacateCache nNeeded cache

/-- `WriteToCache(t, diskpos)` with the bytes of `t`, and `ResetCache` when it fails. -/
def writeToCache (st : CTimeSeriesCached) (pos : CDiskPos) (bytes : List UInt8) : CTimeSeriesCached :=
  if st.cache.any (·.1 == pos) then st
  else
    match vacateCache bytes.length st.cache with
    | some cache => { st with cache := cache ++ [(pos, bytes)] }
    | none => { st with cache := [] }

/-- `Write(t, nFile, nOffset)` with the bytes of `t`: the magic number, the
size and the bytes appended to the last file, and cached at their position. -/
def write (st : CTimeSeriesCached) (bytes : List UInt8) : Option (CTimeSeriesCached × CDiskPos) := do
  let (files, nFile) ← getLastFilePath (st.files.size + 1) st.files st.nLastFile
  let file := (files.find nFile).getD []
  let pos : CDiskPos := ⟨nFile, file.length + 8⟩
  let files := files.insert nFile (file ++ encode 4 nMagicNum ++ encode 4 bytes.length ++ bytes)
  pure ((CTimeSeriesCached.mk files nFile st.cache).writeToCache pos bytes, pos)

section Read

variable {α : Type} (rd : List UInt8 → Option (α × List UInt8)) (ser : α → List UInt8)

/-- The file read at `pos`, and what was read cached. -/
def readFile (st : CTimeSeriesCached) (pos : CDiskPos) : Option α × CTimeSeriesCached :=
  match st.files.find pos.nFile with
  | none => (none, st)
  | some file =>
    match rd (file.drop pos.nOffset) with
    | none => (none, st)
    | some (t, _) => (some t, st.writeToCache pos (ser t))

/-- `Read(t, nFile, nOffset)`: from the cache, which is reset when the entry
does not read, or else from the file. -/
def read (st : CTimeSeriesCached) (pos : CDiskPos) : Option α × CTimeSeriesCached :=
  match st.cache.find? (·.1 == pos) with
  | some e =>
    match rd e.2 with
    | some (t, _) => (some t, st)
    | none => readFile rd ser { st with cache := [] } pos
  | none => readFile rd ser st pos

end Read

/-! ## The cache only ever holds what was written or read -/

theorem vacateCache_suffix {nNeeded : Nat} {cache cache' : List CacheEntry}
    (h : vacateCache nNeeded cache = some cache') : cache' <:+ cache := by
  induction cache with
  | nil =>
    rw [vacateCache] at h
    split_ifs at h
    cases h
    exact List.suffix_refl _
  | cons e cache ih =>
    rw [vacateCache] at h
    split_ifs at h
    · cases h
      exact List.suffix_refl _
    · exact (ih h).trans (List.suffix_cons e cache)

@[simp] theorem writeToCache_files (st : CTimeSeriesCached) (pos : CDiskPos) (bytes : List UInt8) :
    (st.writeToCache pos bytes).files = st.files := by
  unfold writeToCache
  split_ifs
  · rfl
  · split <;> rfl

@[simp] theorem nLastFile_writeToCache (st : CTimeSeriesCached) (pos : CDiskPos) (bytes : List UInt8) :
    (st.writeToCache pos bytes).nLastFile = st.nLastFile := by
  unfold writeToCache
  split_ifs
  · rfl
  · split <;> rfl

theorem mem_writeToCache {st : CTimeSeriesCached} {pos : CDiskPos} {bytes : List UInt8} {e : CacheEntry}
    (h : e ∈ (st.writeToCache pos bytes).cache) : e ∈ st.cache ∨ e = (pos, bytes) := by
  unfold writeToCache at h
  split_ifs at h
  · exact .inl h
  · split at h
    next cache hv =>
      rcases List.mem_append.mp h with h | h
      · exact .inl ((vacateCache_suffix hv).subset h)
      · exact .inr (List.mem_singleton.mp h)
    next => cases h

theorem readFile_files {α : Type} (rd : List UInt8 → Option (α × List UInt8)) (ser : α → List UInt8)
    (st : CTimeSeriesCached) (pos : CDiskPos) : (readFile rd ser st pos).2.files = st.files := by
  unfold readFile
  split
  · rfl
  · split <;> simp

theorem read_files {α : Type} (rd : List UInt8 → Option (α × List UInt8)) (ser : α → List UInt8)
    (st : CTimeSeriesCached) (pos : CDiskPos) : (read rd ser st pos).2.files = st.files := by
  unfold read
  split
  · split
    · rfl
    · rw [readFile_files]
  · rw [readFile_files]

theorem mem_readFile {α : Type} {rd : List UInt8 → Option (α × List UInt8)} {ser : α → List UInt8}
    {st : CTimeSeriesCached} {pos : CDiskPos} {e : CacheEntry} (h : e ∈ (readFile rd ser st pos).2.cache) :
    e ∈ st.cache ∨ (e.1 = pos ∧ ∃ file t rest, st.files.find pos.nFile = some file ∧
      rd (file.drop pos.nOffset) = some (t, rest) ∧ e.2 = ser t) := by
  unfold readFile at h
  split at h
  · exact .inl h
  · split at h
    · exact .inl h
    next file hfile _ t rest hrd =>
      rcases mem_writeToCache h with h | rfl
      · exact .inl h
      · exact .inr ⟨rfl, file, t, rest, hfile, hrd, rfl⟩

theorem mem_read {α : Type} {rd : List UInt8 → Option (α × List UInt8)} {ser : α → List UInt8}
    {st : CTimeSeriesCached} {pos : CDiskPos} {e : CacheEntry} (h : e ∈ (read rd ser st pos).2.cache) :
    e ∈ st.cache ∨ (e.1 = pos ∧ ∃ file t rest, st.files.find pos.nFile = some file ∧
      rd (file.drop pos.nOffset) = some (t, rest) ∧ e.2 = ser t) := by
  unfold read at h
  split at h
  · split at h
    · exact .inl h
    · rcases mem_readFile h with h | h
      · cases h
      · exact .inr h
  · exact mem_readFile h

/-! ## Files only grow -/

theorem getLastFilePath_find {fuel nLastFile nFile : Nat} {files files' : SortedMap Nat (List UInt8)}
    (h : getLastFilePath fuel files nLastFile = some (files', nFile)) {k : Nat} {file : List UInt8}
    (hk : files.find k = some file) : files'.find k = some file := by
  induction fuel generalizing files nLastFile with
  | zero => cases h
  | succ fuel ih =>
    rw [getLastFilePath] at h
    by_cases hs : (files.find nLastFile).isSome
    · simp only [hs, if_true] at h
      split_ifs at h
      · cases h
        exact hk
      · exact ih h hk
    · -- a missing file is created empty, which leaves every existing one as it is
      have hne : k ≠ nLastFile := fun he => by simp [he ▸ hk] at hs
      have hkeep : (files.insert nLastFile []).find k = some file := by
        rw [SortedMap.find_insert, if_neg hne, hk]
      simp only [hs, Bool.false_eq_true, if_false] at h
      split_ifs at h
      · cases h
        exact hkeep
      · exact ih h hkeep

theorem write_eq_some {st st' : CTimeSeriesCached} {bytes : List UInt8} {pos : CDiskPos}
    (h : st.write bytes = some (st', pos)) :
    ∃ file, (∀ f, st.files.find pos.nFile = some f → f = file) ∧
      pos.nOffset = file.length + 8 ∧
      st'.files.find pos.nFile = some (file ++ encode 4 nMagicNum ++ encode 4 bytes.length ++ bytes) ∧
      (∀ k f, k ≠ pos.nFile → st.files.find k = some f → st'.files.find k = some f) ∧
      ∀ e ∈ st'.cache, e ∈ st.cache ∨ e = (pos, bytes) := by
  unfold write at h
  cases hlast : getLastFilePath (st.files.size + 1) st.files st.nLastFile with
  | none =>
    rw [hlast] at h
    cases h
  | some r =>
    obtain ⟨files, nFile⟩ := r
    rw [hlast] at h
    simp only [Option.bind_eq_bind, Option.bind_some, Option.pure_def, Option.some.injEq, Prod.mk.injEq] at h
    obtain ⟨rfl, rfl⟩ := h
    refine ⟨(files.find nFile).getD [], fun f hf => ?_, rfl, by simp, fun k f hk hf => ?_,
      fun e he => ?_⟩
    · rw [getLastFilePath_find hlast hf]
      rfl
    · simp only [writeToCache_files, SortedMap.find_insert, if_neg hk]
      exact getLastFilePath_find hlast hf
    · have hmem := mem_writeToCache he
      exact hmem

/-! ## Where records read back -/

/-- Every cached entry lies inside an existing file. -/
def CacheInFiles (st : CTimeSeriesCached) : Prop :=
  ∀ e ∈ st.cache, ∃ file, st.files.find e.1.nFile = some file ∧ e.1.nOffset < file.length

/-- The bytes `bytes` are at `pos`: the file holds them there, and every
cached entry at `pos` holds them. -/
structure HoldsAt (st : CTimeSeriesCached) (pos : CDiskPos) (bytes : List UInt8) : Prop where
  ne_nil : bytes ≠ []
  file : ∃ file, st.files.find pos.nFile = some file ∧ bytes <+: file.drop pos.nOffset
  cache : ∀ e ∈ st.cache, e.1 = pos → e.2 = bytes

theorem lt_length_of_prefix_drop {bytes file : List UInt8} {n : Nat} (hne : bytes ≠ [])
    (h : bytes <+: file.drop n) : n < file.length := by
  by_contra hle
  rw [List.drop_eq_nil_of_le (by omega), List.prefix_nil] at h
  exact hne h

theorem prefix_drop_append {bytes file : List UInt8} {n : Nat} (h : bytes <+: file.drop n)
    (more : List UInt8) : bytes <+: (file ++ more).drop n := by
  rcases Nat.lt_or_ge file.length n with hn | hn
  · -- past the end of the file only no bytes are a prefix
    rw [List.drop_eq_nil_of_le hn.le, List.prefix_nil] at h
    rw [h]
    exact List.nil_prefix
  · rw [List.drop_append_of_le_length hn]
    exact h.trans (List.prefix_append _ _)

theorem write_cacheInFiles {st st' : CTimeSeriesCached} {bytes : List UInt8} {pos : CDiskPos}
    (h : st.CacheInFiles) (hb : bytes ≠ []) (hw : st.write bytes = some (st', pos)) : st'.CacheInFiles := by
  obtain ⟨file, hold, hoff, hnew, hother, hcache⟩ := write_eq_some hw
  intro e he
  rcases hcache e he with he | rfl
  · obtain ⟨f, hf, hlt⟩ := h e he
    by_cases hk : e.1.nFile = pos.nFile
    · rw [hk] at hf ⊢
      refine ⟨_, hnew, ?_⟩
      rw [← hold f hf]
      simp only [List.length_append]
      omega
    · exact ⟨f, hother _ _ hk hf, hlt⟩
  · have hpos : 0 < bytes.length := List.length_pos_iff.mpr hb
    refine ⟨_, hnew, ?_⟩
    show pos.nOffset < _
    simp only [List.length_append, length_encode]
    omega

theorem read_cacheInFiles {α : Type} {rd : List UInt8 → Option (α × List UInt8)} (ser : α → List UInt8)
    {st : CTimeSeriesCached} (h : st.CacheInFiles) (hrd : rd [] = none) (pos : CDiskPos) :
    (read rd ser st pos).2.CacheInFiles := by
  intro e he
  rw [read_files]
  rcases mem_read he with he | ⟨hpos, file, t, rest, hfile, hread, -⟩
  · exact h e he
  · -- the read found bytes at `pos`, so `pos` is inside the file
    refine ⟨file, hpos ▸ hfile, ?_⟩
    by_contra hle
    have hle' : file.length ≤ pos.nOffset := by
      rw [← hpos]
      omega
    rw [List.drop_eq_nil_of_le hle', hrd] at hread
    cases hread

theorem holdsAt_write {st st' : CTimeSeriesCached} {bytes x : List UInt8} {pos p : CDiskPos}
    (h : st.HoldsAt p x) (hw : st.write bytes = some (st', pos)) : st'.HoldsAt p x := by
  obtain ⟨file, hold, hoff, hnew, hother, hcache⟩ := write_eq_some hw
  obtain ⟨f, hf, hpre⟩ := h.file
  have hlt := lt_length_of_prefix_drop h.ne_nil hpre
  refine ⟨h.ne_nil, ?_, fun e he hep => ?_⟩
  · by_cases hk : p.nFile = pos.nFile
    · rw [hk] at hf ⊢
      rw [hold f hf] at hpre
      exact ⟨_, hnew, by simpa only [List.append_assoc] using prefix_drop_append hpre _⟩
    · exact ⟨f, hother _ _ hk hf, hpre⟩
  · rcases hcache e he with he | rfl
    · exact h.cache e he hep
    · -- the new entry is past the end of the file, so not at `p`
      obtain rfl : p = pos := hep.symm
      rw [hold f hf] at hlt
      omega

/-- Reading at a position that holds the bytes of `t` gives `t`, and keeps
them there. -/
theorem read_of_holdsAt {α : Type} {rd : List UInt8 → Option (α × List UInt8)} {ser : α → List UInt8}
    {st : CTimeSeriesCached} {p : CDiskPos} {t : α} (h : st.HoldsAt p (ser t))
    (hrd : ∀ rest, rd (ser t ++ rest) = some (t, rest)) :
    (read rd ser st p).1 = some t ∧ (read rd ser st p).2.HoldsAt p (ser t) := by
  have hself : rd (ser t) = some (t, []) := by simpa using hrd []
  unfold read
  split
  next e he =>
    have hep : e.1 = p := by simpa using List.find?_some he
    rw [h.cache e (List.mem_of_find?_eq_some he) hep, hself]
    exact ⟨rfl, h⟩
  next =>
    obtain ⟨file, hfile, rest, hrest⟩ := h.file
    unfold readFile
    rw [hfile]
    dsimp only
    rw [← hrest, hrd]
    refine ⟨rfl, h.ne_nil, ⟨file, by simpa using hfile, rest, hrest⟩, fun e he hep => ?_⟩
    rcases mem_writeToCache he with he | rfl
    · exact h.cache e he hep
    · rfl

theorem holdsAt_read_ne {α : Type} (rd : List UInt8 → Option (α × List UInt8)) (ser : α → List UInt8)
    {st : CTimeSeriesCached} {p pos : CDiskPos} {x : List UInt8} (h : st.HoldsAt p x) (hne : pos ≠ p) :
    (read rd ser st pos).2.HoldsAt p x := by
  refine ⟨h.ne_nil, by rw [read_files]; exact h.file, fun e he hep => ?_⟩
  rcases mem_read he with he | ⟨hpos, -⟩
  · exact h.cache e he hep
  · exact absurd (hpos.symm.trans hep) hne

theorem holdsAt_write_inside {st st' : CTimeSeriesCached} {bytes x : List UInt8} {pos : CDiskPos} {k : Nat}
    (h : st.CacheInFiles) (hw : st.write bytes = some (st', pos)) (hk : 0 < k) (hx : x ≠ [])
    (hpre : x <+: bytes.drop k) : st'.HoldsAt ⟨pos.nFile, pos.nOffset + k⟩ x := by
  obtain ⟨file, hold, hoff, hnew, hother, hcache⟩ := write_eq_some hw
  refine ⟨hx, ⟨_, hnew, ?_⟩, fun e he hep => ?_⟩
  · have hdrop : (file ++ encode 4 nMagicNum ++ encode 4 bytes.length ++ bytes).drop (pos.nOffset + k) =
        bytes.drop k := by
      have hhead : (file ++ encode 4 nMagicNum ++ encode 4 bytes.length).length = pos.nOffset := by
        simp [hoff]
      rw [← hhead, List.drop_length_add_append]
    rw [hdrop]
    exact hpre
  · rcases hcache e he with he | rfl
    · -- nothing was cached inside the file's new bytes
      obtain ⟨f, hf, hlt⟩ := h e he
      rw [hep] at hf hlt
      dsimp only at hf hlt
      have hff := hold f hf
      subst hff
      omega
    · have hoffk := congrArg CDiskPos.nOffset hep
      dsimp only at hoffk
      omega

/-! ## The calls on the block file -/

/-- What `CBlockBase` does with `tsBlock`: write stored blocks, and read blocks
and transactions back at positions. -/
inductive Call
  | write (block : CBlockEx)
  | readBlock (pos : CDiskPos)
  | readTx (pos : CDiskPos)

def step (st : CTimeSeriesCached) : Call → CTimeSeriesCached
  | .write block =>
    match st.write block.serialize with
    | some (st', _) => st'
    | none => st
  | .readBlock pos => (read CBlockEx.read CBlockEx.serialize st pos).2
  | .readTx pos => (read CTransaction.read CTransaction.serialize st pos).2

theorem step_cacheInFiles {st : CTimeSeriesCached} (h : st.CacheInFiles) (c : Call) : (st.step c).CacheInFiles := by
  cases c with
  | write block =>
    cases hw : st.write block.serialize with
    | none => simpa only [step, hw] using h
    | some r =>
      simp only [step, hw]
      exact write_cacheInFiles h (CBlockEx.serialize_ne_nil block) hw
  | readBlock pos => exact read_cacheInFiles _ h CBlockEx.read_nil pos
  | readTx pos => exact read_cacheInFiles _ h CTransaction.read_nil pos

theorem run_cacheInFiles (calls : List Call) {st : CTimeSeriesCached} (h : st.CacheInFiles) :
    (calls.foldl step st).CacheInFiles := by
  induction calls generalizing st with
  | nil => exact h
  | cons c calls ih => exact ih (step_cacheInFiles h c)

theorem holdsAt_step {st : CTimeSeriesCached} {p : CDiskPos} {tx : CTransaction} (htx : tx.WellFormed)
    (h : st.HoldsAt p tx.serialize) {c : Call} (hc : c ≠ .readBlock p) : (st.step c).HoldsAt p tx.serialize := by
  cases c with
  | write block =>
    cases hw : st.write block.serialize with
    | none => simpa only [step, hw] using h
    | some r =>
      simp only [step, hw]
      exact holdsAt_write h hw
  | readBlock pos => exact holdsAt_read_ne _ _ h fun he => hc (he ▸ rfl)
  | readTx pos =>
    by_cases hp : pos = p
    · subst hp
      exact (read_of_holdsAt h (CTransaction.read_serialize_append htx)).2
    · exact holdsAt_read_ne _ _ h hp

theorem holdsAt_run {st : CTimeSeriesCached} {p : CDiskPos} {tx : CTransaction} (htx : tx.WellFormed)
    (h : st.HoldsAt p tx.serialize) (calls : List Call) (hcalls : ∀ c ∈ calls, c ≠ .readBlock p) :
    (calls.foldl step st).HoldsAt p tx.serialize := by
  induction calls generalizing st with
  | nil => exact h
  | cons c calls ih =>
    exact ih (holdsAt_step htx h (hcalls c List.mem_cons_self)) fun c' hc' => hcalls c' (List.mem_cons_of_mem c hc')

theorem read_run_of_holdsAt {st : CTimeSeriesCached} {p : CDiskPos} {tx : CTransaction} (htx : tx.WellFormed)
    (h : st.HoldsAt p tx.serialize) (calls : List Call) (hcalls : ∀ c ∈ calls, c ≠ .readBlock p) :
    (read CTransaction.read CTransaction.serialize (calls.foldl step st) p).1 = some tx :=
  (read_of_holdsAt (holdsAt_run htx h calls hcalls) (CTransaction.read_serialize_append htx)).1

theorem initial_cacheInFiles (files : SortedMap Nat (List UInt8)) : (initial files).CacheInFiles := by
  intro e he
  cases he

end CTimeSeriesCached

end Multiverse.Storage
