import Multiverse.Storage.TimeSeries
import Multiverse.Walleve.Circular
import Mathlib.Data.Prod.Lex

/-! # The cache of `CTimeSeriesCached` on its circular stream

`CTimeSeriesCached` keeps its cache in `cacheStream`, a circular stream of
`FILE_CACHE_SIZE` bytes, and `mapCachePos`, a map from cached positions to
stream positions. `WriteToCache` writes the position and size as a 12-byte
header, then the record's bytes, and maps the position to where those bytes
begin. `VacateCache` makes room: it reads the header at `begin_`, erases that
position and consumes the record. `ReadFromCache` seeks to the mapped
position and reads there.

While every record with its header is smaller than the stream and every
position fits the 32 bits its header stores it in, the stream and the map
hold exactly the entries of the list model of `Storage.TimeSeries`
(`CacheRepr`). The bytes are the entries, each after its header, and each
position maps to where its entry's bytes begin. Each operation keeps that
and does to the entries what the list model does (`Refines.write`,
`Refines.read`). The list model, whose `VacateCache` drops the oldest
entries, is therefore the cache's specification.
-/

namespace Multiverse.Storage

open LittleEndian Walleve

namespace CDiskPos

/-- `operator<`: by file, then by offset. -/
instance : LinearOrder CDiskPos :=
  LinearOrder.lift' (fun pos => toLex (pos.nFile, pos.nOffset)) fun a b h => by
    cases a
    cases b
    simp_all

/-- Both fields fit the `uint32` the source keeps them in. -/
def Fits (pos : CDiskPos) : Prop := pos.nFile < 2 ^ 32 ∧ pos.nOffset < 2 ^ 32

instance (pos : CDiskPos) : Decidable pos.Fits := inferInstanceAs (Decidable (_ ∧ _))

end CDiskPos

/-- `cacheStream << diskpos << nSize`. -/
def cacheHeader (pos : CDiskPos) (nSize : Nat) : List UInt8 :=
  encode 4 pos.nFile ++ encode 4 pos.nOffset ++ encode 4 nSize

/-- `cacheStream >> diskpos >> nSize` on the bytes read: a short read fills
the fields from the front and leaves the rest as initialised, zero. -/
def readCacheHeader (bytes : List UInt8) : CDiskPos × Nat :=
  let b := bytes ++ List.replicate (12 - bytes.length) 0
  (⟨decode (b.take 4), decode ((b.drop 4).take 4)⟩, decode ((b.drop 8).take 4))

@[simp] theorem length_cacheHeader (pos : CDiskPos) (nSize : Nat) : (cacheHeader pos nSize).length = 12 := by
  simp [cacheHeader]

theorem readCacheHeader_cacheHeader {pos : CDiskPos} {nSize : Nat} (hpos : pos.Fits) (hn : nSize < 2 ^ 32) :
    readCacheHeader (cacheHeader pos nSize) = (pos, nSize) := by
  have h4 (n : Nat) (hn : n < 2 ^ 32) : decode (encode 4 n) = n := by
    rw [decode_encode, Nat.mod_eq_of_lt (by simpa using hn)]
  unfold readCacheHeader
  rw [length_cacheHeader, Nat.sub_self, List.replicate_zero, List.append_nil]
  simp only [cacheHeader, List.append_assoc]
  rw [List.take_left' (length_encode 4 _), List.drop_left' (length_encode 4 _),
    List.take_left' (length_encode 4 _), show 8 = 4 + 4 from rfl, ← List.drop_drop,
    List.drop_left' (length_encode 4 _), List.drop_left' (length_encode 4 _),
    List.take_of_length_le (by simp), h4 _ hpos.1, h4 _ hpos.2, h4 _ hn]

namespace CTimeSeriesCached

/-- The bytes `cacheStream` holds for cached entries: each entry's header and bytes. -/
def cacheBytes (cache : List CacheEntry) : List UInt8 := cache.flatMap fun e => cacheHeader e.1 e.2.length ++ e.2

@[simp] theorem cacheBytes_nil : cacheBytes [] = [] := rfl

@[simp] theorem cacheBytes_cons (e : CacheEntry) (cache : List CacheEntry) :
    cacheBytes (e :: cache) = cacheHeader e.1 e.2.length ++ e.2 ++ cacheBytes cache := by
  simp [cacheBytes]

@[simp] theorem cacheBytes_append (cache cache' : List CacheEntry) :
    cacheBytes (cache ++ cache') = cacheBytes cache ++ cacheBytes cache' := by
  simp [cacheBytes]

@[simp] theorem cacheSize_nil : cacheSize [] = 0 := rfl

@[simp] theorem cacheSize_cons (e : CacheEntry) (cache : List CacheEntry) :
    cacheSize (e :: cache) = e.2.length + 12 + cacheSize cache := by
  simp [cacheSize]

theorem cacheSize_append (cache cache' : List CacheEntry) :
    cacheSize (cache ++ cache') = cacheSize cache + cacheSize cache' := by
  simp [cacheSize]

theorem length_cacheBytes (cache : List CacheEntry) : (cacheBytes cache).length = cacheSize cache := by
  induction cache with
  | nil => rfl
  | cons e cache ih =>
    simp only [cacheBytes_cons, List.length_append, length_cacheHeader, ih, cacheSize_cons]
    omega

theorem length_le_cacheSize (cache : List CacheEntry) : 12 * cache.length ≤ cacheSize cache := by
  induction cache with
  | nil => exact le_rfl
  | cons e cache ih =>
    rw [cacheSize_cons, List.length_cons]
    omega

/-- Each entry's position with where its bytes begin among `cacheBytes`,
counted from `off`. -/
def payloadOffsets : List CacheEntry → Nat → List (CDiskPos × Nat)
  | [], _ => []
  | e :: cache, off => (e.1, off + 12) :: payloadOffsets cache (off + 12 + e.2.length)

theorem payloadOffsets_append (cache : List CacheEntry) (e : CacheEntry) (off : Nat) :
    payloadOffsets (cache ++ [e]) off = payloadOffsets cache off ++ [(e.1, off + cacheSize cache + 12)] := by
  induction cache generalizing off with
  | nil => rfl
  | cons e' cache ih =>
    have hoff : off + 12 + e'.2.length + cacheSize cache = off + (e'.2.length + 12 + cacheSize cache) := by
      omega
    simp only [List.cons_append, payloadOffsets, ih, cacheSize_cons, hoff]

theorem findList_payloadOffsets (pos : CDiskPos) (cache : List CacheEntry) (off : Nat) :
    SortedMap.findList pos (payloadOffsets cache off) =
      (SortedMap.findList pos (payloadOffsets cache 0)).map (off + ·) := by
  induction cache generalizing off with
  | nil => rfl
  | cons e cache ih =>
    simp only [payloadOffsets, SortedMap.findList]
    split_ifs
    · simp
    · rw [ih, ih (0 + 12 + e.2.length), Option.map_map]
      congr 1
      funext x
      simp only [Function.comp]
      omega

theorem findList_payloadOffsets_eq_none {pos : CDiskPos} {cache : List CacheEntry} (off : Nat) :
    SortedMap.findList pos (payloadOffsets cache off) = none ↔ pos ∉ cache.map Prod.fst := by
  induction cache generalizing off with
  | nil => simp [payloadOffsets, SortedMap.findList]
  | cons e cache ih =>
    simp only [payloadOffsets, SortedMap.findList, List.map_cons, List.mem_cons, not_or]
    split_ifs with h
    · simp [h]
    · rw [ih]
      exact ⟨fun h' => ⟨Ne.symm h, h'⟩, fun h' => h'.2⟩

/-! ### File numbers and what the files hold at cached positions -/

/-- Every file, and the last file, is numbered below `B`. -/
def FilesBelow (B : Nat) (st : CTimeSeriesCached) : Prop :=
  st.nLastFile < B ∧ ∀ k, (st.files.find k).isSome → k < B

theorem FilesBelow.mono {B B' : Nat} {st : CTimeSeriesCached} (h : st.FilesBelow B) (hB : B ≤ B') :
    st.FilesBelow B' :=
  ⟨lt_of_lt_of_le h.1 hB, fun k hk => lt_of_lt_of_le (h.2 k hk) hB⟩

theorem getLastFilePath_le {fuel nLastFile nFile B : Nat} {files files' : SortedMap Nat (List UInt8)}
    (h : getLastFilePath fuel files nLastFile = some (files', nFile)) (hn : nLastFile ≤ B)
    (hk : ∀ k, (files.find k).isSome → k < B) :
    nFile ≤ B ∧ (∀ k, (files'.find k).isSome → k ≤ B) ∧
      ((files'.find nFile).getD []).length < MAX_FILE_SIZE - MAX_CHUNK_SIZE - 8 := by
  induction fuel generalizing files nLastFile with
  | zero => cases h
  | succ fuel ih =>
    rw [getLastFilePath] at h
    by_cases hs : (files.find nLastFile).isSome
    · simp only [hs, if_true] at h
      split_ifs at h with hroom
      · cases h
        exact ⟨hn, fun k hk' => (hk k hk').le, hroom⟩
      · exact ih h (hk nLastFile hs) hk
    · -- a missing file is created empty, which has room
      simp only [hs, Bool.false_eq_true, if_false] at h
      split_ifs at h with hroom
      · cases h
        refine ⟨hn, fun k hk' => ?_, hroom⟩
        rw [SortedMap.find_insert] at hk'
        split_ifs at hk' with hkn
        · exact hkn ▸ hn
        · exact (hk k hk').le
      · simp [MAX_FILE_SIZE, MAX_CHUNK_SIZE] at hroom

/-- A `Write` among files below `B` lands at a file numbered `B` at most, at
an offset below `2 ^ 32`, and leaves the files below `B + 1`. -/
theorem FilesBelow.write {B : Nat} {st st' : CTimeSeriesCached} {bytes : List UInt8} {pos : CDiskPos}
    (h : st.FilesBelow B) (hw : st.write bytes = some (st', pos)) :
    pos.nFile ≤ B ∧ pos.nOffset < 2 ^ 32 ∧ st'.FilesBelow (B + 1) := by
  unfold CTimeSeriesCached.write at hw
  cases hlast : getLastFilePath (st.files.size + 1) st.files st.nLastFile with
  | none =>
    rw [hlast] at hw
    cases hw
  | some r =>
    obtain ⟨files, nFile⟩ := r
    rw [hlast] at hw
    simp only [Option.bind_eq_bind, Option.bind_some, Option.pure_def, Option.some.injEq, Prod.mk.injEq] at hw
    obtain ⟨rfl, rfl⟩ := hw
    obtain ⟨hle, hkeys, hroom⟩ := getLastFilePath_le hlast h.1.le h.2
    refine ⟨hle, ?_, ?_, fun k hk => ?_⟩
    · show _ + 8 < 2 ^ 32
      simp only [MAX_FILE_SIZE, MAX_CHUNK_SIZE] at hroom
      omega
    · rw [nLastFile_writeToCache]
      exact Nat.lt_succ_of_le hle
    · rw [writeToCache_files, SortedMap.find_insert] at hk
      split_ifs at hk with hkn
      · omega
      · exact Nat.lt_succ_of_le (hkeys k hk)

theorem nLastFile_read {α : Type} (rd : List UInt8 → Option (α × List UInt8)) (ser : α → List UInt8)
    (st : CTimeSeriesCached) (pos : CDiskPos) : (read rd ser st pos).2.nLastFile = st.nLastFile := by
  unfold read readFile
  repeat' split
  all_goals simp

theorem FilesBelow.read {α : Type} (rd : List UInt8 → Option (α × List UInt8)) (ser : α → List UInt8)
    {B : Nat} {st : CTimeSeriesCached} (h : st.FilesBelow B) (pos : CDiskPos) :
    (read rd ser st pos).2.FilesBelow B := by
  rw [FilesBelow, nLastFile_read, read_files]
  exact h

section Matches

variable {α : Type} {rd : List UInt8 → Option (α × List UInt8)} {ser : α → List UInt8}

/-- Every cached entry is the encoding of an object whose encoding the file
holds at the entry's position. -/
def CacheMatchesFiles (ser : α → List UInt8) (st : CTimeSeriesCached) : Prop :=
  ∀ e ∈ st.cache, ∃ t file, e.2 = ser t ∧ st.files.find e.1.nFile = some file ∧ ser t <+: file.drop e.1.nOffset

theorem CacheMatchesFiles.write {st st' : CTimeSeriesCached} {t : α} {pos : CDiskPos}
    (h : st.CacheMatchesFiles ser) (hw : st.write (ser t) = some (st', pos)) : st'.CacheMatchesFiles ser := by
  obtain ⟨file, hold, hoff, hnew, hothers, hcache⟩ := write_eq_some hw
  intro e he
  rcases hcache e he with he | rfl
  · obtain ⟨t', f, he2, hf, hpre⟩ := h e he
    by_cases hk : e.1.nFile = pos.nFile
    · -- the record went after what the file held
      rw [hk] at hf ⊢
      rw [← hold f hf] at hnew
      refine ⟨t', _, he2, hnew, ?_⟩
      simpa only [List.append_assoc] using prefix_drop_append hpre _
    · exact ⟨t', f, he2, hothers _ _ hk hf, hpre⟩
  · refine ⟨t, _, rfl, hnew, [], ?_⟩
    rw [List.append_nil, hoff, List.drop_left' (by simp)]

theorem CacheMatchesFiles.read (hcodec : ∀ bs t rest, rd bs = some (t, rest) ↔ bs = ser t ++ rest)
    {st : CTimeSeriesCached} (h : st.CacheMatchesFiles ser) (pos : CDiskPos) :
    (read rd ser st pos).2.CacheMatchesFiles ser := by
  intro e he
  rw [read_files]
  rcases mem_read he with he | ⟨hpos, file, t, rest, hfile, hrd, he2⟩
  · exact h e he
  · refine ⟨t, file, he2, hpos ▸ hfile, ?_⟩
    rw [hpos, (hcodec _ _ _).mp hrd]
    exact List.prefix_append _ _

end Matches

end CTimeSeriesCached

/-- `CTimeSeriesCached` with its cache as the source keeps it. -/
structure CTimeSeriesCachedImpl where
  files : SortedMap Nat (List UInt8)
  nLastFile : Nat
  cacheStream : CWalleveCircularStream
  mapCachePos : SortedMap CDiskPos Nat

namespace CTimeSeriesCachedImpl

/-- After `Initialize`: the files on disk, the last file 1, and the cache of
the constructor, `cacheStream(FILE_CACHE_SIZE)`, reset. -/
def initial (files : SortedMap Nat (List UInt8)) : CTimeSeriesCachedImpl :=
  ⟨files, 1, (CWalleveCircularStream.init FILE_CACHE_SIZE).clear, SortedMap.empty⟩

/-- `ResetCache()`. -/
def resetCache (st : CTimeSeriesCachedImpl) : CTimeSeriesCachedImpl :=
  { st with cacheStream := st.cacheStream.clear, mapCachePos := SortedMap.empty }

/-- A round of `VacateCache`: the header at `begin_` read, its position erased
from the map, and the record with its header consumed. -/
def vacateRound (st : CTimeSeriesCachedImpl) : CTimeSeriesCachedImpl :=
  let r := st.cacheStream.rewind.readBytes 12
  let (diskpos, nSize) := readCacheHeader r.1
  { st with cacheStream := r.2.consume (nSize + 12), mapCachePos := st.mapCachePos.erase diskpos }

/-- The loop of `VacateCache(nNeeded)`, `none` when the fuel runs out. -/
def vacateCacheLoop (nNeeded : Nat) : Nat → CTimeSeriesCachedImpl → Option CTimeSeriesCachedImpl
  | 0, _ => none
  | fuel + 1, st =>
    if st.cacheStream.getBufFreeSpace < nNeeded + 12 then vacateCacheLoop nNeeded fuel st.vacateRound
    else some st

/-- `VacateCache(nNeeded)`. Nothing in the loop throws, so it never returns
false. While any byte is held a round consumes one at least, and at an empty
stream a round changes nothing; so one round more than the bytes held ends
the loop when anything does, and `none` is a loop that never ends. -/
def vacateCache (st : CTimeSeriesCachedImpl) (nNeeded : Nat) : Option CTimeSeriesCachedImpl :=
  vacateCacheLoop nNeeded (st.cacheStream.buf.size + 1) st

/-- `WriteToCache(t, diskpos)` with the bytes of `t`: a position already
mapped is left as it is; otherwise the header and the bytes are written after
room is made, and the position is mapped to where the bytes begin. Nothing
it does throws, so it returns true, or never returns: `none`. -/
def writeToCache (st : CTimeSeriesCachedImpl) (diskpos : CDiskPos) (bytes : List UInt8) :
    Option CTimeSeriesCachedImpl :=
  if (st.mapCachePos.find diskpos).isSome then some st
  else do
    let st ← st.vacateCache bytes.length
    let s := st.cacheStream.write (cacheHeader diskpos bytes.length)
    let nPos := s.getWritePos
    pure { st with cacheStream := s.write bytes, mapCachePos := st.mapCachePos.insertNew diskpos nPos }

/-- `Write(t, nFile, nOffset)` with the bytes of `t` and `fWriteCache` set:
the record appended to the last file as in the list model, then cached.
`none` when `GetLastFilePath` fails or `WriteToCache` never returns. -/
def write (st : CTimeSeriesCachedImpl) (bytes : List UInt8) : Option (CTimeSeriesCachedImpl × CDiskPos) := do
  let (files, nFile) ← CTimeSeriesCached.getLastFilePath (st.files.size + 1) st.files st.nLastFile
  let file := (files.find nFile).getD []
  let pos : CDiskPos := ⟨nFile, file.length + 8⟩
  let files := files.insert nFile (file ++ encode 4 nMagicNum ++ encode 4 bytes.length ++ bytes)
  let st ← { st with files, nLastFile := nFile }.writeToCache pos bytes
  pure (st, pos)

section Read

variable {α : Type} (rd : List UInt8 → Option (α × List UInt8)) (ser : α → List UInt8)

/-- `ReadFromCache(t, diskpos)`: `none` for a position not in the map;
otherwise `Seek` to its bytes and `>> t`, which throws nothing, so the read
is reported whatever it gave (`some none` where `t` is left half read). A
failed `Seek` resets the cache. -/
def readFromCache (st : CTimeSeriesCachedImpl) (diskpos : CDiskPos) :
    Option (Option α) × CTimeSeriesCachedImpl :=
  match st.mapCachePos.find diskpos with
  | none => (none, st)
  | some nPos =>
    match st.cacheStream.seek nPos with
    | (true, s) =>
      let r := s.read rd
      (some r.1, { st with cacheStream := r.2 })
    | (false, s) => (none, { st with cacheStream := s }.resetCache)

/-- `Read(t, nFile, nOffset)` with `fWriteCache` set: from the cache, or else
from the file, as in the list model, and then cached. `none` when
`WriteToCache` never returns. -/
def read (st : CTimeSeriesCachedImpl) (pos : CDiskPos) : Option (Option α × CTimeSeriesCachedImpl) :=
  match st.readFromCache rd pos with
  | (some t, st) => some (t, st)
  | (none, st) =>
    match st.files.find pos.nFile with
    | none => some (none, st)
    | some file =>
      match rd (file.drop pos.nOffset) with
      | none => some (none, st)
      | some (t, _) => (st.writeToCache pos (ser t)).map fun st => (some t, st)

end Read

/-! ## The stream holds the list model's entries -/

open CTimeSeriesCached

/-- The stream and the map hold the entries `cache` of the list model: the
stream is good and of `FILE_CACHE_SIZE` bytes and holds each entry after its
header, and the map takes each entry's position to where its bytes begin. -/
structure CacheRepr (cache : List CacheEntry) (st : CTimeSeriesCachedImpl) : Prop where
  good : st.cacheStream.good = true
  bufSize : st.cacheStream.buf.bufSize = FILE_CACHE_SIZE
  content : st.cacheStream.buf.content = cacheBytes cache
  find : ∀ pos, st.mapCachePos.find pos = (SortedMap.findList pos (payloadOffsets cache 0)).map
    fun off => (st.cacheStream.buf.begin + off) % FILE_CACHE_SIZE
  nodup : (cache.map Prod.fst).Nodup
  fits : ∀ e ∈ cache, e.1.Fits

namespace CacheRepr

variable {cache : List CacheEntry} {st : CTimeSeriesCachedImpl}

theorem size_eq (h : CacheRepr cache st) : st.cacheStream.buf.size = cacheSize cache := by
  rw [← length_cacheBytes, ← h.content]
  simp [CircularBuf.content]

theorem cacheSize_lt (h : CacheRepr cache st) : cacheSize cache < FILE_CACHE_SIZE := by
  rw [← h.size_eq, ← h.bufSize]
  exact st.cacheStream.buf.size_lt

theorem getBufFreeSpace_eq (h : CacheRepr cache st) :
    st.cacheStream.getBufFreeSpace = FILE_CACHE_SIZE - cacheSize cache - 1 := by
  rw [CWalleveCircularStream.getBufFreeSpace, CircularBuf.freespace, h.size_eq, h.bufSize]

theorem isSome_find_iff (h : CacheRepr cache st) (pos : CDiskPos) :
    (st.mapCachePos.find pos).isSome ↔ pos ∈ cache.map Prod.fst := by
  rw [h.find, Option.isSome_map, ← not_iff_not, Bool.not_eq_true, Option.isSome_eq_false_iff,
    Option.isNone_iff_eq_none, findList_payloadOffsets_eq_none]

end CacheRepr

@[simp] theorem files_vacateRound (st : CTimeSeriesCachedImpl) : st.vacateRound.files = st.files := rfl

@[simp] theorem nLastFile_vacateRound (st : CTimeSeriesCachedImpl) : st.vacateRound.nLastFile = st.nLastFile := rfl

theorem FILE_CACHE_SIZE_eq : FILE_CACHE_SIZE = 2 ^ 25 := rfl

namespace CacheRepr

variable {e : CacheEntry} {cache : List CacheEntry} {st : CTimeSeriesCachedImpl}

theorem vacateRound_eq (h : CacheRepr (e :: cache) st) :
    ∃ s, st.cacheStream.rewind.readBytes 12 = (cacheHeader e.1 e.2.length, s) ∧ s.good = true ∧
      s.buf.bufSize = FILE_CACHE_SIZE ∧ s.buf.content = cacheBytes (e :: cache) ∧
      s.buf.size = cacheSize (e :: cache) ∧ s.buf.begin = st.cacheStream.buf.begin ∧
      st.vacateRound =
        { st with cacheStream := s.consume (e.2.length + 12), mapCachePos := st.mapCachePos.erase e.1 } := by
  obtain ⟨buf, hrw, hn, hb, hbegin, hp, hg⟩ := st.cacheStream.rewind_eq
  obtain ⟨hs, hc⟩ := st.cacheStream.buf.content_eq_of hn hb hbegin hp
  have hsize := h.size_eq
  have hlt := h.cacheSize_lt
  rw [cacheSize_cons] at hsize hlt
  obtain ⟨hr, hgood, hcontent, hsize', hbegin', hn', -, -⟩ :=
    CWalleveCircularStream.readBytes_of_le (s := ⟨buf, true⟩) (n := 12) (j := 0) rfl
      (by simp only [hs, hsize]; omega)
      (by rw [Nat.add_zero, Nat.mod_eq_of_lt buf.begin_lt, hg, hbegin])
  have hheader : (CWalleveCircularStream.readBytes 12 ⟨buf, true⟩).1 = cacheHeader e.1 e.2.length := by
    rw [hr, List.drop_zero, hc, h.content, cacheBytes_cons, List.append_assoc,
      List.take_left' (length_cacheHeader _ _)]
  have hfits : readCacheHeader (cacheHeader e.1 e.2.length) = (e.1, e.2.length) :=
    readCacheHeader_cacheHeader (h.fits e List.mem_cons_self) (by rw [FILE_CACHE_SIZE_eq] at hlt; omega)
  refine ⟨_, by rw [hrw, ← hheader], hgood, by rw [hn', hn, h.bufSize], by rw [hcontent, hc, h.content],
    by rw [hsize', hs, h.size_eq], by rw [hbegin', hbegin], ?_⟩
  simp only [vacateRound, hrw, hheader, hfits]

theorem vacateRound (h : CacheRepr (e :: cache) st) : CacheRepr cache st.vacateRound := by
  obtain ⟨s, -, hgood, hn, hc, hsize, hbegin, heq⟩ := h.vacateRound_eq
  have hnodup := List.nodup_cons.mp (List.map_cons (f := Prod.fst) ▸ h.nodup)
  have hle : e.2.length + 12 ≤ s.buf.size := by
    rw [hsize, cacheSize_cons]
    omega
  rw [heq]
  refine ⟨hgood, hn, ?_, fun pos => ?_, hnodup.2, fun e' he' => h.fits e' (List.mem_cons_of_mem e he')⟩
  · show (s.buf.consume _).content = _
    rw [CircularBuf.content_consume, hc, cacheBytes_cons, List.drop_left' (by simp; omega)]
  · show (st.mapCachePos.erase e.1).find pos = Option.map (fun off => ((s.buf.consume _).begin + off) % _) _
    rw [SortedMap.find_erase, CircularBuf.begin_consume_of_le _ hle, hbegin, hn]
    split_ifs with hpos
    · subst hpos
      rw [(findList_payloadOffsets_eq_none 0).mpr hnodup.1, Option.map_none]
    · -- the other entries keep their stream positions, now counted from the new `begin_`
      rw [h.find, payloadOffsets, SortedMap.findList, if_neg (Ne.symm hpos), findList_payloadOffsets,
        Option.map_map]
      congr 1
      funext off
      simp only [Function.comp, Nat.mod_add_mod]
      congr 1
      omega

end CacheRepr

theorem vacateCache_fits {nNeeded : Nat} {cache cache' : List CacheEntry}
    (h : CTimeSeriesCached.vacateCache nNeeded cache = some cache') : nNeeded + 12 ≤ FILE_CACHE_SIZE - cacheSize cache' - 1 := by
  induction cache with
  | nil =>
    rw [CTimeSeriesCached.vacateCache] at h
    split_ifs at h with hfit
    cases h
    exact hfit
  | cons e cache ih =>
    rw [CTimeSeriesCached.vacateCache] at h
    split_ifs at h with hfit
    · cases h
      exact hfit
    · exact ih h

theorem CacheRepr.vacateCacheLoop {cache : List CacheEntry} {st : CTimeSeriesCachedImpl} (h : CacheRepr cache st)
    {nNeeded fuel : Nat} (hn : nNeeded + 12 < FILE_CACHE_SIZE) (hfuel : cache.length < fuel) :
    ∃ cache' st', CTimeSeriesCached.vacateCache nNeeded cache = some cache' ∧
      CTimeSeriesCachedImpl.vacateCacheLoop nNeeded fuel st = some st' ∧ CacheRepr cache' st' ∧
      st'.files = st.files ∧
      st'.nLastFile = st.nLastFile := by
  induction cache generalizing st fuel with
  | nil =>
    obtain ⟨f, rfl⟩ : ∃ f, fuel = f + 1 := ⟨fuel - 1, by simp at hfuel; omega⟩
    have hfit : nNeeded + 12 ≤ FILE_CACHE_SIZE - 1 := by omega
    refine ⟨[], st, by rw [CTimeSeriesCached.vacateCache, if_pos hfit], ?_, h, rfl, rfl⟩
    rw [CTimeSeriesCachedImpl.vacateCacheLoop, if_neg (by rw [h.getBufFreeSpace_eq, cacheSize_nil]; omega)]
  | cons e cache ih =>
    obtain ⟨f, rfl⟩ : ∃ f, fuel = f + 1 := ⟨fuel - 1, by simp at hfuel; omega⟩
    have hfree := h.getBufFreeSpace_eq
    by_cases hfit : nNeeded + 12 ≤ FILE_CACHE_SIZE - cacheSize (e :: cache) - 1
    · refine ⟨e :: cache, st, by rw [CTimeSeriesCached.vacateCache, if_pos hfit], ?_, h, rfl, rfl⟩
      rw [CTimeSeriesCachedImpl.vacateCacheLoop, if_neg (by rw [hfree]; omega)]
    · -- both drop the oldest entry and go on
      obtain ⟨cache', st', hv, hloop, hr, hfiles, hlast⟩ :=
        ih h.vacateRound (show cache.length < f by simp at hfuel; omega)
      refine ⟨cache', st', by rw [CTimeSeriesCached.vacateCache, if_neg hfit, hv], ?_, hr, hfiles, hlast⟩
      rw [CTimeSeriesCachedImpl.vacateCacheLoop, if_pos (by rw [hfree]; omega), hloop]

theorem CacheRepr.vacateCache {cache : List CacheEntry} {st : CTimeSeriesCachedImpl} (h : CacheRepr cache st)
    {nNeeded : Nat} (hn : nNeeded + 12 < FILE_CACHE_SIZE) :
    ∃ cache' st', CTimeSeriesCached.vacateCache nNeeded cache = some cache' ∧
      st.vacateCache nNeeded = some st' ∧ CacheRepr cache' st' ∧ st'.files = st.files ∧
      st'.nLastFile = st.nLastFile := by
  have hlen := length_le_cacheSize cache
  exact h.vacateCacheLoop hn (by rw [h.size_eq]; omega)

/-! ## `WriteToCache` appends the entry -/

theorem CacheRepr.append {cache : List CacheEntry} {st : CTimeSeriesCachedImpl} (h : CacheRepr cache st)
    {pos : CDiskPos} {bytes : List UInt8} (hpos : pos.Fits) (hnew : pos ∉ cache.map Prod.fst)
    (hroom : bytes.length + 12 ≤ FILE_CACHE_SIZE - cacheSize cache - 1) :
    let s := st.cacheStream.write (cacheHeader pos bytes.length)
    CacheRepr (cache ++ [(pos, bytes)])
      { st with cacheStream := s.write bytes, mapCachePos := st.mapCachePos.insertNew pos s.getWritePos } := by
  intro s
  have hlt := h.cacheSize_lt
  obtain ⟨hgood1, hc1, hs1, hb1, hn1⟩ := CWalleveCircularStream.write_of_le_freespace (cacheHeader pos bytes.length)
    h.good (by rw [length_cacheHeader, CircularBuf.freespace, h.size_eq, h.bufSize]; omega)
  obtain ⟨hgood2, hc2, -, hb2, hn2⟩ := CWalleveCircularStream.write_of_le_freespace bytes (s := s) hgood1
    (by rw [CircularBuf.freespace, hs1, hn1, h.size_eq, h.bufSize, length_cacheHeader]; omega)
  have hpos' : s.getWritePos = (st.cacheStream.buf.begin + (0 + cacheSize cache + 12)) % FILE_CACHE_SIZE := by
    rw [CWalleveCircularStream.getWritePos, CircularBuf.putpos, s.buf.ppos_eq, hs1, hb1, hn1, h.size_eq,
      h.bufSize, length_cacheHeader, Nat.zero_add]
  refine ⟨hgood2, hn2.trans (hn1.trans h.bufSize), ?_, fun pos' => ?_, ?_, ?_⟩
  · show (s.write bytes).buf.content = _
    rw [hc2, hc1, h.content, cacheBytes_append, cacheBytes_cons, cacheBytes_nil, List.append_nil,
      List.append_assoc]
  · show (st.mapCachePos.insertNew pos s.getWritePos).find pos' =
      Option.map (fun off => ((s.write bytes).buf.begin + off) % FILE_CACHE_SIZE) _
    rw [SortedMap.find_insertNew, payloadOffsets_append, SortedMap.findList_append, hb2, hb1]
    split_ifs with hp
    · subst hp
      have hnone := (findList_payloadOffsets_eq_none 0).mpr hnew
      rw [h.find, hnone, Option.map_none, Option.getD_none, hpos']
      simp [SortedMap.findList]
    · rw [h.find]
      simp [SortedMap.findList, Ne.symm hp]
  · rw [List.map_append, List.map_singleton, List.nodup_append]
    refine ⟨h.nodup, List.nodup_cons.mpr ⟨List.not_mem_nil, List.nodup_nil⟩, fun a ha b hb hab => ?_⟩
    rw [List.mem_singleton] at hb
    rw [hab, hb] at ha
    exact hnew ha
  · intro e he
    rcases List.mem_append.mp he with he | he
    · exact h.fits e he
    · rw [List.mem_singleton] at he
      exact he ▸ hpos

theorem CacheRepr.writeToCache {abs : CTimeSeriesCached} {st : CTimeSeriesCachedImpl} (h : CacheRepr abs.cache st)
    {pos : CDiskPos} {bytes : List UInt8} (hpos : pos.Fits) (hb : bytes.length + 12 < FILE_CACHE_SIZE) :
    ∃ st', st.writeToCache pos bytes = some st' ∧ CacheRepr (abs.writeToCache pos bytes).cache st' ∧
      st'.files = st.files ∧ st'.nLastFile = st.nLastFile := by
  have hany : (abs.cache.any (·.1 == pos) = true) ↔ (st.mapCachePos.find pos).isSome := by
    rw [h.isSome_find_iff, List.any_eq_true, List.mem_map]
    simp
  unfold CTimeSeriesCached.writeToCache CTimeSeriesCachedImpl.writeToCache
  by_cases hin : (st.mapCachePos.find pos).isSome
  · rw [if_pos hin, if_pos (hany.mpr hin)]
    exact ⟨st, rfl, h, rfl, rfl⟩
  · obtain ⟨cache', st1, hv, hv', h1, hf, hl⟩ := h.vacateCache (show bytes.length + 12 < FILE_CACHE_SIZE by omega)
    have hnew : pos ∉ cache'.map Prod.fst := fun hp =>
      hin ((h.isSome_find_iff pos).mpr ((vacateCache_suffix hv).map Prod.fst |>.subset hp))
    rw [if_neg hin, if_neg (fun h' => hin (hany.mp h')), hv, hv', Option.bind_eq_bind, Option.bind_some]
    exact ⟨_, rfl, h1.append hpos hnew (vacateCache_fits hv), hf, hl⟩

/-! ## `ReadFromCache` reads an entry's bytes and what follows them -/

theorem findList_payloadOffsets_of_find? {cache : List CacheEntry} {pos : CDiskPos} {e : CacheEntry}
    (he : cache.find? (·.1 == pos) = some e) :
    ∃ off rest, SortedMap.findList pos (payloadOffsets cache 0) = some off ∧ 12 ≤ off ∧
      (cacheBytes cache).drop (off - 12) = cacheHeader pos e.2.length ++ e.2 ++ rest ∧ off ≤ cacheSize cache := by
  induction cache with
  | nil => cases he
  | cons e' cache ih =>
    by_cases hp : e'.1 = pos
    · have hb : (e'.1 == pos) = true := beq_iff_eq.mpr hp
      simp only [List.find?_cons, hb, Option.some.injEq] at he
      subst he
      refine ⟨12, cacheBytes cache, by simp [payloadOffsets, SortedMap.findList, hp], le_rfl, ?_,
        by rw [cacheSize_cons]; omega⟩
      rw [Nat.sub_self, List.drop_zero, cacheBytes_cons, hp]
    · have hb : (e'.1 == pos) = false := beq_eq_false_iff_ne.mpr hp
      simp only [List.find?_cons, hb] at he
      obtain ⟨off, rest, hfind, h12, hdrop, hle⟩ := ih he
      have hlen : 0 + 12 + e'.2.length + off - 12 = (cacheHeader e'.1 e'.2.length ++ e'.2).length + (off - 12) := by
        simp only [List.length_append, length_cacheHeader]
        omega
      refine ⟨0 + 12 + e'.2.length + off, rest, ?_, by omega, ?_, by rw [cacheSize_cons]; omega⟩
      · rw [payloadOffsets, SortedMap.findList, if_neg hp, findList_payloadOffsets, hfind]
        rfl
      · rw [cacheBytes_cons, hlen, ← List.drop_drop, List.drop_left, hdrop]

theorem drop_payloadOffset {cache : List CacheEntry} {pos : CDiskPos} {e : CacheEntry} {off : Nat}
    {rest : List UInt8} (h12 : 12 ≤ off)
    (hdrop : (cacheBytes cache).drop (off - 12) = cacheHeader pos e.2.length ++ e.2 ++ rest) :
    (cacheBytes cache).drop off = e.2 ++ rest := by
  rw [show off = off - 12 + 12 by omega, ← List.drop_drop, hdrop, List.append_assoc,
    List.drop_left' (length_cacheHeader _ _)]

section Read

variable {α : Type} {rd : List UInt8 → Option (α × List UInt8)}

theorem CacheRepr.readFromCache_of_not_mem {cache : List CacheEntry} {st : CTimeSeriesCachedImpl}
    (h : CacheRepr cache st) {pos : CDiskPos} (hpos : pos ∉ cache.map Prod.fst) :
    st.readFromCache rd pos = (none, st) := by
  have hnone : st.mapCachePos.find pos = none := by
    rw [← Option.not_isSome_iff_eq_none, h.isSome_find_iff]
    exact hpos
  rw [CTimeSeriesCachedImpl.readFromCache, hnone]

theorem CacheRepr.readFromCache_of_find? {cache : List CacheEntry} {st : CTimeSeriesCachedImpl}
    (h : CacheRepr cache st) {pos : CDiskPos} {e : CacheEntry} (he : cache.find? (·.1 == pos) = some e) :
    ∃ rest, (st.readFromCache rd pos).1 = some ((rd (e.2 ++ rest)).map Prod.fst) ∧
      ((rd (e.2 ++ rest)).isSome → CacheRepr cache (st.readFromCache rd pos).2 ∧
        (st.readFromCache rd pos).2.files = st.files ∧ (st.readFromCache rd pos).2.nLastFile = st.nLastFile) := by
  obtain ⟨off, rest, hfind, h12, hhead, hle⟩ := findList_payloadOffsets_of_find? he
  have hdrop := drop_payloadOffset h12 hhead
  have hmap : st.mapCachePos.find pos = some ((st.cacheStream.buf.begin + off) % st.cacheStream.buf.bufSize) := by
    rw [h.find, hfind, Option.map_some, h.bufSize]
  obtain ⟨buf, hseek, hn, hb, hbegin, hp, hg⟩ := st.cacheStream.seek_of_le (k := off) (by rw [h.size_eq]; exact hle)
  obtain ⟨hs, hc⟩ := st.cacheStream.buf.content_eq_of hn hb hbegin hp
  have hg' : buf.gpos = (buf.begin + off) % buf.bufSize := by rw [hg, hbegin, hn]
  have hoff : off ≤ buf.size := by rw [hs, h.size_eq]; exact hle
  have havail : buf.content.drop off = e.2 ++ rest := by rw [hc, h.content, hdrop]
  have hread : (CWalleveCircularStream.read ⟨buf, true⟩ rd).1 = (rd (e.2 ++ rest)).map Prod.fst := by
    rw [CWalleveCircularStream.read_of_le rfl hoff hg', havail]
  have heq : st.readFromCache rd pos =
      (some ((rd (e.2 ++ rest)).map Prod.fst),
        { st with cacheStream := (CWalleveCircularStream.read ⟨buf, true⟩ rd).2 }) := by
    rw [CTimeSeriesCachedImpl.readFromCache, hmap]
    dsimp only
    rw [hseek]
    dsimp only
    rw [hread]
  refine ⟨rest, by rw [heq], fun hsome => ?_⟩
  obtain ⟨hn', hb', hbegin', hp'⟩ := CWalleveCircularStream.buf_read ⟨buf, true⟩ rd
  obtain ⟨-, hc'⟩ := buf.content_eq_of hn' hb' hbegin' hp'
  have hgood : (CWalleveCircularStream.read ⟨buf, true⟩ rd).2.good = true :=
    CWalleveCircularStream.good_read_of_isSome _ rfl (by rw [buf.avail_eq_drop hoff hg', havail]; exact hsome)
  rw [heq]
  refine ⟨⟨hgood, by rw [hn', hn, h.bufSize], by rw [hc', hc, h.content], fun pos' => ?_, h.nodup, h.fits⟩,
    rfl, rfl⟩
  show st.mapCachePos.find pos' = _
  rw [h.find, hbegin', hbegin]

end Read

/-! ## `Write` and `Read` refine the list model -/

/-- The implementation holds the list model's files, last file and cache. -/
structure Refines (st : CTimeSeriesCachedImpl) (abs : CTimeSeriesCached) : Prop where
  files : st.files = abs.files
  nLastFile : st.nLastFile = abs.nLastFile
  cache : CacheRepr abs.cache st

theorem CacheRepr.setFiles {cache : List CacheEntry} {st : CTimeSeriesCachedImpl} (h : CacheRepr cache st)
    (files : SortedMap Nat (List UInt8)) (nLastFile : Nat) : CacheRepr cache { st with files, nLastFile } :=
  ⟨h.good, h.bufSize, h.content, h.find, h.nodup, h.fits⟩

/-- `Write` appends to the files as the list model does, returns the same
position and caches as it does, for files numbered below `2 ^ 32`. -/
theorem Refines.write {st : CTimeSeriesCachedImpl} {abs : CTimeSeriesCached} (h : Refines st abs) {B : Nat}
    (hB : abs.FilesBelow B) (hB32 : B < 2 ^ 32) {bytes : List UInt8} (hb : bytes.length + 12 < FILE_CACHE_SIZE) :
    Option.Rel (fun r r' => Refines r.1 r'.1 ∧ r.2 = r'.2) (st.write bytes) (abs.write bytes) := by
  unfold CTimeSeriesCachedImpl.write CTimeSeriesCached.write
  rw [h.files, h.nLastFile]
  cases hlast : CTimeSeriesCached.getLastFilePath (abs.files.size + 1) abs.files abs.nLastFile with
  | none => exact Option.Rel.none
  | some r =>
    obtain ⟨files, nFile⟩ := r
    obtain ⟨hle, -, hroom⟩ := CTimeSeriesCached.getLastFilePath_le hlast hB.1.le hB.2
    have hpos : CDiskPos.Fits ⟨nFile, ((files.find nFile).getD []).length + 8⟩ := by
      refine ⟨show nFile < 2 ^ 32 by omega, ?_⟩
      show _ + 8 < 2 ^ 32
      simp only [MAX_FILE_SIZE, MAX_CHUNK_SIZE] at hroom
      omega
    let files' := files.insert nFile
      (((files.find nFile).getD []) ++ encode 4 nMagicNum ++ encode 4 bytes.length ++ bytes)
    obtain ⟨st', hst, hrep, hf, hl⟩ := @CacheRepr.writeToCache ⟨files', nFile, abs.cache⟩ _
      (h.cache.setFiles files' nFile) _ _ hpos hb
    simp only [Option.bind_eq_bind, Option.bind_some]
    rw [hst, Option.bind_some]
    refine Option.Rel.some ⟨⟨?_, ?_, hrep⟩, rfl⟩
    · rw [hf, CTimeSeriesCached.writeToCache_files]
    · rw [hl, CTimeSeriesCached.nLastFile_writeToCache]

section Read

variable {α : Type} {rd : List UInt8 → Option (α × List UInt8)} {ser : α → List UInt8}

/-- `Read` answers as the list model does and caches as it does, for an
exact encoding of records no larger than the cache and a position that fits. -/
theorem Refines.read {st : CTimeSeriesCachedImpl} {abs : CTimeSeriesCached} (h : Refines st abs)
    (hcodec : ∀ bs t rest, rd bs = some (t, rest) ↔ bs = ser t ++ rest)
    (hser : ∀ t, (ser t).length + 12 < FILE_CACHE_SIZE) (hcache : ∀ e ∈ abs.cache, ∃ t, e.2 = ser t)
    {pos : CDiskPos} (hpos : pos.Fits) :
    ∃ st', st.read rd ser pos = some ((abs.read rd ser pos).1, st') ∧ Refines st' (abs.read rd ser pos).2 := by
  have hrd (t : α) (rest : List UInt8) : rd (ser t ++ rest) = some (t, rest) := (hcodec _ _ _).mpr rfl
  cases hfind : abs.cache.find? (·.1 == pos) with
  | some e =>
    -- a hit: the entry is the encoding of an object, which both read back
    obtain ⟨t, he2⟩ := hcache e (List.mem_of_find?_eq_some hfind)
    obtain ⟨rest, hr1, hr2⟩ := @CacheRepr.readFromCache_of_find? α rd _ _ h.cache _ _ hfind
    rw [he2, hrd] at hr1 hr2
    obtain ⟨hrep, hf, hl⟩ := hr2 rfl
    have habs : abs.read rd ser pos = (some t, abs) := by
      rw [CTimeSeriesCached.read, hfind]
      dsimp only
      rw [he2, ← List.append_nil (ser t), hrd]
    have himpl : st.read rd ser pos = some (some t, (st.readFromCache rd pos).2) := by
      rw [CTimeSeriesCachedImpl.read, ← Prod.mk.eta (p := st.readFromCache rd pos), hr1]
      rfl
    exact ⟨_, by rw [himpl, habs], by rw [habs]; exact ⟨hf.trans h.files, hl.trans h.nLastFile, hrep⟩⟩
  | none =>
    -- a miss: both read the file and cache what it holds
    have hnot : pos ∉ abs.cache.map Prod.fst := by
      rw [List.mem_map]
      rintro ⟨e, he, rfl⟩
      exact List.find?_eq_none.mp hfind e he (beq_self_eq_true _)
    have hmiss : st.readFromCache rd pos = (none, st) := h.cache.readFromCache_of_not_mem hnot
    rw [CTimeSeriesCachedImpl.read, hmiss, CTimeSeriesCached.read, hfind]
    dsimp only
    rw [CTimeSeriesCached.readFile, h.files]
    cases hfile : abs.files.find pos.nFile with
    | none => exact ⟨st, rfl, h⟩
    | some file =>
      dsimp only
      cases hr : rd (file.drop pos.nOffset) with
      | none => exact ⟨st, rfl, h⟩
      | some r =>
        obtain ⟨t, rest⟩ := r
        obtain ⟨st', hst, hrep, hf, hl⟩ := h.cache.writeToCache hpos (hser t)
        refine ⟨st', by dsimp only; rw [hst]; rfl, ⟨?_, ?_, hrep⟩⟩
        · rw [hf, h.files, CTimeSeriesCached.writeToCache_files]
        · rw [hl, h.nLastFile, CTimeSeriesCached.nLastFile_writeToCache]

end Read

/-! ## Runs of `Write` and `Read` -/

/-- The calls on a `CTimeSeriesCached` of one type of record. -/
inductive Call (α : Type)
  | write (t : α)
  | read (pos : CDiskPos)

section Run

variable {α : Type} (rd : List UInt8 → Option (α × List UInt8)) (ser : α → List UInt8)

/-- A call on the implementation. One that returns nothing, a `Write` whose
`GetLastFilePath` fails or a call whose `WriteToCache` never returns, leaves
the state as it was; `Refines.write` and `Refines.read` show that the second
does not happen. -/
def step (st : CTimeSeriesCachedImpl) : Call α → CTimeSeriesCachedImpl
  | .write t => ((st.write (ser t)).map Prod.fst).getD st
  | .read pos => ((st.read rd ser pos).map Prod.snd).getD st

/-- The same call on the list model. -/
def specStep (st : CTimeSeriesCached) : Call α → CTimeSeriesCached
  | .write t => ((st.write (ser t)).map Prod.fst).getD st
  | .read pos => (st.read rd ser pos).2

def run (calls : List (Call α)) (st : CTimeSeriesCachedImpl) : CTimeSeriesCachedImpl :=
  calls.foldl (step rd ser) st

def specRun (calls : List (Call α)) (st : CTimeSeriesCached) : CTimeSeriesCached :=
  calls.foldl (specStep rd ser) st

/-- What a run keeps: the refinement, the files below `B`, and every cached
entry the encoding of what its file holds at its position. -/
structure RunInv (B : Nat) (st : CTimeSeriesCachedImpl) (abs : CTimeSeriesCached) : Prop where
  refines : Refines st abs
  below : abs.FilesBelow B
  cacheMatches : abs.CacheMatchesFiles ser

variable {rd ser}

theorem RunInv.mono {B B' : Nat} {st : CTimeSeriesCachedImpl} {abs : CTimeSeriesCached} (h : RunInv ser B st abs)
    (hB : B ≤ B') : RunInv ser B' st abs :=
  ⟨h.refines, h.below.mono hB, h.cacheMatches⟩

section Codec

variable (hcodec : ∀ bs t rest, rd bs = some (t, rest) ↔ bs = ser t ++ rest)
  (hser : ∀ t, (ser t).length + 12 < FILE_CACHE_SIZE)
include hcodec hser

theorem RunInv.step {B : Nat} {st : CTimeSeriesCachedImpl} {abs : CTimeSeriesCached} (h : RunInv ser B st abs)
    (hB : B < 2 ^ 32) {c : Call α} (hc : ∀ pos, c = .read pos → pos.Fits) :
    RunInv ser (B + 1) (step rd ser st c) (specStep rd ser abs c) := by
  cases c with
  | write t =>
    have hrel := h.refines.write h.below hB (hser t)
    simp only [CTimeSeriesCachedImpl.step, specStep]
    generalize st.write (ser t) = ri at hrel ⊢
    generalize hra : abs.write (ser t) = ra at hrel ⊢
    cases hrel with
    | none => exact h.mono (Nat.le_succ B)
    | some hr =>
      obtain ⟨hrefines, hpos⟩ := hr
      obtain ⟨-, -, hbelow⟩ := h.below.write hra
      exact ⟨hrefines, hbelow, h.cacheMatches.write hra⟩
  | read pos =>
    have hcache : ∀ e ∈ abs.cache, ∃ t, e.2 = ser t := fun e he => by
      obtain ⟨t, -, he2, -⟩ := h.cacheMatches e he
      exact ⟨t, he2⟩
    obtain ⟨st', hst, hrefines⟩ := h.refines.read hcodec hser hcache (hc pos rfl)
    simp only [CTimeSeriesCachedImpl.step, specStep, hst, Option.map_some, Option.getD_some]
    exact ⟨hrefines, (h.below.read rd ser pos).mono (Nat.le_succ B), h.cacheMatches.read hcodec pos⟩

theorem RunInv.run (calls : List (Call α)) {B : Nat} {st : CTimeSeriesCachedImpl} {abs : CTimeSeriesCached}
    (h : RunInv ser B st abs) (hB : B + calls.length ≤ 2 ^ 32) (hreads : ∀ pos, Call.read pos ∈ calls → pos.Fits) :
    RunInv ser (B + calls.length) (run rd ser calls st) (specRun rd ser calls abs) := by
  induction calls generalizing B st abs with
  | nil => exact h
  | cons c calls ih =>
    have h' := h.step hcodec hser (by simp at hB; omega) fun pos hc => hreads pos (hc ▸ List.mem_cons_self)
    have hrun := ih h' (by simp at hB; omega) fun pos hp => hreads pos (List.mem_cons_of_mem c hp)
    rw [List.length_cons, Nat.add_comm calls.length 1, ← Nat.add_assoc]
    exact hrun

end Codec

end Run

end CTimeSeriesCachedImpl

end Multiverse.Storage
