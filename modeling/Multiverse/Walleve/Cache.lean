import Mathlib.Data.List.Nodup

/-! # The bounded cache

`CWalleveCache<K, V>` of `walleve/cache.h`: entries unique by key, in the
order of the container's sequenced index, the order they were first added.
`AddNew` sets the value of a key where it is, or appends a new entry and then,
when the count is past `nMaxCount` (unless that is 0), drops the oldest entry.

What a cache is for: `Retrieve` finds only the value last added for a key and
not removed since (`retrieve_addNew_eq_some`, `retrieve_remove`), and always
finds the one just added (`retrieve_addNew_self`); it may forget, never make
up. A cache agrees with a store (`Coherent`) when whatever it holds the store
holds, and every operation keeps that when the store changes alike.
-/

namespace Multiverse.Walleve

section Entries

variable {K V : Type*}

/-- `listCache.pop_front()` when the count is past a nonzero `nMaxCount`. -/
def evict (nMaxCount : Nat) (l : List (K × V)) : List (K × V) :=
  if nMaxCount ≠ 0 ∧ l.length > nMaxCount then l.tail else l

theorem nodup_evict (nMaxCount : Nat) {l : List (K × V)} (hl : (l.map Prod.fst).Nodup) :
    ((evict nMaxCount l).map Prod.fst).Nodup := by
  unfold evict
  split_ifs
  · rw [List.map_tail]
    exact hl.sublist (List.tail_sublist _)
  · exact hl

theorem length_evict_le {nMaxCount : Nat} {l : List (K × V)} (hl : l.length ≤ nMaxCount + 1)
    (hn : nMaxCount ≠ 0) : (evict nMaxCount l).length ≤ nMaxCount := by
  unfold evict
  split_ifs with h
  · rw [List.length_tail]
    omega
  · omega

variable [DecidableEq K]

/-- `cntrCache.insert` in `AddNew`: the value of `key` set where the key is,
or a new entry at the end of the sequence. -/
def insertEntry (l : List (K × V)) (key : K) (value : V) : List (K × V) :=
  if key ∈ l.map Prod.fst then l.map fun e => if e.1 = key then (key, value) else e
  else l ++ [(key, value)]

theorem map_fst_insertEntry (l : List (K × V)) (key : K) (value : V) :
    (insertEntry l key value).map Prod.fst =
      if key ∈ l.map Prod.fst then l.map Prod.fst else l.map Prod.fst ++ [key] := by
  unfold insertEntry
  split_ifs
  · rw [List.map_map]
    congr 1
    funext e
    by_cases he : e.1 = key <;> simp [he]
  · simp

theorem nodup_insertEntry {l : List (K × V)} (hl : (l.map Prod.fst).Nodup) (key : K) (value : V) :
    ((insertEntry l key value).map Prod.fst).Nodup := by
  rw [map_fst_insertEntry]
  split_ifs with hk
  · exact hl
  · exact List.concat_eq_append ▸ hl.concat hk

theorem length_insertEntry_le (l : List (K × V)) (key : K) (value : V) :
    (insertEntry l key value).length ≤ l.length + 1 := by
  unfold insertEntry
  split_ifs <;> simp

/-! ## Lookups -/

theorem lookup_map_set (l : List (K × V)) (key k : K) (value : V) :
    (l.map fun e => if e.1 = key then (key, value) else e).lookup k =
      if k = key then (l.lookup k).map fun _ => value else l.lookup k := by
  induction l with
  | nil => simp
  | cons e l ih =>
    obtain ⟨a, b⟩ := e
    by_cases hk : k = a
    · subst hk
      by_cases ha : k = key
      · subst ha
        simp
      · simp [ha]
    · have hka : (k == a) = false := beq_eq_false_iff_ne.mpr hk
      by_cases ha : a = key
      · subst ha
        simp [List.lookup_cons, hka, hk, ih]
      · simp [List.lookup_cons, hka, ha, ih]

theorem lookup_isSome_iff_mem {l : List (K × V)} {k : K} : (l.lookup k).isSome ↔ k ∈ l.map Prod.fst := by
  rw [List.lookup_isSome_iff, List.mem_map]
  constructor
  · rintro ⟨p, hp, hkp⟩
    exact ⟨p, hp, (beq_iff_eq.mp hkp).symm⟩
  · rintro ⟨p, hp, rfl⟩
    exact ⟨p, hp, beq_self_eq_true _⟩

theorem lookup_eq_none_of_not_mem {l : List (K × V)} {k : K} (h : k ∉ l.map Prod.fst) : l.lookup k = none :=
  Option.not_isSome_iff_eq_none.mp fun hs => h (lookup_isSome_iff_mem.mp hs)

theorem lookup_insertEntry_eq_some {l : List (K × V)} {key k : K} {value v : V}
    (h : (insertEntry l key value).lookup k = some v) :
    (k = key ∧ v = value) ∨ (k ≠ key ∧ l.lookup k = some v) := by
  unfold insertEntry at h
  by_cases hk : k = key
  · subst hk
    left
    refine ⟨rfl, ?_⟩
    split_ifs at h with hmem
    · rw [lookup_map_set, if_pos rfl] at h
      obtain ⟨w, -, hw⟩ := Option.map_eq_some_iff.mp h
      exact hw.symm
    · simp [List.lookup_append, lookup_eq_none_of_not_mem hmem] at h
      exact h.symm
  · right
    refine ⟨hk, ?_⟩
    have hkb : (k == key) = false := beq_eq_false_iff_ne.mpr hk
    split_ifs at h
    · rwa [lookup_map_set, if_neg hk] at h
    · rw [List.lookup_append] at h
      cases hl : l.lookup k with
      | none => simp [hl, List.lookup_cons, hkb] at h
      | some w => simpa [hl] using h

theorem lookup_filter_ne (l : List (K × V)) (key k : K) :
    (l.filter fun e => decide (e.1 ≠ key)).lookup k = if k = key then none else l.lookup k := by
  induction l with
  | nil => simp
  | cons e l ih =>
    obtain ⟨a, b⟩ := e
    by_cases hk : k = a
    · subst hk
      by_cases ha : k = key
      · subst ha
        simpa using ih
      · simp [ha]
    · have hka : (k == a) = false := beq_eq_false_iff_ne.mpr hk
      by_cases ha : a = key
      · subst ha
        simpa [List.lookup_cons, hka, hk] using ih
      · simpa [List.lookup_cons, ha, hka] using ih

theorem lookup_of_lookup_tail {l : List (K × V)} (hl : (l.map Prod.fst).Nodup) {k : K} {v : V}
    (h : l.tail.lookup k = some v) : l.lookup k = some v := by
  cases l with
  | nil => exact h
  | cons e l =>
    obtain ⟨a, b⟩ := e
    change l.lookup k = some v at h
    have hka : k ≠ a := by
      rintro rfl
      obtain ⟨p, hp, hkp⟩ := List.lookup_isSome_iff.mp (Option.isSome_iff_exists.mpr ⟨v, h⟩)
      exact (List.nodup_cons.mp hl).1 (List.mem_map.mpr ⟨p, hp, (beq_iff_eq.mp hkp).symm⟩)
    have hkab : (k == a) = false := beq_eq_false_iff_ne.mpr hka
    simpa [List.lookup_cons, hkab] using h

end Entries

/-- `CWalleveCache<K, V>`: its entries unique by key, oldest first, never more
than a nonzero `nMaxCount` of them. -/
structure CWalleveCache (K V : Type*) where
  cntrCache : List (K × V)
  nMaxCount : Nat
  nodup : (cntrCache.map Prod.fst).Nodup
  length_le : nMaxCount ≠ 0 → cntrCache.length ≤ nMaxCount

namespace CWalleveCache

variable {K V : Type*} [DecidableEq K] (c : CWalleveCache K V)

/-- `CWalleveCache(nMaxCountIn)`: an empty cache. -/
def new (nMaxCountIn : Nat) : CWalleveCache K V := ⟨[], nMaxCountIn, List.nodup_nil, fun _ => Nat.zero_le _⟩

/-- `Retrieve(key, value)`: the value of the entry for `key`, if there is one. -/
def retrieve (key : K) : Option V := c.cntrCache.lookup key

/-- `AddNew(key, value)`. -/
def addNew (key : K) (value : V) : CWalleveCache K V where
  cntrCache := evict c.nMaxCount (insertEntry c.cntrCache key value)
  nMaxCount := c.nMaxCount
  nodup := nodup_evict _ (nodup_insertEntry c.nodup key value)
  length_le hn := length_evict_le (Nat.le_trans (length_insertEntry_le _ key value) (Nat.succ_le_succ (c.length_le hn))) hn

/-- `Remove(key)`. -/
def remove (key : K) : CWalleveCache K V where
  cntrCache := c.cntrCache.filter fun e => decide (e.1 ≠ key)
  nMaxCount := c.nMaxCount
  nodup := c.nodup.sublist (List.Sublist.map Prod.fst List.filter_sublist)
  length_le hn := Nat.le_trans (List.length_filter_le _ _) (c.length_le hn)

/-- `Clear()`. -/
def clear : CWalleveCache K V := ⟨[], c.nMaxCount, List.nodup_nil, fun _ => Nat.zero_le _⟩

/-! ## What `Retrieve` finds -/

/-- After `AddNew(key, value)`, a key is found with the value just added, or
with the value it had: eviction only forgets. -/
theorem retrieve_addNew_eq_some {key k : K} {value v : V} (h : (c.addNew key value).retrieve k = some v) :
    (k = key ∧ v = value) ∨ (k ≠ key ∧ c.retrieve k = some v) := by
  have hins : (insertEntry c.cntrCache key value).lookup k = some v := by
    unfold retrieve addNew evict at h
    split_ifs at h
    · exact lookup_of_lookup_tail (nodup_insertEntry c.nodup key value) h
    · exact h
  exact lookup_insertEntry_eq_some hins

/-- The entry just added is never the one evicted. -/
theorem retrieve_addNew_self (key : K) (value : V) : (c.addNew key value).retrieve key = some value := by
  show (evict c.nMaxCount (insertEntry c.cntrCache key value)).lookup key = some value
  unfold evict
  split_ifs with hev
  · -- only a new key makes the count pass `nMaxCount`, and it goes at the end
    have hmem : key ∉ c.cntrCache.map Prod.fst := by
      intro hmem
      have hlen : (insertEntry c.cntrCache key value).length = c.cntrCache.length := by
        simp [insertEntry, hmem]
      have := c.length_le hev.1
      omega
    have hins : insertEntry c.cntrCache key value = c.cntrCache ++ [(key, value)] := if_neg hmem
    have hne : c.cntrCache ≠ [] := by
      intro hnil
      have h2 := hev.2
      rw [hins, hnil, List.nil_append, List.length_singleton] at h2
      exact hev.1 (by omega)
    obtain ⟨e, l, hcl⟩ := List.exists_cons_of_ne_nil hne
    have hnone : l.lookup key = none :=
      lookup_eq_none_of_not_mem fun h => hmem (by rw [hcl, List.map_cons]; exact List.mem_cons_of_mem _ h)
    rw [hins, hcl]
    simp [List.lookup_append, hnone]
  · unfold insertEntry
    split_ifs with hmem
    · rw [lookup_map_set, if_pos rfl]
      obtain ⟨w, hw⟩ := Option.isSome_iff_exists.mp (lookup_isSome_iff_mem.mpr hmem)
      rw [hw]
      rfl
    · simp [List.lookup_append, lookup_eq_none_of_not_mem hmem]

theorem retrieve_remove (key k : K) : (c.remove key).retrieve k = if k = key then none else c.retrieve k :=
  lookup_filter_ne c.cntrCache key k

@[simp] theorem retrieve_clear (k : K) : c.clear.retrieve k = none := rfl

@[simp] theorem retrieve_new (n : Nat) (k : K) : (new n : CWalleveCache K V).retrieve k = none := rfl

/-! ## Caches of a store -/

/-- All the cache holds, the store `f` holds. -/
def Coherent (f : K → Option V) : Prop := ∀ k v, c.retrieve k = some v → f k = some v

variable {c} {f f' : K → Option V}

theorem coherent_new (n : Nat) (f : K → Option V) : (new n : CWalleveCache K V).Coherent f := by
  intro k v h
  cases h

theorem coherent_clear (f : K → Option V) : c.clear.Coherent f := by
  intro k v h
  cases h

theorem Coherent.addNew (h : c.Coherent f) {key : K} {value : V} (hkey : f' key = some value)
    (hother : ∀ k, k ≠ key → f' k = f k) : (c.addNew key value).Coherent f' := by
  intro k v hk
  rcases c.retrieve_addNew_eq_some hk with ⟨rfl, rfl⟩ | ⟨hne, hold⟩
  · exact hkey
  · rw [hother k hne]
    exact h k v hold

theorem Coherent.remove (h : c.Coherent f) {key : K} (hother : ∀ k, k ≠ key → f' k = f k) :
    (c.remove key).Coherent f' := by
  intro k v hk
  rw [retrieve_remove] at hk
  split_ifs at hk with hkey
  rw [hother k hkey]
  exact h k v hk

end CWalleveCache

/-! ## Runs -/

/-- The calls that change a cache. -/
inductive CacheOp (K V : Type*)
  | addNew (key : K) (value : V)
  | remove (key : K)
  | clear

namespace CacheOp

variable {K V : Type*} [DecidableEq K]

/-- One call on the cache. -/
def step : CacheOp K V → CWalleveCache K V → CWalleveCache K V
  | .addNew key value, c => c.addNew key value
  | .remove key, c => c.remove key
  | .clear, c => c.clear

/-- The same call on a map that never forgets: what the cache stands for. -/
def apply : CacheOp K V → (K → Option V) → (K → Option V)
  | .addNew key value, m => Function.update m key (some value)
  | .remove key, m => Function.update m key none
  | .clear, _ => fun _ => none

theorem coherent_step {c : CWalleveCache K V} {m : K → Option V} (h : c.Coherent m) (o : CacheOp K V) :
    (o.step c).Coherent (o.apply m) := by
  cases o with
  | addNew key value =>
    exact h.addNew (Function.update_self key _ m) fun k hk => Function.update_of_ne hk _ m
  | remove key => exact h.remove fun k hk => Function.update_of_ne hk _ m
  | clear => exact CWalleveCache.coherent_clear _

end CacheOp

/-- Along every run of calls on a new cache, `Retrieve` finds a key only with
the value the map of the same calls holds for it: the value last added and
not removed or cleared since. And after `AddNew(key, value)` the cache finds
`value` for `key`, whatever it held and however full it was. -/
theorem run_retrieve_eq_map {K V : Type*} [DecidableEq K] (nMaxCount : Nat) (ops : List (CacheOp K V)) :
    let c : CWalleveCache K V := ops.foldl (fun c o => o.step c) (CWalleveCache.new nMaxCount)
    (∀ k v, c.retrieve k = some v → ops.foldl (fun m o => o.apply m) (fun _ => none) k = some v) ∧
      ∀ key value, (c.addNew key value).retrieve key = some value := by
  intro c
  have hrun : ∀ (ops : List (CacheOp K V)) (c : CWalleveCache K V) (m : K → Option V), c.Coherent m →
      (ops.foldl (fun c o => o.step c) c).Coherent (ops.foldl (fun m o => o.apply m) m) := by
    intro ops
    induction ops with
    | nil => exact fun _ _ h => h
    | cons o ops ih => exact fun c m h => ih _ _ (CacheOp.coherent_step h o)
  exact ⟨hrun ops _ _ (CWalleveCache.coherent_new nMaxCount _), fun key value => c.retrieve_addNew_self key value⟩

end Multiverse.Walleve
