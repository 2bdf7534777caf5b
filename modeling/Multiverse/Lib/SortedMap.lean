import Mathlib.Order.Lattice
import Mathlib.Data.List.Basic

/-! # Sorted maps

A `std::map`: its entries in strictly increasing key order, so that a key
occurs at most once and iteration visits the keys in order. `insert` assigns
(`operator[]` followed by an assignment), `insertNew` keeps an entry that is
already there (`std::map::insert`), and `erase` drops the key.
-/

/-- Entries in strictly increasing key order. -/
structure SortedMap (κ : Type) [LinearOrder κ] (ν : Type) where
  entries : List (κ × ν)
  sorted : entries.Pairwise (fun a b => a.1 < b.1)

namespace SortedMap

variable {κ ν : Type} [LinearOrder κ]

def findList (k : κ) : List (κ × ν) → Option ν
  | [] => none
  | e :: es => if e.1 = k then some e.2 else findList k es

def insertList (k : κ) (v : ν) : List (κ × ν) → List (κ × ν)
  | [] => [(k, v)]
  | e :: es =>
    if k < e.1 then (k, v) :: e :: es
    else if k = e.1 then (k, v) :: es
    else e :: insertList k v es

theorem mem_insertList {k : κ} {v : ν} {es : List (κ × ν)} {x : κ × ν}
    (h : x ∈ insertList k v es) : x = (k, v) ∨ x ∈ es := by
  induction es with
  | nil => simpa [insertList] using h
  | cons e es ih =>
    simp only [insertList] at h
    split_ifs at h
    · simpa using h
    · simp only [List.mem_cons] at h
      rcases h with h | h
      · exact .inl h
      · exact .inr (List.mem_cons_of_mem e h)
    · simp only [List.mem_cons] at h
      rcases h with h | h
      · exact .inr (h ▸ List.mem_cons_self)
      · rcases ih h with h | h
        · exact .inl h
        · exact .inr (List.mem_cons_of_mem e h)

theorem sorted_insertList (k : κ) (v : ν) {es : List (κ × ν)}
    (h : es.Pairwise (fun a b => a.1 < b.1)) :
    (insertList k v es).Pairwise (fun a b => a.1 < b.1) := by
  induction es with
  | nil => simp [insertList]
  | cons e es ih =>
    obtain ⟨he, hes⟩ := List.pairwise_cons.mp h
    simp only [insertList]
    split_ifs with hlt heq
    · refine List.pairwise_cons.mpr ⟨?_, h⟩
      intro x hx
      rcases List.mem_cons.mp hx with rfl | hx
      · exact hlt
      · exact lt_trans hlt (he x hx)
    · refine List.pairwise_cons.mpr ⟨?_, hes⟩
      intro x hx
      exact heq ▸ he x hx
    · have hgt : e.1 < k := lt_of_le_of_ne (not_lt.mp hlt) (Ne.symm heq)
      refine List.pairwise_cons.mpr ⟨?_, ih hes⟩
      intro x hx
      rcases mem_insertList hx with rfl | hx
      · exact hgt
      · exact he x hx

def empty : SortedMap κ ν := ⟨[], List.Pairwise.nil⟩

instance : Inhabited (SortedMap κ ν) := ⟨empty⟩

def find (m : SortedMap κ ν) (k : κ) : Option ν := findList k m.entries

def insert (m : SortedMap κ ν) (k : κ) (v : ν) : SortedMap κ ν :=
  ⟨insertList k v m.entries, sorted_insertList k v m.sorted⟩

/-- `std::map::insert`: an entry already there is kept. -/
def insertNew (m : SortedMap κ ν) (k : κ) (v : ν) : SortedMap κ ν :=
  if (m.find k).isSome then m else m.insert k v

def erase (m : SortedMap κ ν) (k : κ) : SortedMap κ ν :=
  ⟨m.entries.filter (fun e => e.1 != k), m.sorted.filter _⟩

/-- The entries whose keys pass `p`; the range forms of `std::map::erase`. -/
def filter (m : SortedMap κ ν) (p : κ → Bool) : SortedMap κ ν :=
  ⟨m.entries.filter (fun e => p e.1), m.sorted.filter _⟩

/-- `erase(upper_bound(a), end())`: the keys above `a` go. -/
def eraseAbove (m : SortedMap κ ν) (a : κ) : SortedMap κ ν := m.filter fun k => decide (k ≤ a)

/-- `erase(upper_bound(a), upper_bound(b))`: the keys above `a` up to `b` go. -/
def eraseRange (m : SortedMap κ ν) (a b : κ) : SortedMap κ ν :=
  m.filter fun k => !(decide (a < k) && decide (k ≤ b))

def size (m : SortedMap κ ν) : Nat := m.entries.length

def isEmpty (m : SortedMap κ ν) : Bool := m.entries.isEmpty

def keys (m : SortedMap κ ν) : List κ := m.entries.map Prod.fst

theorem findList_insertList (k k' : κ) (v : ν) (es : List (κ × ν)) :
    findList k' (insertList k v es) = if k' = k then some v else findList k' es := by
  induction es with
  | nil => simp [insertList, findList, eq_comm]
  | cons e es ih =>
    simp only [insertList]
    split_ifs with hlt heq hk <;> simp_all [findList, eq_comm]

theorem length_insertList {k : κ} {v : ν} {es : List (κ × ν)} (h : findList k es = none) :
    (insertList k v es).length = es.length + 1 := by
  induction es with
  | nil => rfl
  | cons e es ih =>
    simp only [findList] at h
    split_ifs at h with he
    simp only [insertList]
    split_ifs with hlt heq
    · rfl
    · exact absurd heq.symm he
    · simp [ih h]

theorem findList_append (k : κ) (es es' : List (κ × ν)) :
    findList k (es ++ es') = (findList k es).or (findList k es') := by
  induction es with
  | nil => rfl
  | cons e es ih =>
    simp only [List.cons_append, findList]
    split_ifs
    · rfl
    · exact ih

theorem findList_map {ν' : Type} (g : ν → ν') (k : κ) (es : List (κ × ν)) :
    findList k (es.map fun e => (e.1, g e.2)) = (findList k es).map g := by
  induction es with
  | nil => rfl
  | cons e es ih =>
    simp only [List.map_cons, findList]
    split_ifs
    · rfl
    · exact ih

theorem findList_filter (k k' : κ) (es : List (κ × ν)) :
    findList k' (es.filter (fun e => e.1 != k)) = if k' = k then none else findList k' es := by
  induction es with
  | nil => simp [findList]
  | cons e es ih =>
    by_cases he : e.1 = k
    · subst he
      by_cases hk : k' = e.1
      · simp_all
      · simp [findList, ih, hk, Ne.symm hk]
    · simp only [List.filter_cons, bne_iff_ne, ne_eq, he, not_false_eq_true, ↓reduceIte,
        findList, ih]
      split_ifs <;> simp_all

theorem findList_filter_key (p : κ → Bool) (k : κ) (es : List (κ × ν)) :
    findList k (es.filter (fun e => p e.1)) = if p k then findList k es else none := by
  induction es with
  | nil => simp [findList]
  | cons e es ih =>
    by_cases he : e.1 = k
    · subst he
      by_cases hp : p e.1 <;> simp [findList, hp, ih]
    · by_cases hp : p e.1 <;> simp [findList, hp, he, ih]

@[simp] theorem find_empty (k : κ) : (empty : SortedMap κ ν).find k = none := rfl

@[simp] theorem find_insert (m : SortedMap κ ν) (k k' : κ) (v : ν) :
    (m.insert k v).find k' = if k' = k then some v else m.find k' :=
  findList_insertList k k' v m.entries

theorem size_insert {m : SortedMap κ ν} {k : κ} (v : ν) (h : m.find k = none) :
    (m.insert k v).size = m.size + 1 :=
  length_insertList h

@[simp] theorem find_erase (m : SortedMap κ ν) (k k' : κ) :
    (m.erase k).find k' = if k' = k then none else m.find k' :=
  findList_filter k k' m.entries

@[simp] theorem find_filter (m : SortedMap κ ν) (p : κ → Bool) (k : κ) :
    (m.filter p).find k = if p k then m.find k else none :=
  findList_filter_key p k m.entries

@[simp] theorem find_eraseAbove (m : SortedMap κ ν) (a k : κ) :
    (m.eraseAbove a).find k = if k ≤ a then m.find k else none := by
  simp [eraseAbove]

@[simp] theorem find_eraseRange (m : SortedMap κ ν) (a b k : κ) :
    (m.eraseRange a b).find k = if a < k ∧ k ≤ b then none else m.find k := by
  rw [eraseRange, find_filter]
  by_cases h : a < k ∧ k ≤ b
  · simp [h.1, h.2]
  · simp [h]

theorem find_insertNew (m : SortedMap κ ν) (k k' : κ) (v : ν) :
    (m.insertNew k v).find k' = if k' = k then some ((m.find k).getD v) else m.find k' := by
  unfold insertNew
  cases hk : m.find k with
  | none => simp
  | some w =>
    simp only [Option.isSome_some, ↓reduceIte, Option.getD_some]
    split_ifs with h
    · rw [h, hk]
    · rfl

theorem find_foldl_insertNew (l : List (κ × ν)) (m : SortedMap κ ν) (k : κ) :
    (l.foldl (fun m e => m.insertNew e.1 e.2) m).find k = (m.find k).or (findList k l) := by
  induction l generalizing m with
  | nil => exact Option.or_none.symm
  | cons e l ih =>
    rw [List.foldl_cons, ih, find_insertNew]
    by_cases hk : k = e.1
    · subst hk
      cases m.find e.1 <;> simp [findList]
    · simp [findList, hk, Ne.symm hk]

theorem mem_insertNew {m : SortedMap κ ν} {k : κ} {v : ν} {e : κ × ν}
    (h : e ∈ (m.insertNew k v).entries) : e ∈ m.entries ∨ e = (k, v) := by
  unfold insertNew at h
  split_ifs at h
  · exact .inl h
  · exact (mem_insertList h).symm

theorem findList_eq_some_of_mem {es : List (κ × ν)} (hs : es.Pairwise (fun a b => a.1 < b.1))
    {e : κ × ν} (he : e ∈ es) : findList e.1 es = some e.2 := by
  induction es with
  | nil => cases he
  | cons x es ih =>
    obtain ⟨hx, hes⟩ := List.pairwise_cons.mp hs
    rcases List.mem_cons.mp he with rfl | he
    · simp [findList]
    · have hne : x.1 ≠ e.1 := ne_of_lt (hx e he)
      simp [findList, hne, ih hes he]

theorem mem_of_findList_eq_some {es : List (κ × ν)} {k : κ} {v : ν}
    (h : findList k es = some v) : (k, v) ∈ es := by
  induction es with
  | nil => cases h
  | cons x es ih =>
    simp only [findList] at h
    split_ifs at h with hx
    · cases h
      exact hx ▸ List.mem_cons_self
    · exact List.mem_cons_of_mem x (ih h)

theorem mem_entries_iff (m : SortedMap κ ν) (k : κ) (v : ν) :
    (k, v) ∈ m.entries ↔ m.find k = some v :=
  ⟨fun h => findList_eq_some_of_mem m.sorted h, mem_of_findList_eq_some⟩

theorem mem_keys_iff (m : SortedMap κ ν) (k : κ) : k ∈ m.keys ↔ (m.find k).isSome := by
  simp only [keys, List.mem_map, Option.isSome_iff_exists, ← mem_entries_iff]
  constructor
  · rintro ⟨⟨k', v⟩, he, rfl⟩
    exact ⟨v, he⟩
  · rintro ⟨v, he⟩
    exact ⟨(k, v), he, rfl⟩

theorem nodup_keys (m : SortedMap κ ν) : (m.entries.map Prod.fst).Nodup := by
  have h := m.sorted.map Prod.fst (fun a b (hab : a.1 < b.1) => hab)
  exact h.imp ne_of_lt

theorem mem_filter_keys_iff (m : SortedMap κ ν) (p : κ × ν → Bool) (k : κ) :
    k ∈ (m.entries.filter p).map Prod.fst ↔ ∃ v, m.find k = some v ∧ p (k, v) = true := by
  simp only [List.mem_map, List.mem_filter]
  constructor
  · rintro ⟨⟨k', v⟩, ⟨he, hp⟩, rfl⟩
    exact ⟨v, (mem_entries_iff m _ _).mp he, hp⟩
  · rintro ⟨v, hv, hp⟩
    exact ⟨(k, v), ⟨(mem_entries_iff m _ _).mpr hv, hp⟩, rfl⟩

theorem nodup_filter_keys (m : SortedMap κ ν) (p : κ × ν → Bool) :
    ((m.entries.filter p).map Prod.fst).Nodup :=
  (List.filter_sublist.map Prod.fst).nodup m.nodup_keys

theorem find_foldl_insert_of_not_mem {l : List (κ × ν)} {k : κ} (h : k ∉ l.map Prod.fst)
    (m : SortedMap κ ν) : (l.foldl (fun m e => m.insert e.1 e.2) m).find k = m.find k := by
  induction l generalizing m with
  | nil => rfl
  | cons e l ih =>
    simp only [List.map_cons, List.mem_cons, not_or] at h
    rw [List.foldl_cons, ih h.2, find_insert, if_neg h.1]

theorem find_foldl_insert_of_mem {l : List (κ × ν)} (hl : (l.map Prod.fst).Nodup) {k : κ} {v : ν}
    (h : (k, v) ∈ l) (m : SortedMap κ ν) :
    (l.foldl (fun m e => m.insert e.1 e.2) m).find k = some v := by
  induction l generalizing m with
  | nil => cases h
  | cons e l ih =>
    rw [List.map_cons, List.nodup_cons] at hl
    rw [List.foldl_cons]
    rcases List.mem_cons.mp h with rfl | h
    · -- the last write of `k`: later entries have other keys
      rw [find_foldl_insert_of_not_mem hl.1, find_insert, if_pos rfl]
    · exact ih hl.2 h _

theorem find_foldl_erase (l : List κ) (m : SortedMap κ ν) (k : κ) :
    (l.foldl (fun m k => m.erase k) m).find k = if k ∈ l then none else m.find k := by
  induction l generalizing m with
  | nil => simp
  | cons k' l ih =>
    rw [List.foldl_cons, ih, find_erase]
    by_cases h : k ∈ l
    · simp [h]
    · by_cases hk : k = k' <;> simp [h, hk]

theorem size_erase_le (m : SortedMap κ ν) (k : κ) : (m.erase k).size ≤ m.size :=
  List.length_filter_le _ _

theorem size_erase_lt {m : SortedMap κ ν} {k : κ} (h : (m.find k).isSome) :
    (m.erase k).size < m.size := by
  obtain ⟨v, hv⟩ := Option.isSome_iff_exists.mp h
  apply List.length_filter_lt_length_iff_exists.mpr
  exact ⟨(k, v), (mem_entries_iff m k v).mpr hv, by simp⟩

theorem isEmpty_iff (m : SortedMap κ ν) : m.isEmpty = true ↔ ∀ k, m.find k = none := by
  constructor
  · intro h k
    cases hk : m.find k with
    | none => rfl
    | some v =>
      have := (mem_entries_iff m k v).mpr hk
      simp_all [isEmpty]
  · intro h
    cases he : m.entries with
    | nil => simp [isEmpty, he]
    | cons e es =>
      have := (mem_entries_iff m e.1 e.2).mp (he ▸ List.mem_cons_self)
      simp_all

theorem ext_entries {m m' : SortedMap κ ν} (h : m.entries = m'.entries) : m = m' := by
  cases m
  cases m'
  cases h
  rfl

theorem isEmpty_insert (m : SortedMap κ ν) (k : κ) (v : ν) : (m.insert k v).isEmpty = false := by
  rw [Bool.eq_false_iff, Ne, isEmpty_iff]
  intro h
  simpa using h k

theorem isEmpty_eq_false_of_find {m : SortedMap κ ν} {k : κ} {v : ν} (h : m.find k = some v) :
    m.isEmpty = false := by
  rw [Bool.eq_false_iff, Ne, isEmpty_iff]
  intro he
  simp [he k] at h

@[simp] theorem erase_erase (m : SortedMap κ ν) (k : κ) : (m.erase k).erase k = m.erase k :=
  ext_entries (by simp [erase, List.filter_filter])

/-! ## Rebuilding a map from its entries -/

theorem findList_of_forall_lt {k : κ} {es : List (κ × ν)} (h : ∀ e ∈ es, e.1 < k) : findList k es = none := by
  induction es with
  | nil => rfl
  | cons e es ih =>
    have hne : e.1 ≠ k := ne_of_lt (h e List.mem_cons_self)
    simp only [findList, hne, if_false]
    exact ih fun x hx => h x (List.mem_cons_of_mem e hx)

theorem insertList_of_forall_lt {k : κ} {v : ν} {es : List (κ × ν)} (h : ∀ e ∈ es, e.1 < k) :
    insertList k v es = es ++ [(k, v)] := by
  induction es with
  | nil => rfl
  | cons e es ih =>
    have hlt := h e List.mem_cons_self
    simp only [insertList, not_lt_of_gt hlt, ne_of_gt hlt, if_false, List.cons_append]
    rw [ih fun x hx => h x (List.mem_cons_of_mem e hx)]

theorem entries_insertNew_of_forall_lt {m : SortedMap κ ν} {k : κ} (v : ν) (h : ∀ e ∈ m.entries, e.1 < k) :
    (m.insertNew k v).entries = m.entries ++ [(k, v)] := by
  have hfind : m.find k = none := findList_of_forall_lt h
  simp only [insertNew, hfind, Option.isSome_none, Bool.false_eq_true, if_false, insert]
  exact insertList_of_forall_lt h

theorem entries_foldl_insertNew {es : List (κ × ν)} (m : SortedMap κ ν)
    (h : (m.entries ++ es).Pairwise (fun a b => a.1 < b.1)) :
    (es.foldl (fun m e => m.insertNew e.1 e.2) m).entries = m.entries ++ es := by
  induction es generalizing m with
  | nil => simp
  | cons e es ih =>
    have hlt : ∀ x ∈ m.entries, x.1 < e.1 := fun x hx =>
      (List.pairwise_append.mp h).2.2 x hx e List.mem_cons_self
    have hm : (m.insertNew e.1 e.2).entries = m.entries ++ [e] := entries_insertNew_of_forall_lt e.2 hlt
    rw [List.foldl_cons, ih _ (by rwa [hm, List.append_assoc, List.singleton_append]), hm, List.append_assoc,
      List.singleton_append]

theorem foldl_insertNew_entries (m : SortedMap κ ν) :
    m.entries.foldl (fun m e => m.insertNew e.1 e.2) empty = m :=
  ext_entries (entries_foldl_insertNew empty m.sorted)

end SortedMap
