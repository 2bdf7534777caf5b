import Multiverse.Lib.LittleEndian
import Multiverse.Lib.Except

/-! # Data streams

`CWalleveODataStream` of `walleve/stream/datastream.h` appends what it is
given to a byte vector. A fundamental type goes in as its bytes, and a class
through its `ToDataStream`, which writes its fields in order. A `std::vector`
or a `std::map` goes in as its `size_t` size and then its elements.
`CWalleveIDataStream` reads them back from a position. `Pop` checks that the
bytes are there and throws `std::range_error` where they are not. A map
throws `std::runtime_error("data conflict")` on a key it already holds.

A vector of a fundamental type is read by `data.assign` from the current
position, and nothing checks that its bytes are there: a size that runs past
the end makes the stream read past the end of its vector
(`read_vector_reads_past_end`). Every other type reads only within its
vector, and every type reads back what the output stream wrote
(`read_guarded_and_write`).
-/

namespace CWalleveDataStream

/-- The types the streams take: a fundamental type of `size` bytes,
`uint256` (a class whose `FromDataStream` pops its 32 bytes at once), a
`std::vector` and a `std::map` of such types, and a class whose
`ToDataStream` and `FromDataStream` take one field and then the rest. -/
inductive DataType
  | fundamental (size : Nat)
  | uint256
  | vector (t : DataType)
  | map (k v : DataType)
  | fields (first rest : DataType)
  deriving DecidableEq, Repr

/-- A value of one of these types: the unsigned value of the bytes of a
fundamental type or a `uint256`, the elements of a vector, the pairs of a map
in the order the stream holds them, and the fields of a class. -/
inductive Datum
  | int (n : Nat)
  | list (xs : List Datum)
  | pair (first rest : Datum)
  deriving Repr

mutual

/-- Whether two values are the same, as `std::less` on the keys of a map tells. -/
def Datum.beq : Datum → Datum → Bool
  | .int n, .int m => n == m
  | .list xs, .list ys => Datum.beqList xs ys
  | .pair a b, .pair c d => a.beq c && b.beq d
  | _, _ => false

def Datum.beqList : List Datum → List Datum → Bool
  | [], [] => true
  | x :: xs, y :: ys => x.beq y && Datum.beqList xs ys
  | _, _ => false

end

mutual

theorem Datum.beq_iff : (a b : Datum) → a.beq b = true ↔ a = b
  | .int n, .int m => by simp [Datum.beq]
  | .list xs, .list ys => by simp [Datum.beq, Datum.beqList_iff xs ys]
  | .pair a b, .pair c d => by simp [Datum.beq, Datum.beq_iff a c, Datum.beq_iff b d]
  | .int _, .list _ | .int _, .pair _ _ | .list _, .int _ | .list _, .pair _ _ | .pair _ _, .int _
  | .pair _ _, .list _ => by simp [Datum.beq]

theorem Datum.beqList_iff : (xs ys : List Datum) → Datum.beqList xs ys = true ↔ xs = ys
  | [], [] => by simp [Datum.beqList]
  | x :: xs, y :: ys => by simp [Datum.beqList, Datum.beq_iff x y, Datum.beqList_iff xs ys]
  | [], _ :: _ | _ :: _, [] => by simp [Datum.beqList]

end

instance : DecidableEq Datum := fun a b => decidable_of_iff _ (Datum.beq_iff a b)

/-- `boost::is_fundamental<T>::value`, with `sizeof(T)`. -/
def DataType.fundamentalSize : DataType → Option Nat
  | .fundamental size => some size
  | _ => none

/-- What `CWalleveODataStream << data` appends. A vector of a fundamental
type is copied from its memory at once, which is its elements' bytes in order. -/
def write : DataType → Datum → List UInt8
  | .fundamental size, .int n => LittleEndian.encode size n
  | .uint256, .int n => LittleEndian.encode 32 n
  | .vector t, .list xs => LittleEndian.encode 8 xs.length ++ xs.flatMap (write t)
  | .map k v, .list xs =>
    LittleEndian.encode 8 xs.length ++ xs.flatMap fun
      | .pair key value => write k key ++ write v value
      | _ => []
  | .fields first rest, .pair x y => write first x ++ write rest y
  | _, _ => []

/-- How a read stops short of a value: a `std::exception` the callers catch,
or a read of an index at or past the end of the vector. -/
inductive ReadError
  | exception (what : String)
  | readPastEnd (index : Nat)
  deriving DecidableEq, Repr

/-- `Pop(p, size)`: the `size` bytes from `nPosition` on, and the position
after them; a `std::range_error` where they are not all there. -/
def pop (vch : List UInt8) (nPosition size : Nat) : Except ReadError (List UInt8 × Nat) :=
  if nPosition + size > vch.length then .error (.exception "out of range")
  else .ok ((vch.drop nPosition).take size, nPosition + size)

/-- `count` values of `w` bytes each, one after another. -/
def chunks (w : Nat) : Nat → List UInt8 → List Datum
  | 0, _ => []
  | count + 1, bs => .int (LittleEndian.decode (bs.take w)) :: chunks w count (bs.drop w)

/-- `data.assign((T*)&vch[nPosition], (T*)&vch[nPosition] + size)`: `size`
values of `w` bytes from the position, which the source does not check are
there; the first index it reads past the end. -/
def assign (vch : List UInt8) (w size nPosition : Nat) : Except ReadError (Datum × Nat) :=
  if nPosition + size * w ≤ vch.length then .ok (.list (chunks w size (vch.drop nPosition)), nPosition + size * w)
  else .error (.readPastEnd (max nPosition vch.length))

/-- The loop of `operator>>` for a vector of a class type: `count` elements. -/
def readList (r : Nat → Except ReadError (Datum × Nat)) : Nat → Nat → Except ReadError (List Datum × Nat)
  | 0, nPosition => .ok ([], nPosition)
  | count + 1, nPosition => do
    let (x, nPosition) ← r nPosition
    let (xs, nPosition) ← readList r count nPosition
    pure (x :: xs, nPosition)

/-- The loop of `operator>>` for a map: `count` keys and values, each key
inserted once. -/
def readMap (rk rv : Nat → Except ReadError (Datum × Nat)) :
    Nat → Nat → List (Datum × Datum) → Except ReadError (List (Datum × Datum) × Nat)
  | 0, nPosition, data => .ok (data, nPosition)
  | count + 1, nPosition, data => do
    let (k, nPosition) ← rk nPosition
    let (v, nPosition) ← rv nPosition
    if data.any (·.1 == k) then .error (.exception "data conflict")
    else readMap rk rv count nPosition (data ++ [(k, v)])

/-- `CWalleveIDataStream >> data` from `nPosition`: the value, and the
position after it. -/
def read (vch : List UInt8) : DataType → Nat → Except ReadError (Datum × Nat)
  | .fundamental size, nPosition => (fun r => (.int (LittleEndian.decode r.1), r.2)) <$> pop vch nPosition size
  | .uint256, nPosition => (fun r => (.int (LittleEndian.decode r.1), r.2)) <$> pop vch nPosition 32
  | .vector t, nPosition => do
    let (size, nPosition) ← pop vch nPosition 8
    match t.fundamentalSize with
    | some w => assign vch w (LittleEndian.decode size) nPosition
    | none => (fun r => (.list r.1, r.2)) <$> readList (read vch t) (LittleEndian.decode size) nPosition
  | .map k v, nPosition => do
    let (size, nPosition) ← pop vch nPosition 8
    let (data, nPosition) ← readMap (read vch k) (read vch v) (LittleEndian.decode size) nPosition []
    pure (.list (data.map fun e => .pair e.1 e.2), nPosition)
  | .fields first rest, nPosition => do
    let (x, nPosition) ← read vch first nPosition
    let (y, nPosition) ← read vch rest nPosition
    pure (.pair x y, nPosition)

/-! ## Reading back what the output stream wrote -/

/-- A value the output stream writes for a type and the input stream can read
back: each number fits its bytes, each vector and map fits the count of a
`size_t`, and a map holds each key once. -/
inductive Fits : DataType → Datum → Prop
  | fundamental {size n : Nat} : n < 256 ^ size → Fits (.fundamental size) (.int n)
  | uint256 {n : Nat} : n < 2 ^ 256 → Fits .uint256 (.int n)
  | vector {t : DataType} {xs : List Datum} : xs.length < 2 ^ 64 → (∀ x ∈ xs, Fits t x) →
      Fits (.vector t) (.list xs)
  | map {k v : DataType} {data : List (Datum × Datum)} : data.length < 2 ^ 64 →
      (∀ e ∈ data, Fits k e.1) → (∀ e ∈ data, Fits v e.2) → (data.map Prod.fst).Nodup →
      Fits (.map k v) (.list (data.map fun e => .pair e.1 e.2))
  | fields {first rest : DataType} {x y : Datum} : Fits first x → Fits rest y →
      Fits (.fields first rest) (.pair x y)

theorem pop_append (pre bs post : List UInt8) :
    pop (pre ++ bs ++ post) pre.length bs.length = .ok (bs, pre.length + bs.length) := by
  rw [pop, if_neg (by simp), List.append_assoc, List.drop_left, List.take_left]

theorem chunks_flatMap {w : Nat} {xs : List Datum} (h : ∀ x ∈ xs, Fits (.fundamental w) x) (rest : List UInt8) :
    chunks w xs.length (xs.flatMap (write (.fundamental w)) ++ rest) = xs := by
  induction xs with
  | nil => rfl
  | cons x xs ih =>
    obtain ⟨n, hn, rfl⟩ : ∃ n, n < 256 ^ w ∧ x = .int n := by
      cases h x List.mem_cons_self with
      | fundamental hn => exact ⟨_, hn, rfl⟩
    have hlen : (LittleEndian.encode w n).length = w := LittleEndian.length_encode w n
    rw [List.length_cons, chunks, List.flatMap_cons, List.append_assoc, write,
      List.take_left' hlen, List.drop_left' hlen, LittleEndian.decode_encode, Nat.mod_eq_of_lt hn,
      ih fun x hx => h x (List.mem_cons_of_mem _ hx)]

theorem length_flatMap_fundamental {w : Nat} {xs : List Datum} (h : ∀ x ∈ xs, Fits (.fundamental w) x) :
    (xs.flatMap (write (.fundamental w))).length = xs.length * w := by
  induction xs with
  | nil => simp
  | cons x xs ih =>
    obtain ⟨n, -, rfl⟩ : ∃ n, n < 256 ^ w ∧ x = .int n := by
      cases h x List.mem_cons_self with
      | fundamental hn => exact ⟨_, hn, rfl⟩
    rw [List.flatMap_cons, List.length_append, ih fun x hx => h x (List.mem_cons_of_mem _ hx), write,
      LittleEndian.length_encode, List.length_cons, Nat.succ_mul, Nat.add_comm]

section Loops

variable {xs : List Datum} (post : List UInt8)

theorem readList_flatMap {t : DataType}
    (hx : ∀ x ∈ xs, ∀ pre post, read (pre ++ write t x ++ post) t pre.length = .ok (x, pre.length + (write t x).length))
    (pre : List UInt8) :
    readList (read (pre ++ xs.flatMap (write t) ++ post) t) xs.length pre.length =
      .ok (xs, pre.length + (xs.flatMap (write t)).length) := by
  induction xs generalizing pre with
  | nil => simp [readList]
  | cons x xs ih =>
    have hv : pre ++ (x :: xs).flatMap (write t) ++ post = pre ++ write t x ++ (xs.flatMap (write t) ++ post) := by
      simp
    have hv' : pre ++ (x :: xs).flatMap (write t) ++ post = pre ++ write t x ++ xs.flatMap (write t) ++ post := by
      simp
    have hrest := ih (fun x' hx' => hx x' (List.mem_cons_of_mem _ hx')) (pre ++ write t x)
    rw [← hv', List.length_append] at hrest
    rw [List.length_cons, readList, hv, hx x List.mem_cons_self, Except.ok_bind, ← hv]
    dsimp only
    rw [hrest, Except.ok_bind]
    simp only [Except.pure_eq_ok, List.flatMap_cons, List.length_append, Nat.add_assoc]

/-- The bytes the output stream writes for the pairs of a map. -/
def writePairs (k v : DataType) (data : List (Datum × Datum)) : List UInt8 :=
  data.flatMap fun e => write k e.1 ++ write v e.2

theorem readMap_writePairs {k v : DataType} {data : List (Datum × Datum)}
    (hk : ∀ e ∈ data, ∀ pre post, read (pre ++ write k e.1 ++ post) k pre.length =
      .ok (e.1, pre.length + (write k e.1).length))
    (hv : ∀ e ∈ data, ∀ pre post, read (pre ++ write v e.2 ++ post) v pre.length =
      .ok (e.2, pre.length + (write v e.2).length))
    (hnodup : (data.map Prod.fst).Nodup) (acc : List (Datum × Datum))
    (hacc : ∀ e ∈ data, e.1 ∉ acc.map Prod.fst) (pre : List UInt8) :
    readMap (read (pre ++ writePairs k v data ++ post) k) (read (pre ++ writePairs k v data ++ post) v)
        data.length pre.length acc =
      .ok (acc ++ data, pre.length + (writePairs k v data).length) := by
  induction data generalizing pre acc with
  | nil => simp [readMap, writePairs]
  | cons e data ih =>
    have hstream : pre ++ writePairs k v (e :: data) ++ post =
        pre ++ write k e.1 ++ write v e.2 ++ writePairs k v data ++ post := by
      simp [writePairs]
    have hkey := hk e List.mem_cons_self pre (write v e.2 ++ writePairs k v data ++ post)
    have hvalue := hv e List.mem_cons_self (pre ++ write k e.1) (writePairs k v data ++ post)
    simp only [List.append_assoc, List.length_append] at hkey hvalue
    have hnew : (acc.any fun x => x.1 == e.1) = false := by
      rw [List.any_eq_false]
      intro x hx hxe
      exact hacc e List.mem_cons_self (List.mem_map.mpr ⟨x, hx, beq_iff_eq.mp hxe⟩)
    obtain ⟨hnotin, hnodup'⟩ := List.nodup_cons.mp hnodup
    have hrest := ih (fun e' he' => hk e' (List.mem_cons_of_mem _ he')) (fun e' he' => hv e' (List.mem_cons_of_mem _ he'))
      hnodup' (acc ++ [e]) (fun e' he' => by
        have hne : e'.1 ≠ e.1 := fun h => hnotin (h ▸ List.mem_map_of_mem he')
        simpa [hne] using hacc e' (List.mem_cons_of_mem _ he')) (pre ++ write k e.1 ++ write v e.2)
    simp only [List.append_assoc, List.length_append] at hrest
    rw [List.length_cons, readMap, hstream]
    simp only [List.append_assoc]
    rw [hkey, Except.ok_bind]
    dsimp only
    rw [hvalue, Except.ok_bind]
    dsimp only
    rw [hnew, if_neg Bool.false_ne_true, Nat.add_assoc, Prod.mk.eta, hrest]
    simp [writePairs, Nat.add_assoc]

end Loops

theorem fundamentalSize_eq_some {t : DataType} {w : Nat} (h : t.fundamentalSize = some w) :
    t = .fundamental w := by
  cases t <;> simp_all [DataType.fundamentalSize]

theorem write_map (k v : DataType) (data : List (Datum × Datum)) :
    write (.map k v) (.list (data.map fun e => .pair e.1 e.2)) =
      LittleEndian.encode 8 data.length ++ writePairs k v data := by
  rw [write, List.length_map, List.flatMap_map]
  rfl

theorem pop_count (pre rest : List UInt8) {count : Nat} (h : count < 2 ^ 64) :
    ∃ bs, pop (pre ++ (LittleEndian.encode 8 count ++ rest)) pre.length 8 = .ok (bs, pre.length + 8) ∧
      LittleEndian.decode bs = count := by
  have hpop := pop_append pre (LittleEndian.encode 8 count) rest
  rw [LittleEndian.length_encode, List.append_assoc] at hpop
  exact ⟨_, hpop, by rw [LittleEndian.decode_encode, Nat.mod_eq_of_lt (by omega)]⟩

theorem read_write {t : DataType} {d : Datum} (h : Fits t d) :
    ∀ pre post, read (pre ++ write t d ++ post) t pre.length = .ok (d, pre.length + (write t d).length) := by
  induction h with
  | @fundamental size n hn =>
    intro pre post
    have hpop := pop_append pre (LittleEndian.encode size n) post
    rw [LittleEndian.length_encode] at hpop
    rw [write, read, hpop, Except.map_ok, LittleEndian.decode_encode, Nat.mod_eq_of_lt hn, LittleEndian.length_encode]
  | @uint256 n hn =>
    intro pre post
    have hpop := pop_append pre (LittleEndian.encode 32 n) post
    rw [LittleEndian.length_encode] at hpop
    rw [write, read, hpop, Except.map_ok, LittleEndian.decode_encode,
      Nat.mod_eq_of_lt (lt_of_lt_of_eq hn (by norm_num)), LittleEndian.length_encode]
  | @vector t xs hlen hxs ih =>
    intro pre post
    obtain ⟨bs, hpop, hcount⟩ := pop_count pre (xs.flatMap (write t) ++ post) hlen
    rw [write, read]
    simp only [List.append_assoc]
    rw [hpop, Except.ok_bind]
    dsimp only
    rw [hcount]
    -- a vector of a fundamental type is assigned at once, any other read element by element
    cases hw : t.fundamentalSize with
    | some w =>
      obtain rfl := fundamentalSize_eq_some hw
      have hflat := length_flatMap_fundamental hxs
      have hdrop : (pre ++ (LittleEndian.encode 8 xs.length ++ (xs.flatMap (write (.fundamental w)) ++ post))).drop
          (pre.length + 8) = xs.flatMap (write (.fundamental w)) ++ post := by
        rw [← List.append_assoc]
        exact List.drop_left' (by simp)
      have hfits : pre.length + 8 + xs.length * w ≤
          (pre ++ (LittleEndian.encode 8 xs.length ++ (xs.flatMap (write (.fundamental w)) ++ post))).length := by
        simp only [List.length_append, LittleEndian.length_encode, hflat]
        omega
      dsimp only
      rw [assign, if_pos hfits, hdrop, chunks_flatMap hxs]
      simp [hflat, Nat.add_assoc]
    | none =>
      dsimp only
      have hlist := readList_flatMap post ih (pre ++ LittleEndian.encode 8 xs.length)
      simp only [List.append_assoc, List.length_append, LittleEndian.length_encode] at hlist
      rw [hlist, Except.map_ok]
      simp [Nat.add_assoc]
  | @map k v data hlen hk hv hnodup ihk ihv =>
    intro pre post
    obtain ⟨bs, hpop, hcount⟩ := pop_count pre (writePairs k v data ++ post) hlen
    have hpairs := readMap_writePairs post ihk ihv hnodup [] (fun _ _ h => absurd h List.not_mem_nil)
      (pre ++ LittleEndian.encode 8 data.length)
    simp only [List.append_assoc, List.length_append, LittleEndian.length_encode, List.nil_append] at hpairs
    rw [write_map, read]
    simp only [List.append_assoc]
    rw [hpop, Except.ok_bind]
    dsimp only
    rw [hcount, hpairs, Except.ok_bind]
    simp [Nat.add_assoc]
  | @fields first rest x y _ _ ihx ihy =>
    intro pre post
    have hx := ihx pre (write rest y ++ post)
    have hy := ihy (pre ++ write first x) post
    simp only [List.append_assoc, List.length_append] at hx hy
    rw [write, read]
    simp only [List.append_assoc]
    rw [hx, Except.ok_bind]
    dsimp only
    rw [hy, Except.ok_bind]
    simp [Nat.add_assoc]

/-! ## Reading within the stream -/

/-- No vector of a fundamental type anywhere in the type. -/
def DataType.guarded : DataType → Bool
  | .vector t => t.fundamentalSize.isNone && t.guarded
  | .map k v => k.guarded && v.guarded
  | .fields first rest => first.guarded && rest.guarded
  | _ => true

/-- A read that throws an exception the callers catch, or stops within a
stream of `len` bytes. -/
def Stays {α : Type} (len : Nat) (r : Except ReadError (α × Nat)) : Prop :=
  (∃ what, r = .error (.exception what)) ∨ ∃ a nPosition, r = .ok (a, nPosition) ∧ nPosition ≤ len

section Stays

variable {α β : Type} {len : Nat}

theorem stays_pop (vch : List UInt8) (nPosition size : Nat) : Stays vch.length (pop vch nPosition size) := by
  unfold pop
  split_ifs with h
  · exact .inl ⟨_, rfl⟩
  · exact .inr ⟨_, _, rfl, by omega⟩

theorem Stays.map {r : Except ReadError (α × Nat)} (h : Stays len r) (f : α → β) :
    Stays len ((fun r => (f r.1, r.2)) <$> r) := by
  rcases h with ⟨what, rfl⟩ | ⟨a, nPosition, rfl, hle⟩
  · exact .inl ⟨what, rfl⟩
  · exact .inr ⟨f a, nPosition, rfl, hle⟩

theorem Stays.bind {r : Except ReadError (α × Nat)} (h : Stays len r) {f : α × Nat → Except ReadError (β × Nat)}
    (hf : ∀ a nPosition, nPosition ≤ len → Stays len (f (a, nPosition))) : Stays len (r >>= f) := by
  rcases h with ⟨what, rfl⟩ | ⟨a, nPosition, rfl, hle⟩
  · exact .inl ⟨what, rfl⟩
  · exact hf a nPosition hle

theorem stays_readList {r : Nat → Except ReadError (Datum × Nat)} (hr : ∀ nPosition, Stays len (r nPosition)) :
    ∀ count nPosition, nPosition ≤ len → Stays len (readList r count nPosition)
  | 0, _, hle => .inr ⟨_, _, rfl, hle⟩
  | count + 1, nPosition, _ =>
    (hr nPosition).bind fun _ _ hle =>
      (stays_readList hr count _ hle).bind fun _ _ hle' => .inr ⟨_, _, rfl, hle'⟩

theorem stays_readMap {rk rv : Nat → Except ReadError (Datum × Nat)} (hk : ∀ nPosition, Stays len (rk nPosition))
    (hv : ∀ nPosition, Stays len (rv nPosition)) :
    ∀ count nPosition data, nPosition ≤ len → Stays len (readMap rk rv count nPosition data)
  | 0, _, _, hle => .inr ⟨_, _, rfl, hle⟩
  | count + 1, nPosition, data, _ => by
    refine (hk nPosition).bind fun key _ _ => (hv _).bind fun _ _ hle => ?_
    dsimp only
    split_ifs
    · exact .inl ⟨_, rfl⟩
    · exact stays_readMap hk hv count _ _ hle

end Stays

theorem read_guarded (vch : List UInt8) {t : DataType} (ht : t.guarded = true) :
    ∀ nPosition, Stays vch.length (read vch t nPosition) := by
  induction t with
  | fundamental size =>
    intro nPosition
    rw [read]
    exact (stays_pop vch nPosition size).map fun bs => Datum.int (LittleEndian.decode bs)
  | uint256 =>
    intro nPosition
    rw [read]
    exact (stays_pop vch nPosition 32).map fun bs => Datum.int (LittleEndian.decode bs)
  | vector t ih =>
    obtain ⟨hfund, ht⟩ : t.fundamentalSize = none ∧ t.guarded = true := by
      simpa [DataType.guarded] using ht
    intro nPosition
    refine (stays_pop vch nPosition 8).bind fun size nPosition hle => ?_
    dsimp only
    rw [hfund]
    exact (stays_readList (ih ht) _ nPosition hle).map _
  | map k v ihk ihv =>
    obtain ⟨hk, hv⟩ : k.guarded = true ∧ v.guarded = true := by simpa [DataType.guarded] using ht
    intro nPosition
    refine (stays_pop vch nPosition 8).bind fun size nPosition hle => ?_
    exact (stays_readMap (ihk hk) (ihv hv) _ nPosition [] hle).bind fun _ _ hle' => .inr ⟨_, _, rfl, hle'⟩
  | fields first rest ihf ihr =>
    obtain ⟨hf, hr⟩ : first.guarded = true ∧ rest.guarded = true := by simpa [DataType.guarded] using ht
    intro nPosition
    exact (ihf hf nPosition).bind fun _ _ _ =>
      (ihr hr _).bind fun _ _ hle => .inr ⟨_, _, rfl, hle⟩

/-- Every type the input stream reads back what the output stream wrote, and a
type with no vector of a fundamental type throws or stops within the stream. -/
theorem read_guarded_and_write (t : DataType) :
    (t.guarded = true → ∀ vch nPosition, (∃ what, read vch t nPosition = .error (.exception what)) ∨
      ∃ d nPosition', read vch t nPosition = .ok (d, nPosition') ∧ nPosition' ≤ vch.length) ∧
    ∀ d, Fits t d → ∀ pre post,
      read (pre ++ write t d ++ post) t pre.length = .ok (d, pre.length + (write t d).length) :=
  ⟨fun ht vch => read_guarded vch ht, fun _ h => read_write h⟩

/-- Eight bytes holding the size 5 of a vector of bytes, and none of its bytes. -/
theorem read_vector_reads_past_end :
    read [5, 0, 0, 0, 0, 0, 0, 0] (.vector (.fundamental 1)) 0 = .error (.readPastEnd 8) := by
  decide

/-! ## The types the repository reads -/

/-- `CDestination`: `prefix`, then `data`. -/
def DataType.CDestination : DataType := .fields (.fundamental 1) .uint256

/-- `CMvDelegateData`: `nIdentFrom`, `mapShare`, `nR` and `nS`. -/
def DataType.CMvDelegateData : DataType :=
  .fields .uint256 (.fields (.map .uint256 (.vector .uint256)) (.fields .uint256 .uint256))

/-- What `CMvDelegateVerify::VerifyProof` reads: `nWeight`, `nAgreement`
and the published `vector<CMvDelegateData>`. -/
def DataType.delegateProof : DataType := .fields (.fundamental 1) (.fields .uint256 (.vector CMvDelegateData))

/-- `CProofOfSecretShare`: `nWeight`, then `nAgreement`. -/
def DataType.CProofOfSecretShare : DataType := .fields (.fundamental 1) .uint256

/-- The data of the weighted template: `nRequired`, then `mapPubKeyWeight`. -/
def DataType.templateWeighted : DataType := .fields (.fundamental 1) (.map .uint256 (.fundamental 1))

/-- The data of the fork template: `destRedeem`, then `hashFork`. -/
def DataType.templateFork : DataType := .fields CDestination .uint256

/-- The data of the proof and the delegate templates: a key, then a destination. -/
def DataType.templateKeyDest : DataType := .fields .uint256 CDestination

/-- The sealed box `CMvDelegateVote::Enroll` reads: `nPubKey`, `vEncryptedCoeff`, `nR` and `nS`. -/
def DataType.sealedBox : DataType := .fields .uint256 (.fields (.vector .uint256) (.fields .uint256 .uint256))

example : [DataType.CDestination, .CMvDelegateData, .delegateProof, .CProofOfSecretShare, .templateWeighted,
    .templateFork, .templateKeyDest, .sealedBox].all DataType.guarded = true := by
  decide

/-- Published delegate data read from a stream too short for it, and a vector
of bytes read back as written. -/
theorem read_guarded_and_write_of_delegate_data :
    ((∃ what, read [1, 2, 3] .delegateProof 0 = .error (.exception what)) ∨
      ∃ d nPosition', read [1, 2, 3] .delegateProof 0 = .ok (d, nPosition') ∧ nPosition' ≤ [1, 2, 3].length) ∧
    read (write (.vector (.fundamental 1)) (.list [.int 7])) (.vector (.fundamental 1)) 0 = .ok (.list [.int 7], 9) :=
  ⟨(read_guarded_and_write .delegateProof).1 (by decide) [1, 2, 3] 0,
    (read_guarded_and_write (.vector (.fundamental 1))).2 (.list [.int 7])
      (.vector (by decide) fun x hx => by
        rw [List.mem_singleton] at hx
        exact hx ▸ .fundamental (by decide)) [] []⟩

end CWalleveDataStream
