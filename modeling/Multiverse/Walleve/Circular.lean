import Mathlib.Data.List.Basic
import Mathlib.Data.Nat.Basic

/-! # The circular stream buffer

`circularbuf` of `walleve/stream/circular.cpp` keeps bytes in a buffer of
`buf_size_` bytes: the bytes from `begin_` up to the put position, wrapping at
the end of the buffer, with one byte always left free so that a full buffer
differs from an empty one. Positions are taken modulo the size, which the
code does with `& size_mask_` on a power of two. A byte written at a full
buffer is refused (`overflow` returns eof), a read stops at the put position
(`underflow`), `consume` drops bytes at `begin_`, and `seekpos` moves the get
position to a position from `begin_` up to the put position.

`CWalleveCircularStream` adds the state of its `std::iostream`, which throws
nothing: a read or write that fails leaves the stream failed, later reads and
writes then do nothing, and `Seek`, `Rewind` and `Clear` clear it.

The bytes held are `content`. Writing into the free space appends to it,
`consume` drops its head, and a read at the position `k` bytes past `begin_`
reads `content.drop k` (`write_of_le_freespace`, `content_consume`,
`avail_eq_drop`).
-/

namespace Multiverse.Walleve

theorem mod_eq_ite {a n : Nat} (h : a < 2 * n) : a % n = if a < n then a else a - n := by
  split_ifs with ha
  · exact Nat.mod_eq_of_lt ha
  · rw [Nat.mod_eq_sub_mod (by omega), Nat.mod_eq_of_lt (by omega)]

/-- `circularbuf`: the buffer, `begin_`, and the put and get positions. -/
structure CircularBuf where
  bufSize : Nat
  buffer : Nat → UInt8
  begin : Nat
  ppos : Nat
  gpos : Nat
  size_pos : 0 < bufSize
  begin_lt : begin < bufSize
  ppos_lt : ppos < bufSize
  gpos_lt : gpos < bufSize

namespace CircularBuf

def MIN_SIZE : Nat := 8

/-- The doublings of `buf_size_` in the constructor; `maximum_size` is more
fuel than they need. -/
def bufSizeLoop : Nat → Nat → Nat → Nat
  | 0, _, bufSize => bufSize
  | fuel + 1, maximumSize, bufSize =>
    if bufSize < maximumSize then bufSizeLoop fuel maximumSize (bufSize * 2) else bufSize

theorem le_bufSizeLoop (fuel maximumSize bufSize : Nat) : bufSize ≤ bufSizeLoop fuel maximumSize bufSize := by
  induction fuel generalizing bufSize with
  | zero => exact le_rfl
  | succ fuel ih =>
    rw [bufSizeLoop]
    split_ifs
    · exact le_trans (by omega) (ih _)
    · exact le_rfl

/-- `circularbuf(maximum_size)`: the least power of two from `MIN_SIZE` up
that is not below `maximum_size`, zeroed, and empty. -/
def init (maximumSize : Nat) : CircularBuf :=
  have h : 0 < bufSizeLoop maximumSize maximumSize MIN_SIZE :=
    lt_of_lt_of_le (by decide) (le_bufSizeLoop _ _ _)
  ⟨bufSizeLoop maximumSize maximumSize MIN_SIZE, fun _ => 0, 0, 0, 0, h, h, h, h⟩

variable (c : CircularBuf)

/-- `size()`. -/
def size : Nat := (c.ppos + c.bufSize - c.begin) % c.bufSize

/-- `freespace()`. -/
def freespace : Nat := c.bufSize - c.size - 1

/-- `putpos()`. -/
def putpos : Nat := c.ppos

/-- The test of `seekpos` for a position from `begin_` up to the put
position; `consume` moves the get position when it fails. -/
def inRange (pos : Nat) : Bool :=
  (decide (c.begin ≤ c.ppos) && decide (c.begin ≤ pos) && decide (pos ≤ c.ppos)) ||
    (decide (c.ppos < c.begin) && (decide (c.begin ≤ pos) || decide (pos ≤ c.ppos)))

/-- `consume(n)`: `n` bytes dropped at `begin_`, all when `n` is not below the
size, and the get position moved to `begin_` when it is no longer held. -/
def consume (n : Nat) : CircularBuf :=
  let begin := if c.size ≤ n then c.ppos else (c.begin + n) % c.bufSize
  have hbegin : begin < c.bufSize := by
    simp only [begin]
    split_ifs
    · exact c.ppos_lt
    · exact Nat.mod_lt _ c.size_pos
  let c' : CircularBuf := { c with begin, begin_lt := hbegin }
  { c' with gpos := if c'.inRange c.gpos then c.gpos else begin,
            gpos_lt := by split_ifs <;> first | exact c.gpos_lt | exact hbegin }

/-- Writing a byte: `overflow` refuses it at `(begin_ - 1) & size_mask_`. -/
def putByte (b : UInt8) : Option CircularBuf :=
  if c.ppos = (c.begin + c.bufSize - 1) % c.bufSize then none
  else some { c with buffer := Function.update c.buffer c.ppos b, ppos := (c.ppos + 1) % c.bufSize,
                     ppos_lt := Nat.mod_lt _ c.size_pos }

/-- Reading a byte: `underflow` finds none at the put position. -/
def getByte : Option (UInt8 × CircularBuf) :=
  if c.gpos = c.ppos then none
  else some (c.buffer c.gpos, { c with gpos := (c.gpos + 1) % c.bufSize, gpos_lt := Nat.mod_lt _ c.size_pos })

/-- `seekpos(pos)`: the get position moved to `pos`, when it is held. -/
def seekpos (pos : Nat) : Option CircularBuf :=
  if c.inRange (pos % c.bufSize) then
    some { c with gpos := pos % c.bufSize, gpos_lt := Nat.mod_lt _ c.size_pos }
  else none

/-- The bytes held, from `begin_` on. -/
def content : List UInt8 := (List.range' c.begin c.size).map fun p => c.buffer (p % c.bufSize)

/-- The bytes a read can take, from the get position to the put position. -/
def avail : List UInt8 :=
  (List.range' c.gpos ((c.ppos + c.bufSize - c.gpos) % c.bufSize)).map fun p => c.buffer (p % c.bufSize)

/-! ## Positions -/

theorem size_lt : c.size < c.bufSize := Nat.mod_lt _ c.size_pos

theorem size_eq_of {k : Nat} (hk : k < c.bufSize) (h : c.ppos = (c.begin + k) % c.bufSize) : c.size = k := by
  have hb := c.begin_lt
  rw [size, h, mod_eq_ite (by omega : c.begin + k < 2 * c.bufSize)]
  split_ifs with hlt
  · rw [mod_eq_ite (by omega)]
    split_ifs <;> omega
  · rw [mod_eq_ite (by omega)]
    split_ifs <;> omega

theorem ppos_eq : c.ppos = (c.begin + c.size) % c.bufSize := by
  have hb := c.begin_lt
  have hp := c.ppos_lt
  rw [size, mod_eq_ite (by omega : c.ppos + c.bufSize - c.begin < 2 * c.bufSize)]
  split_ifs with hlt
  · rw [mod_eq_ite (by omega)]
    split_ifs <;> omega
  · rw [mod_eq_ite (by omega)]
    split_ifs <;> omega

theorem mod_ne_of_lt {b i k n : Nat} (hi : i < k) (hk : k < n) : (b + i) % n ≠ (b + k) % n := by
  intro h
  have h0 := Nat.sub_mod_eq_zero_of_mod_eq h.symm
  rw [show b + k - (b + i) = k - i by omega, Nat.mod_eq_of_lt (by omega)] at h0
  omega

theorem map_range'_mod (f : Nat → UInt8) {n : Nat} (s k : Nat) :
    (List.range' (s % n) k).map (fun p => f (p % n)) = (List.range' s k).map fun p => f (p % n) := by
  refine List.ext_getElem (by simp) fun i h1 h2 => ?_
  simp only [List.getElem_map, List.getElem_range', Nat.one_mul, Nat.mod_add_mod]

theorem inRange_iff {g : Nat} (hg : g < c.bufSize) :
    c.inRange g = true ↔ (g + c.bufSize - c.begin) % c.bufSize ≤ c.size := by
  have hb := c.begin_lt
  have hp := c.ppos_lt
  have hs : c.size = (c.ppos + c.bufSize - c.begin) % c.bufSize := rfl
  rw [hs, mod_eq_ite (by omega : g + c.bufSize - c.begin < 2 * c.bufSize),
    mod_eq_ite (by omega : c.ppos + c.bufSize - c.begin < 2 * c.bufSize)]
  simp only [inRange, Bool.or_eq_true, Bool.and_eq_true, decide_eq_true_eq]
  split_ifs <;> omega

theorem inRange_of_le {k : Nat} (hk : k ≤ c.size) : c.inRange ((c.begin + k) % c.bufSize) = true := by
  have hb := c.begin_lt
  have hs := c.size_lt
  rw [inRange_iff c (Nat.mod_lt _ c.size_pos), mod_eq_ite (by omega : c.begin + k < 2 * c.bufSize)]
  split_ifs with h
  · rw [mod_eq_ite (by omega)]
    split_ifs <;> omega
  · rw [mod_eq_ite (by omega)]
    split_ifs <;> omega

theorem content_eq_of {c' : CircularBuf} (hn : c'.bufSize = c.bufSize) (hb : c'.buffer = c.buffer)
    (hbegin : c'.begin = c.begin) (hp : c'.ppos = c.ppos) : c'.size = c.size ∧ c'.content = c.content := by
  have hs : c'.size = c.size := by simp only [size, hn, hbegin, hp]
  exact ⟨hs, by simp only [content, hs, hn, hb, hbegin]⟩

/-! ## What each operation does to the bytes held -/

theorem ppos_eq_pend_iff : c.ppos = (c.begin + c.bufSize - 1) % c.bufSize ↔ c.size = c.bufSize - 1 := by
  have hb := c.begin_lt
  have hp := c.ppos_lt
  have hs : c.size = (c.ppos + c.bufSize - c.begin) % c.bufSize := rfl
  rw [hs, mod_eq_ite (by omega : c.ppos + c.bufSize - c.begin < 2 * c.bufSize),
    mod_eq_ite (by omega : c.begin + c.bufSize - 1 < 2 * c.bufSize)]
  split_ifs <;> omega

theorem putByte_eq_some {b : UInt8} (h : c.size < c.bufSize - 1) :
    ∃ c', c.putByte b = some c' ∧ c'.bufSize = c.bufSize ∧ c'.begin = c.begin ∧ c'.gpos = c.gpos ∧
      c'.ppos = (c.ppos + 1) % c.bufSize ∧ c'.buffer = Function.update c.buffer c.ppos b := by
  rw [putByte, if_neg fun he => by have := (ppos_eq_pend_iff c).mp he; omega]
  exact ⟨_, rfl, rfl, rfl, rfl, rfl, rfl⟩

theorem content_of_putByte {b : UInt8} {c' : CircularBuf} (h : c.size < c.bufSize - 1)
    (hn : c'.bufSize = c.bufSize) (hbegin : c'.begin = c.begin) (hp : c'.ppos = (c.ppos + 1) % c.bufSize)
    (hbuf : c'.buffer = Function.update c.buffer c.ppos b) :
    c'.size = c.size + 1 ∧ c'.content = c.content ++ [b] := by
  have hsize : c'.size = c.size + 1 := by
    refine size_eq_of c' (by omega) ?_
    rw [hp, hbegin, hn, c.ppos_eq, Nat.mod_add_mod, Nat.add_assoc]
  refine ⟨hsize, ?_⟩
  simp only [content, hsize, hn, hbegin, hbuf, List.range'_concat, List.map_append, List.map_cons,
    List.map_nil, Nat.one_mul]
  congr 1
  · refine List.map_congr_left fun p hp => ?_
    obtain ⟨i, hi, rfl⟩ : ∃ i, i < c.size ∧ p = c.begin + i := by
      obtain ⟨hp1, hp2⟩ := List.mem_range'_1.mp hp
      exact ⟨p - c.begin, by omega, by omega⟩
    rw [Function.update_of_ne]
    rw [c.ppos_eq]
    exact mod_ne_of_lt hi c.size_lt
  · rw [← c.ppos_eq, Function.update_self]

@[simp] theorem bufSize_consume (n : Nat) : (c.consume n).bufSize = c.bufSize := rfl

@[simp] theorem buffer_consume (n : Nat) : (c.consume n).buffer = c.buffer := rfl

@[simp] theorem ppos_consume (n : Nat) : (c.consume n).ppos = c.ppos := rfl

theorem begin_consume_of_lt {n : Nat} (h : n < c.size) : (c.consume n).begin = (c.begin + n) % c.bufSize :=
  if_neg (by omega)

theorem begin_consume_of_le {n : Nat} (h : n ≤ c.size) : (c.consume n).begin = (c.begin + n) % c.bufSize := by
  rcases Nat.lt_or_ge n c.size with hlt | hge
  · exact c.begin_consume_of_lt hlt
  · have hb : (c.consume n).begin = c.ppos := if_pos hge
    rw [hb, c.ppos_eq, show c.size = n by omega]

theorem size_consume (n : Nat) : (c.consume n).size = c.size - n := by
  by_cases h : c.size ≤ n
  · have hb : (c.consume n).begin = c.ppos := if_pos h
    refine size_eq_of _ (by have := c.size_lt; simp; omega) ?_
    rw [show c.size - n = 0 by omega, Nat.add_zero, ppos_consume, bufSize_consume, hb, Nat.mod_eq_of_lt c.ppos_lt]
  · refine size_eq_of _ (by simp; have := c.size_lt; omega) ?_
    rw [begin_consume_of_lt c (by omega), ppos_consume, bufSize_consume, Nat.mod_add_mod,
      show c.begin + n + (c.size - n) = c.begin + c.size by omega]
    exact c.ppos_eq

/-- `consume` drops the first bytes held. -/
theorem content_consume (n : Nat) : (c.consume n).content = c.content.drop n := by
  by_cases h : c.size ≤ n
  · rw [List.drop_eq_nil_of_le (by simp [content]; omega)]
    simp [content, size_consume, show c.size - n = 0 by omega]
  · simp only [content, size_consume, bufSize_consume, buffer_consume, begin_consume_of_lt c (by omega : n < c.size),
      map_range'_mod, ← List.map_drop, List.drop_range', Nat.mul_one]

/-! ## Reading -/

theorem avail_eq_drop {j : Nat} (hj : j ≤ c.size) (hg : c.gpos = (c.begin + j) % c.bufSize) :
    c.avail = c.content.drop j := by
  have hlen : (c.ppos + c.bufSize - c.gpos) % c.bufSize = c.size - j := by
    have hc : ({ c with begin := c.gpos, begin_lt := c.gpos_lt } : CircularBuf).size = c.size - j := by
      refine size_eq_of _ (by have := c.size_lt; simp; omega) ?_
      simp only
      rw [hg, Nat.mod_add_mod, show c.begin + j + (c.size - j) = c.begin + c.size by omega]
      exact c.ppos_eq
    exact hc
  rw [avail, hlen, hg, map_range'_mod, content, ← List.map_drop, List.drop_range', Nat.mul_one]

theorem getByte_eq_some {j : Nat} (hj : j < c.size) (hg : c.gpos = (c.begin + j) % c.bufSize) :
    ∃ c', c.getByte = some ((c.content.drop j).headD 0, c') ∧ c'.bufSize = c.bufSize ∧ c'.buffer = c.buffer ∧
      c'.begin = c.begin ∧ c'.ppos = c.ppos ∧ c'.gpos = (c.begin + (j + 1)) % c.bufSize := by
  have hne : c.gpos ≠ c.ppos := by
    rw [hg, c.ppos_eq]
    exact mod_ne_of_lt hj c.size_lt
  have hget : (c.content.drop j).headD 0 = c.buffer c.gpos := by
    rw [List.headD_eq_head?_getD, List.head?_drop, content, List.getElem?_map, List.getElem?_range' hj]
    simp [hg]
  rw [getByte, if_neg hne, hget]
  refine ⟨{ c with gpos := (c.gpos + 1) % c.bufSize, gpos_lt := Nat.mod_lt _ c.size_pos }, rfl, rfl, rfl, rfl, rfl,
    ?_⟩
  show (c.gpos + 1) % c.bufSize = _
  rw [hg, Nat.mod_add_mod, Nat.add_assoc]

end CircularBuf

/-- `CWalleveCircularStream`: the buffer, and whether its stream is good. -/
structure CWalleveCircularStream where
  buf : CircularBuf
  good : Bool

namespace CWalleveCircularStream

variable {α : Type} (s : CWalleveCircularStream)

/-- `CWalleveCircularStream(nMaxSize)`. -/
def init (nMaxSize : Nat) : CWalleveCircularStream := ⟨CircularBuf.init nMaxSize, true⟩

/-- `Clear()`: the stream cleared and every byte consumed. -/
def clear : CWalleveCircularStream := ⟨s.buf.consume s.buf.size, true⟩

/-- `GetBufFreeSpace()`. -/
def getBufFreeSpace : Nat := s.buf.freespace

/-- `GetWritePos()`. -/
def getWritePos : Nat := s.buf.putpos

/-- `Seek(nPos)`: the stream cleared, and whether `seekpos` took the position. -/
def seek (nPos : Nat) : Bool × CWalleveCircularStream :=
  match s.buf.seekpos nPos with
  | some buf => (true, ⟨buf, true⟩)
  | none => (false, ⟨s.buf, true⟩)

/-- `Rewind()`: the stream cleared and `seekoff(0, beg)`, to `begin_`. -/
def rewind : CWalleveCircularStream := ⟨(s.buf.seekpos s.buf.begin).getD s.buf, true⟩

/-- `Consume(nSize)`. -/
def consume (n : Nat) : CWalleveCircularStream := { s with buf := s.buf.consume n }

/-- `Write(s, n)`: each byte put while the stream is good; a refused byte fails it. -/
def write (bytes : List UInt8) : CWalleveCircularStream :=
  bytes.foldl (fun s b =>
    if s.good then
      match s.buf.putByte b with
      | some buf => ⟨buf, true⟩
      | none => ⟨s.buf, false⟩
    else s) s

/-- `Read(s, n)`: up to `n` bytes taken while the stream is good; too few fail it. -/
def readBytes : Nat → CWalleveCircularStream → List UInt8 × CWalleveCircularStream
  | 0, s => ([], s)
  | n + 1, s =>
    if s.good then
      match s.buf.getByte with
      | some (b, buf) =>
        let r := readBytes n ⟨buf, true⟩
        (b :: r.1, r.2)
      | none => ([], ⟨s.buf, false⟩)
    else ([], s)

/-- `>> t` for a type that `rd` reads: what it reads from the bytes the
stream can give; when it runs out they are all taken and the stream fails,
and `t` is left half read, which is `none` here. -/
def read (rd : List UInt8 → Option (α × List UInt8)) : Option α × CWalleveCircularStream :=
  if s.good then
    match rd s.buf.avail with
    | some (t, rest) =>
      (some t, { s with buf := { s.buf with gpos := (s.buf.gpos + (s.buf.avail.length - rest.length)) % s.buf.bufSize,
                                            gpos_lt := Nat.mod_lt _ s.buf.size_pos } })
    | none => (none, { s with good := false })
  else (none, s)

theorem seekpos_of_le {k : Nat} (hk : k ≤ s.buf.size) :
    ∃ buf, s.buf.seekpos ((s.buf.begin + k) % s.buf.bufSize) = some buf ∧ buf.bufSize = s.buf.bufSize ∧
      buf.buffer = s.buf.buffer ∧ buf.begin = s.buf.begin ∧ buf.ppos = s.buf.ppos ∧
      buf.gpos = (s.buf.begin + k) % s.buf.bufSize := by
  unfold CircularBuf.seekpos
  rw [if_pos (by rw [Nat.mod_mod]; exact s.buf.inRange_of_le hk)]
  exact ⟨_, rfl, rfl, rfl, rfl, rfl, Nat.mod_mod _ _⟩

theorem seek_of_le {k : Nat} (hk : k ≤ s.buf.size) :
    ∃ buf, s.seek ((s.buf.begin + k) % s.buf.bufSize) = (true, ⟨buf, true⟩) ∧ buf.bufSize = s.buf.bufSize ∧
      buf.buffer = s.buf.buffer ∧ buf.begin = s.buf.begin ∧ buf.ppos = s.buf.ppos ∧
      buf.gpos = (s.buf.begin + k) % s.buf.bufSize := by
  obtain ⟨buf, hseek, h⟩ := s.seekpos_of_le hk
  exact ⟨buf, by rw [seek, hseek], h⟩

theorem rewind_eq : ∃ buf, s.rewind = ⟨buf, true⟩ ∧ buf.bufSize = s.buf.bufSize ∧ buf.buffer = s.buf.buffer ∧
    buf.begin = s.buf.begin ∧ buf.ppos = s.buf.ppos ∧ buf.gpos = s.buf.begin := by
  obtain ⟨buf, hseek, h1, h2, h3, h4, h5⟩ := s.seekpos_of_le (Nat.zero_le _)
  rw [Nat.add_zero, Nat.mod_eq_of_lt s.buf.begin_lt] at hseek h5
  exact ⟨buf, by rw [rewind, hseek]; rfl, h1, h2, h3, h4, h5⟩

theorem readBytes_of_le {n j : Nat} {s : CWalleveCircularStream} (hgood : s.good = true) (hn : j + n ≤ s.buf.size)
    (hg : s.buf.gpos = (s.buf.begin + j) % s.buf.bufSize) :
    (s.readBytes n).1 = (s.buf.content.drop j).take n ∧ (s.readBytes n).2.good = true ∧
      (s.readBytes n).2.buf.content = s.buf.content ∧ (s.readBytes n).2.buf.size = s.buf.size ∧
      (s.readBytes n).2.buf.begin = s.buf.begin ∧ (s.readBytes n).2.buf.bufSize = s.buf.bufSize ∧
      (s.readBytes n).2.buf.ppos = s.buf.ppos ∧ (s.readBytes n).2.buf.buffer = s.buf.buffer := by
  induction n generalizing s j with
  | zero => exact ⟨by simp [readBytes], hgood, rfl, rfl, rfl, rfl, rfl, rfl⟩
  | succ n ih =>
    obtain ⟨buf, hget, hn', hb, hbegin, hp, hg'⟩ := s.buf.getByte_eq_some (j := j) (by omega) hg
    have hsize : buf.size = s.buf.size := by
      simp only [CircularBuf.size, hn', hbegin, hp]
    have hcontent : buf.content = s.buf.content := by
      simp only [CircularBuf.content, hsize, hn', hb, hbegin]
    obtain ⟨h1, h2, h3, h4, h5, h6, h7, h8⟩ := ih (s := ⟨buf, true⟩) (j := j + 1) rfl (by simp only [hsize]; omega)
      (by simp only [hg', hbegin, hn'])
    simp only [readBytes, hgood, if_true, hget]
    refine ⟨?_, h2, h3.trans hcontent, h4.trans hsize, h5.trans hbegin, h6.trans hn', h7.trans hp, h8.trans hb⟩
    rw [h1]
    simp only [hcontent]
    have hlen : j < s.buf.content.length := by simp [CircularBuf.content]; omega
    rw [List.drop_eq_getElem_cons hlen, List.take_succ_cons, List.headD_cons, ← List.drop_drop]

theorem read_of_le {rd : List UInt8 → Option (α × List UInt8)} {j : Nat} {s : CWalleveCircularStream}
    (hgood : s.good = true) (hj : j ≤ s.buf.size) (hg : s.buf.gpos = (s.buf.begin + j) % s.buf.bufSize) :
    (s.read rd).1 = (rd (s.buf.content.drop j)).map Prod.fst := by
  have havail := s.buf.avail_eq_drop hj hg
  unfold read
  rw [if_pos hgood]
  split
  · next t rest h => rw [← havail, h]; rfl
  · next h => rw [← havail, h]; rfl

theorem buf_read (rd : List UInt8 → Option (α × List UInt8)) :
    (s.read rd).2.buf.bufSize = s.buf.bufSize ∧ (s.read rd).2.buf.buffer = s.buf.buffer ∧
      (s.read rd).2.buf.begin = s.buf.begin ∧ (s.read rd).2.buf.ppos = s.buf.ppos := by
  unfold read
  split
  · split <;> exact ⟨rfl, rfl, rfl, rfl⟩
  · exact ⟨rfl, rfl, rfl, rfl⟩

theorem good_read_of_isSome {rd : List UInt8 → Option (α × List UInt8)} (hgood : s.good = true)
    (h : (rd s.buf.avail).isSome) : (s.read rd).2.good = true := by
  obtain ⟨⟨t, rest⟩, hr⟩ := Option.isSome_iff_exists.mp h
  unfold read
  rw [if_pos hgood]
  split
  · exact hgood
  · next h' => rw [hr] at h'; cases h'

/-- Bytes written into the free space of a good stream are appended to what it holds. -/
theorem write_of_le_freespace (bytes : List UInt8) {s : CWalleveCircularStream} (hgood : s.good = true)
    (h : bytes.length ≤ s.buf.freespace) :
    (s.write bytes).good = true ∧ (s.write bytes).buf.content = s.buf.content ++ bytes ∧
      (s.write bytes).buf.size = s.buf.size + bytes.length ∧ (s.write bytes).buf.begin = s.buf.begin ∧
      (s.write bytes).buf.bufSize = s.buf.bufSize := by
  induction bytes generalizing s with
  | nil => exact ⟨hgood, by simp [write], by simp [write], rfl, rfl⟩
  | cons b bytes ih =>
    have hfree : s.buf.size < s.buf.bufSize - 1 := by
      simp only [List.length_cons, CircularBuf.freespace] at h
      omega
    obtain ⟨buf, hput, hn, hbegin, -, hp, hbuf⟩ := s.buf.putByte_eq_some (b := b) hfree
    obtain ⟨hsize, hcontent⟩ := s.buf.content_of_putByte hfree hn hbegin hp hbuf
    have hstep : s.write (b :: bytes) = (⟨buf, true⟩ : CWalleveCircularStream).write bytes := by
      simp only [write, List.foldl_cons, hgood, if_true, hput]
    have hfree' : bytes.length ≤ buf.freespace := by
      simp only [List.length_cons, CircularBuf.freespace] at h ⊢
      omega
    obtain ⟨hg, hc, hs, hb, hbs⟩ := ih (s := ⟨buf, true⟩) rfl hfree'
    rw [hstep]
    refine ⟨hg, ?_, ?_, hb.trans hbegin, hbs.trans hn⟩
    · rw [hc]
      simp [hcontent]
    · rw [hs]
      simp only [hsize, List.length_cons]
      omega

end CWalleveCircularStream

end Multiverse.Walleve
