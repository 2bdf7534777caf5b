import Multiverse.Walleve.Circular
import Multiverse.Lib.Window
import Multiverse.Lib.Simulation

/-! # The get and put areas of `circularbuf`

`circularbuf` of `walleve/stream/circular.cpp` is a `std::streambuf`: a byte
is put at `pptr()` while it is below `epptr()` and taken at `gptr()` while it
is below `egptr()`, with no call into the class. Only when an area is used up
does the stream call `overflow` or `underflow`, which find the put or get
position by masking the pointer with `size_mask_` and set a new area: up to
the free byte before `begin_` or to the end of the buffer for the put area, up
to the put position or to the end of the buffer for the get area. `consume`
and `seekpos` set the get area again; the put area is set only by the
constructor and by `overflow`, so its end can lag behind `begin_`.

Here the pointers are offsets into `buffer_`, and each area is kept by its
pointer and its end (`eback()` and `pbase()` are read by nothing modelled).
Under `Inv` the put area never reaches past the free space, and the get area
never past the put position. So every byte put or taken through the areas is
the one the position model of `Circular` puts or takes (`Inv.sputc`,
`Inv.sbumpc`, `Inv.consume`, `Inv.seekpos`), and that model implements a
bounded FIFO window (`CircularBuf.Represents`). A run of any calls on a new
buffer gets the replies of the window (`run_refines_window`).
-/

namespace Multiverse.Walleve

/-- `circularbuf` as a `std::streambuf`: the buffer, `begin_`, and the get and
put pointers with the ends of their areas, as offsets into `buffer_`. -/
structure CircularStreamBuf where
  bufSize : Nat
  buffer : Nat → UInt8
  begin : Nat
  gptr : Nat
  egptr : Nat
  pptr : Nat
  epptr : Nat
  size_pos : 0 < bufSize
  begin_lt : begin < bufSize

/-- The directions of `seekoff`: `ios_base::beg`, `ios_base::cur` and `ios_base::end`. -/
inductive SeekDir
  | beg
  | cur
  | toEnd
  deriving DecidableEq, Repr

namespace CircularStreamBuf

variable (s : CircularStreamBuf)

/-- `circularbuf(maximum_size)`: `buf_size_` as in `CircularBuf.init`, an
empty get area at the start and the put area `[0, buf_size_ - 1)`. -/
def init (maximumSize : Nat) : CircularStreamBuf :=
  let c := CircularBuf.init maximumSize
  ⟨c.bufSize, fun _ => 0, 0, 0, 0, 0, c.bufSize - 1, c.size_pos, c.size_pos⟩

/-- `(pptr() - &buffer_[0]) & size_mask_`. -/
def ppos : Nat := s.pptr % s.bufSize

/-- `(gptr() - &buffer_[0]) & size_mask_`. -/
def gpos : Nat := s.gptr % s.bufSize

/-- `size()`. -/
def size : Nat := (s.pptr + s.bufSize - s.begin) % s.bufSize

/-- `freespace()`. -/
def freespace : Nat := s.bufSize - s.size - 1

/-- `putpos()`. -/
def putpos : Nat := s.ppos

/-- `showmanyc()`: `(pptr() - gptr()) & size_mask_`. -/
def showmanyc : Nat := (s.pptr + s.bufSize - s.gptr) % s.bufSize

/-- `setg(eback, gnext, gend)`, without `eback`. -/
def setg (gnext gend : Nat) : CircularStreamBuf := { s with gptr := gnext, egptr := gend }

/-- `setp(pbase, pend)`: the put pointer at `pbase`. -/
def setp (pbase pend : Nat) : CircularStreamBuf := { s with pptr := pbase, epptr := pend }

/-- Where `consume(n)` moves `begin_`: on by `n`, or to the put position when
`n` is not below the size. -/
def consumeBegin (n : Nat) : Nat := if n ≥ s.size then s.ppos else (s.begin + n) % s.bufSize

theorem consumeBegin_lt (n : Nat) : s.consumeBegin n < s.bufSize := by
  unfold consumeBegin
  split_ifs
  · exact Nat.mod_lt _ s.size_pos
  · exact Nat.mod_lt _ s.size_pos

/-- `consume(n)`: `begin_` moved, and the get area set from it when the get
position is no longer from `begin_` to the put position. -/
def consume (n : Nat) : CircularStreamBuf :=
  let ppos := s.ppos
  let gpos := s.gpos
  let begin := s.consumeBegin n
  let s' : CircularStreamBuf := { s with begin, begin_lt := s.consumeBegin_lt n }
  if (ppos ≥ begin ∧ (gpos < begin ∨ gpos > ppos)) ∨ (ppos < begin ∧ gpos < begin ∧ gpos > ppos) then
    if begin ≤ ppos then s'.setg begin ppos else s'.setg begin s.bufSize
  else s'

/-- `underflow()`: the get area from the get position to the put position, or
to the end of the buffer when the bytes wrap; `none` (eof) at the put position. -/
def underflow : Option CircularStreamBuf :=
  if s.gpos < s.ppos then some (s.setg s.gpos s.ppos)
  else if s.gpos > s.ppos then some (s.setg s.gpos s.bufSize)
  else none

/-- `uflow()` of `std::streambuf`: `underflow()`, then the byte at `gptr()` taken. -/
def uflow : Option (UInt8 × CircularStreamBuf) :=
  s.underflow.map fun s => (s.buffer s.gptr, { s with gptr := s.gptr + 1 })

/-- `sbumpc()`: the byte at `gptr()` while the get area lasts, else `uflow()`. -/
def sbumpc : Option (UInt8 × CircularStreamBuf) :=
  if s.gptr < s.egptr then some (s.buffer s.gptr, { s with gptr := s.gptr + 1 }) else s.uflow

/-- `overflow(c)` for a byte `c`: eof when the put position is the free byte
before `begin_`, else the put area from the put position to that byte or to
the end of the buffer, and `c` put. -/
def overflow (c : UInt8) : Option CircularStreamBuf :=
  let ppos := s.ppos
  let pend := (s.begin + s.bufSize - 1) % s.bufSize
  if ppos = pend then none
  else
    let s := if ppos > pend then s.setp ppos s.bufSize else s.setp ppos pend
    some { s with buffer := Function.update s.buffer s.pptr c, pptr := s.pptr + 1 }

/-- `sputc(c)`: `c` put at `pptr()` while the put area lasts, else `overflow(c)`. -/
def sputc (c : UInt8) : Option CircularStreamBuf :=
  if s.pptr < s.epptr then some { s with buffer := Function.update s.buffer s.pptr c, pptr := s.pptr + 1 }
  else s.overflow c

/-- `seekpos(pos, mode)`: for the get side, the get area from `pos` when it
lies from `begin_` to the put position, circularly; `none` is `pos_type(-1)`. -/
def seekpos (pos : Nat) (modeIn : Bool) : Option (Nat × CircularStreamBuf) :=
  if modeIn then
    let ppos := s.ppos
    let gpos := pos % s.bufSize
    if (ppos ≥ s.begin ∧ gpos ≥ s.begin ∧ gpos ≤ ppos) ∨ (ppos < s.begin ∧ (gpos ≥ s.begin ∨ gpos ≤ ppos)) then
      some (gpos, if gpos ≤ ppos then s.setg gpos ppos else s.setg gpos s.bufSize)
    else none
  else none

/-- The pointer `seekoff` counts from. -/
def seekBase : SeekDir → Nat
  | .beg => s.begin
  | .cur => s.gptr
  | .toEnd => s.pptr

/-- `seekoff(off, way, mode)`: the position `off` past `begin_`, the get
pointer or the put pointer, modulo the size, then `seekpos`. `Rewind()` of
`CWalleveCircularStream` is `seekoff(0, beg)`. -/
def seekoff (off : Int) (way : SeekDir) (modeIn : Bool) : Option (Nat × CircularStreamBuf) :=
  if modeIn then s.seekpos (((s.seekBase way : Int) + off) % s.bufSize).toNat modeIn else none

end CircularStreamBuf

/-- `sputn(s, n)`: the bytes put one at a time until one is refused, and how
many were put. -/
def CircularStreamBuf.sputn : List UInt8 → CircularStreamBuf → Nat × CircularStreamBuf
  | [], s => (0, s)
  | c :: cs, s =>
    match s.sputc c with
    | some s' => let r := sputn cs s'; (r.1 + 1, r.2)
    | none => (0, s)

/-- `sgetn(s, n)`: up to `n` bytes taken one at a time, until eof. -/
def CircularStreamBuf.sgetn : Nat → CircularStreamBuf → List UInt8 × CircularStreamBuf
  | 0, s => ([], s)
  | n + 1, s =>
    match s.sbumpc with
    | some (c, s') => let r := sgetn n s'; (c :: r.1, r.2)
    | none => ([], s)

/-- The calls a run of `circularbuf` is made of. -/
inductive CircularOp
  | sputc (c : UInt8)
  | sputn (cs : List UInt8)
  | sbumpc
  | sgetn (n : Nat)
  | consume (n : Nat)
  | seekpos (pos : Nat) (modeIn : Bool)
  | seekoff (off : Int) (way : SeekDir) (modeIn : Bool)
  | size
  | freespace
  | putpos
  | showmanyc

/-- What a call returns: whether `sputc` put its byte, how many bytes `sputn`
put, the byte of `sbumpc` (`none` for eof), the bytes of `sgetn`, the position
of a seek (`none` for `-1`), or a count. -/
inductive CircularReply
  | put (ok : Bool)
  | putn (n : Nat)
  | get (c : Option UInt8)
  | getn (cs : List UInt8)
  | consumed
  | pos (p : Option Nat)
  | count (n : Nat)
  deriving DecidableEq, Repr

namespace CircularStreamBuf

/-- One call on the buffer; a call that fails leaves it as it was. -/
def step : CircularOp → CircularStreamBuf → CircularReply × CircularStreamBuf
  | .sputc c, s => (.put (s.sputc c).isSome, (s.sputc c).getD s)
  | .sputn cs, s => (.putn (sputn cs s).1, (sputn cs s).2)
  | .sbumpc, s => (.get (s.sbumpc.map Prod.fst), (s.sbumpc.map Prod.snd).getD s)
  | .sgetn n, s => (.getn (sgetn n s).1, (sgetn n s).2)
  | .consume n, s => (.consumed, s.consume n)
  | .seekpos pos modeIn, s => (.pos ((s.seekpos pos modeIn).map Prod.fst), ((s.seekpos pos modeIn).map Prod.snd).getD s)
  | .seekoff off way modeIn, s =>
    (.pos ((s.seekoff off way modeIn).map Prod.fst), ((s.seekoff off way modeIn).map Prod.snd).getD s)
  | .size, s => (.count s.size, s)
  | .freespace, s => (.count s.freespace, s)
  | .putpos, s => (.count s.putpos, s)
  | .showmanyc, s => (.count s.showmanyc, s)

end CircularStreamBuf

/-- The position a seek of the window counts from, as `seekoff` does. -/
def windowSeekBase (w : Window UInt8) : SeekDir → Nat
  | .beg => w.begin
  | .cur => w.getPos
  | .toEnd => w.putPos

/-- A seek of the window: the position, modulo the size, when the cursor can be set there. -/
def windowSeekTo (w : Window UInt8) (pos : Nat) (modeIn : Bool) : Option (Nat × Window UInt8) :=
  if modeIn then (w.seek pos).map fun w' => (pos % w.cap, w') else none

/-- What each call is meant to do, on the window of the bytes held. -/
def windowStep : CircularOp → Window UInt8 → CircularReply × Window UInt8
  | .sputc c, w => (.put (w.push c).isSome, (w.push c).getD w)
  | .sputn cs, w => (.putn (Window.pushAll cs w).1, (Window.pushAll cs w).2)
  | .sbumpc, w => (.get (w.next.map Prod.fst), (w.next.map Prod.snd).getD w)
  | .sgetn n, w => (.getn (Window.nextN n w).1, (Window.nextN n w).2)
  | .consume n, w => (.consumed, w.consume n)
  | .seekpos pos modeIn, w =>
    (.pos ((windowSeekTo w pos modeIn).map Prod.fst), ((windowSeekTo w pos modeIn).map Prod.snd).getD w)
  | .seekoff off way modeIn, w =>
    let pos := (((windowSeekBase w way : Int) + off) % w.cap).toNat
    (.pos ((windowSeekTo w pos modeIn).map Prod.fst), ((windowSeekTo w pos modeIn).map Prod.snd).getD w)
  | .size, w => (.count w.items.length, w)
  | .freespace, w => (.count (w.cap - w.items.length - 1), w)
  | .putpos, w => (.count w.putPos, w)
  | .showmanyc, w => (.count (w.items.length - w.read), w)

/-! ## Positions -/

namespace CircularBuf

theorem ext_fields {c c' : CircularBuf} (h1 : c.bufSize = c'.bufSize) (h2 : c.buffer = c'.buffer)
    (h3 : c.begin = c'.begin) (h4 : c.ppos = c'.ppos) (h5 : c.gpos = c'.gpos) : c = c' := by
  cases c
  cases c'
  simp only at h1 h2 h3 h4 h5
  subst h1 h2 h3 h4 h5
  rfl

theorem sub_mod_eq_ite {p g n : Nat} (hp : p < n) (hg : g < n) :
    (p + n - g) % n = if g ≤ p then p - g else p + n - g := by
  rw [mod_eq_ite (by omega)]
  split_ifs <;> omega

theorem succ_mod_eq_ite {g n : Nat} (hg : g < n) : (g + 1) % n = if g + 1 < n then g + 1 else 0 := by
  rw [mod_eq_ite (by omega)]
  split_ifs <;> omega

variable (c : CircularBuf)

theorem length_content : c.content.length = c.size := by
  simp [content]

theorem length_avail : c.avail.length = (c.ppos + c.bufSize - c.gpos) % c.bufSize := by
  simp [avail]

theorem inRange_eq_true_iff (g : Nat) :
    c.inRange g = true ↔
      (c.ppos ≥ c.begin ∧ g ≥ c.begin ∧ g ≤ c.ppos) ∨ (c.ppos < c.begin ∧ (g ≥ c.begin ∨ g ≤ c.ppos)) := by
  simp [inRange, and_assoc]

theorem eq_begin_add_of_lt {g : Nat} (hg : g < c.bufSize) :
    g = (c.begin + (g + c.bufSize - c.begin) % c.bufSize) % c.bufSize := by
  have hb := c.begin_lt
  rw [sub_mod_eq_ite hg hb]
  split_ifs with h
  · rw [Nat.add_sub_cancel' h, Nat.mod_eq_of_lt hg]
  · rw [show c.begin + (g + c.bufSize - c.begin) = g + c.bufSize by omega, Nat.add_mod_right, Nat.mod_eq_of_lt hg]

theorem length_avail_putByte {b : UInt8} {c' : CircularBuf} (hg : c.inRange c.gpos = true)
    (hroom : c.size < c.bufSize - 1) (h : c.putByte b = some c') : c'.avail.length = c.avail.length + 1 := by
  obtain ⟨c'', hput, hn, hbegin, hgpos, hp, hbuf⟩ := c.putByte_eq_some (b := b) hroom
  rw [hput, Option.some.injEq] at h
  subst h
  have hj := (c.inRange_iff c.gpos_lt).mp hg
  have hgj := c.eq_begin_add_of_lt c.gpos_lt
  obtain ⟨hsize, hcontent⟩ := c.content_of_putByte hroom hn hbegin hp hbuf
  have hgj' : c''.gpos = (c''.begin + (c.gpos + c.bufSize - c.begin) % c.bufSize) % c''.bufSize := by
    rw [hgpos, hbegin, hn]
    exact hgj
  rw [c.avail_eq_drop hj hgj, c''.avail_eq_drop (by omega) hgj', hcontent, List.length_drop, List.length_drop,
    List.length_append, c.length_content]
  simp only [List.length_singleton]
  omega

theorem length_avail_getByte {b : UInt8} {c' : CircularBuf} (h : c.getByte = some (b, c')) :
    c'.avail.length + 1 = c.avail.length := by
  unfold getByte at h
  split_ifs at h with hne
  rw [Option.some.injEq, Prod.mk.injEq] at h
  obtain ⟨-, rfl⟩ := h
  have hp := c.ppos_lt
  have hg := c.gpos_lt
  simp only [length_avail]
  rw [sub_mod_eq_ite hp hg, sub_mod_eq_ite hp (Nat.mod_lt _ c.size_pos), succ_mod_eq_ite hg]
  split_ifs <;> omega

end CircularBuf

namespace CircularStreamBuf

variable (s : CircularStreamBuf)

/-- The position model of the buffer: `begin_` and the masked pointers. -/
def toBuf : CircularBuf :=
  ⟨s.bufSize, s.buffer, s.begin, s.ppos, s.gpos, s.size_pos, s.begin_lt, Nat.mod_lt _ s.size_pos,
    Nat.mod_lt _ s.size_pos⟩

@[simp] theorem bufSize_toBuf : s.toBuf.bufSize = s.bufSize := rfl

@[simp] theorem buffer_toBuf : s.toBuf.buffer = s.buffer := rfl

@[simp] theorem begin_toBuf : s.toBuf.begin = s.begin := rfl

@[simp] theorem ppos_toBuf : s.toBuf.ppos = s.ppos := rfl

@[simp] theorem gpos_toBuf : s.toBuf.gpos = s.gpos := rfl

/-- The areas lie in the buffer; the get area reaches no further than the
bytes a read can take, and the put area no further than the free space. -/
structure Inv : Prop where
  gptr_le : s.gptr ≤ s.egptr
  egptr_le : s.egptr ≤ s.bufSize
  pptr_le : s.pptr ≤ s.epptr
  epptr_le : s.epptr ≤ s.bufSize
  get_area : s.egptr - s.gptr ≤ s.toBuf.avail.length
  put_area : s.epptr - s.pptr ≤ s.toBuf.freespace

theorem size_toBuf : s.toBuf.size = s.size := by
  have hb := s.begin_lt
  have hdiv := Nat.mod_add_div s.pptr s.bufSize
  show (s.pptr % s.bufSize + s.bufSize - s.begin) % s.bufSize = (s.pptr + s.bufSize - s.begin) % s.bufSize
  rw [show s.pptr + s.bufSize - s.begin = s.pptr % s.bufSize + s.bufSize - s.begin + s.bufSize * (s.pptr / s.bufSize)
    by omega, Nat.add_mul_mod_self_left]

end CircularStreamBuf

/-! ## The areas refine the positions -/

theorem overflow_area {b p n : Nat} (hb : b < n) (hp : p < n) (hne : p ≠ (b + n - 1) % n) :
    (p > (b + n - 1) % n → n - p ≤ n - (p + n - b) % n - 1) ∧
      (¬ p > (b + n - 1) % n → p < (b + n - 1) % n ∧ (b + n - 1) % n - p ≤ n - (p + n - b) % n - 1) := by
  rw [mod_eq_ite (by omega : b + n - 1 < 2 * n)] at hne ⊢
  rw [CircularBuf.sub_mod_eq_ite hp hb]
  split_ifs at hne ⊢ <;> omega

theorem get_area_le {p g n : Nat} (hp : p < n) (hg : g < n) :
    (g ≤ p → p - g ≤ (p + n - g) % n) ∧ (p < g → n - g ≤ (p + n - g) % n) := by
  rw [CircularBuf.sub_mod_eq_ite hp hg]
  split_ifs <;> omega

namespace CircularStreamBuf

variable {s : CircularStreamBuf}

theorem Inv.size_lt_of_room (h : s.Inv) (hp : s.pptr < s.epptr) : s.toBuf.size < s.bufSize - 1 := by
  have harea := h.put_area
  unfold CircularBuf.freespace at harea
  simp only [bufSize_toBuf] at harea
  omega

theorem Inv.pptr_lt (h : s.Inv) (hp : s.pptr < s.epptr) : s.pptr < s.bufSize :=
  Nat.lt_of_lt_of_le hp h.epptr_le

theorem Inv.gptr_lt (h : s.Inv) (hg : s.gptr < s.egptr) : s.gptr < s.bufSize :=
  Nat.lt_of_lt_of_le hg h.egptr_le

theorem Inv.put (h : s.Inv) (hg : s.toBuf.inRange s.toBuf.gpos = true) (hp : s.pptr < s.epptr) (c : UInt8) :
    let s' : CircularStreamBuf := { s with buffer := Function.update s.buffer s.pptr c, pptr := s.pptr + 1 }
    s'.Inv ∧ s.toBuf.putByte c = some s'.toBuf := by
  intro s'
  have hroom := h.size_lt_of_room hp
  have hpp : s.ppos = s.pptr := Nat.mod_eq_of_lt (h.pptr_lt hp)
  obtain ⟨c', hput, hn, hbegin, hgpos, hppos, hbuf⟩ := s.toBuf.putByte_eq_some (b := c) hroom
  have heq : s'.toBuf = c' := by
    refine CircularBuf.ext_fields hn.symm ?_ hbegin.symm ?_ hgpos.symm
    · rw [hbuf]
      simp [s', hpp]
    · rw [hppos]
      simp [s', ppos]
  have hsize : c'.size = s.toBuf.size + 1 := (s.toBuf.content_of_putByte hroom hn hbegin hppos hbuf).1
  refine ⟨⟨h.gptr_le, h.egptr_le, hp, h.epptr_le, ?_, ?_⟩, by rw [hput, heq]⟩
  · rw [heq, s.toBuf.length_avail_putByte hg hroom hput]
    exact Nat.le_succ_of_le h.get_area
  · have harea := h.put_area
    rw [heq]
    unfold CircularBuf.freespace at harea ⊢
    rw [hsize, hn]
    simp only [s']
    omega

theorem toBuf_setp_ppos (e : Nat) : (s.setp s.ppos e).toBuf = s.toBuf :=
  CircularBuf.ext_fields rfl rfl rfl (Nat.mod_mod _ _) rfl

theorem Inv.setg (h : s.Inv) {g e : Nat} (hge : g ≤ e) (he : e ≤ s.bufSize)
    (harea : e - g ≤ (s.setg g e).toBuf.avail.length) : (s.setg g e).Inv :=
  ⟨hge, he, h.pptr_le, h.epptr_le, harea, h.put_area⟩

theorem Inv.put_setp (h : s.Inv) (hg : s.toBuf.inRange s.toBuf.gpos = true) {e : Nat} (hlt : s.ppos < e)
    (hle : e ≤ s.bufSize) (hroom : e - s.ppos ≤ s.toBuf.freespace) (c : UInt8) :
    let s₁ := s.setp s.ppos e
    let s' : CircularStreamBuf := { s₁ with buffer := Function.update s₁.buffer s₁.pptr c, pptr := s₁.pptr + 1 }
    s'.Inv ∧ s.toBuf.putByte c = some s'.toBuf := by
  intro s₁ s'
  have hs₁ : s₁.Inv := ⟨h.gptr_le, h.egptr_le, Nat.le_of_lt hlt, hle, by rw [toBuf_setp_ppos]; exact h.get_area,
    by rw [toBuf_setp_ppos]; exact hroom⟩
  have hput := hs₁.put (by rw [toBuf_setp_ppos]; exact hg) hlt c
  rw [toBuf_setp_ppos] at hput
  exact hput

/-- `sputc(c)` puts what the position model puts, and refuses where it refuses. -/
theorem Inv.sputc (h : s.Inv) (hg : s.toBuf.inRange s.toBuf.gpos = true) (c : UInt8) :
    Option.Rel (fun s' c' => s'.Inv ∧ s'.toBuf = c') (s.sputc c) (s.toBuf.putByte c) := by
  unfold CircularStreamBuf.sputc
  split_ifs with hp
  · obtain ⟨hinv, hput⟩ := h.put hg hp c
    rw [hput]
    exact .some ⟨hinv, rfl⟩
  -- the put area is used up: `overflow` finds the put position and sets a new area
  have hpl : s.ppos < s.bufSize := Nat.mod_lt _ s.size_pos
  unfold overflow
  dsimp only
  by_cases hne : s.ppos = (s.begin + s.bufSize - 1) % s.bufSize
  · rw [if_pos hne, show s.toBuf.putByte c = none from if_pos hne]
    exact .none
  rw [if_neg hne]
  have harea := overflow_area s.begin_lt hpl hne
  split_ifs with hgt
  · obtain ⟨hinv, hput⟩ := h.put_setp hg hpl le_rfl (harea.1 hgt) c
    rw [hput]
    exact .some ⟨hinv, rfl⟩
  · obtain ⟨hlt, hroom⟩ := harea.2 hgt
    obtain ⟨hinv, hput⟩ := h.put_setp hg hlt (Nat.le_of_lt (Nat.mod_lt _ s.size_pos)) hroom c
    rw [hput]
    exact .some ⟨hinv, rfl⟩

theorem toBuf_setg_gpos (e : Nat) : (s.setg s.gpos e).toBuf = s.toBuf :=
  CircularBuf.ext_fields rfl rfl rfl rfl (Nat.mod_mod _ _)

theorem Inv.take (h : s.Inv) (hg : s.gptr < s.egptr) :
    let s' : CircularStreamBuf := { s with gptr := s.gptr + 1 }
    s'.Inv ∧ s.toBuf.getByte = some (s.buffer s.gptr, s'.toBuf) := by
  intro s'
  have hgp : s.gpos = s.gptr := Nat.mod_eq_of_lt (h.gptr_lt hg)
  have havail := h.get_area
  have hne : s.gpos ≠ s.ppos := by
    intro he
    rw [CircularBuf.length_avail, gpos_toBuf, ppos_toBuf, bufSize_toBuf, he, Nat.add_sub_cancel_left,
      Nat.mod_self] at havail
    omega
  have hget : s.toBuf.getByte = some (s.buffer s.gptr, s'.toBuf) := by
    unfold CircularBuf.getByte
    rw [if_neg (by simpa using hne)]
    refine congrArg some (Prod.ext (by simp [hgp]) (CircularBuf.ext_fields rfl rfl rfl rfl ?_))
    simp [s', gpos]
  refine ⟨⟨hg, h.egptr_le, h.pptr_le, h.epptr_le, ?_, h.put_area⟩, hget⟩
  have hlen := s.toBuf.length_avail_getByte hget
  show s.egptr - (s.gptr + 1) ≤ s'.toBuf.avail.length
  omega

theorem Inv.take_setg (h : s.Inv) {e : Nat} (hlt : s.gpos < e) (hle : e ≤ s.bufSize)
    (harea : e - s.gpos ≤ s.toBuf.avail.length) :
    let s₁ := s.setg s.gpos e
    let s' : CircularStreamBuf := { s₁ with gptr := s₁.gptr + 1 }
    s'.Inv ∧ s.toBuf.getByte = some (s₁.buffer s₁.gptr, s'.toBuf) := by
  intro s₁ s'
  have hs₁ : s₁.Inv := h.setg (Nat.le_of_lt hlt) hle (by rw [toBuf_setg_gpos]; exact harea)
  have htake := hs₁.take hlt
  rw [toBuf_setg_gpos] at htake
  exact htake

/-- `sbumpc()` takes what the position model takes, and finds eof where it does. -/
theorem Inv.sbumpc (h : s.Inv) :
    Option.Rel (fun p q => p.1 = q.1 ∧ p.2.Inv ∧ p.2.toBuf = q.2) s.sbumpc s.toBuf.getByte := by
  unfold CircularStreamBuf.sbumpc
  split_ifs with hg
  · obtain ⟨hinv, hget⟩ := h.take hg
    rw [hget]
    exact .some ⟨rfl, hinv, rfl⟩
  -- the get area is used up: `underflow` sets one from the get position
  have hgl : s.gpos < s.bufSize := Nat.mod_lt _ s.size_pos
  have hpl : s.ppos < s.bufSize := Nat.mod_lt _ s.size_pos
  have harea := get_area_le hpl hgl
  unfold uflow underflow
  split_ifs with hlt hgt
  · obtain ⟨hinv, hget⟩ := h.take_setg hlt (Nat.le_of_lt hpl)
      (by rw [CircularBuf.length_avail]; exact harea.1 (Nat.le_of_lt hlt))
    rw [Option.map_some, hget]
    exact .some ⟨rfl, hinv, rfl⟩
  · obtain ⟨hinv, hget⟩ := h.take_setg hgl le_rfl (by rw [CircularBuf.length_avail]; exact harea.2 hgt)
    rw [Option.map_some, hget]
    exact .some ⟨rfl, hinv, rfl⟩
  · have he : s.gpos = s.ppos := by omega
    rw [Option.map_none, show s.toBuf.getByte = none from if_pos he]
    exact .none

theorem Inv.setBegin (h : s.Inv) {b : Nat} (hb : b < s.bufSize)
    (hsize : ({ s with begin := b, begin_lt := hb } : CircularStreamBuf).size ≤ s.size) :
    ({ s with begin := b, begin_lt := hb } : CircularStreamBuf).Inv := by
  refine ⟨h.gptr_le, h.egptr_le, h.pptr_le, h.epptr_le, h.get_area, ?_⟩
  have harea := h.put_area
  unfold CircularBuf.freespace at harea ⊢
  rw [size_toBuf] at harea ⊢
  simp only [bufSize_toBuf] at harea ⊢
  omega

variable (s) in
theorem begin_toBuf_consume (n : Nat) : (s.toBuf.consume n).begin = s.consumeBegin n := by
  show (if s.toBuf.size ≤ n then s.ppos else (s.begin + n) % s.bufSize) = _
  rw [size_toBuf]
  rfl

variable (s) in
theorem gpos_toBuf_consume (n : Nat) :
    (s.toBuf.consume n).gpos = if (s.toBuf.consume n).inRange s.gpos then s.gpos else s.consumeBegin n := by
  rw [← begin_toBuf_consume]
  rfl

/-- `consume(n)` drops what the position model drops, and sets the get area
exactly where the position model moves the get position. -/
theorem Inv.consume (h : s.Inv) (n : Nat) : (s.consume n).Inv ∧ (s.consume n).toBuf = s.toBuf.consume n := by
  have hbl := s.consumeBegin_lt n
  have hpl : s.ppos < s.bufSize := Nat.mod_lt _ s.size_pos
  have hbegin := begin_toBuf_consume s n
  have hs' : ({ s with begin := s.consumeBegin n, begin_lt := hbl } : CircularStreamBuf).Inv := by
    refine h.setBegin hbl ?_
    have hsize : ({ s with begin := s.consumeBegin n, begin_lt := hbl } : CircularStreamBuf).toBuf.size =
        (s.toBuf.consume n).size := by
      show _ = (s.ppos + s.bufSize - (s.toBuf.consume n).begin) % s.bufSize
      rw [hbegin]
      rfl
    rw [← size_toBuf, ← size_toBuf, hsize, CircularBuf.size_consume]
    omega
  have hrange := (s.toBuf.consume n).inRange_eq_true_iff s.gpos
  rw [CircularBuf.ppos_consume, ppos_toBuf, hbegin] at hrange
  have hgpos := gpos_toBuf_consume s n
  unfold CircularStreamBuf.consume
  dsimp only
  split_ifs with hreset hle
  · have hout : (s.toBuf.consume n).inRange s.gpos = false := by
      rw [Bool.eq_false_iff]
      intro hin
      rw [hrange] at hin
      omega
    refine ⟨hs'.setg hle (Nat.le_of_lt hpl) ?_, CircularBuf.ext_fields rfl rfl hbegin.symm rfl ?_⟩
    · rw [CircularBuf.length_avail]
      show _ ≤ (s.ppos + s.bufSize - s.consumeBegin n % s.bufSize) % s.bufSize
      rw [Nat.mod_eq_of_lt hbl]
      exact (get_area_le hpl hbl).1 hle
    · rw [hgpos, hout]
      exact Nat.mod_eq_of_lt hbl
  · have hout : (s.toBuf.consume n).inRange s.gpos = false := by
      rw [Bool.eq_false_iff]
      intro hin
      rw [hrange] at hin
      omega
    refine ⟨hs'.setg (Nat.le_of_lt hbl) le_rfl ?_, CircularBuf.ext_fields rfl rfl hbegin.symm rfl ?_⟩
    · rw [CircularBuf.length_avail]
      show _ ≤ (s.ppos + s.bufSize - s.consumeBegin n % s.bufSize) % s.bufSize
      rw [Nat.mod_eq_of_lt hbl]
      exact (get_area_le hpl hbl).2 (by omega)
    · rw [hgpos, hout]
      exact Nat.mod_eq_of_lt hbl
  · have hin : (s.toBuf.consume n).inRange s.gpos = true := by
      rw [hrange]
      omega
    refine ⟨hs', CircularBuf.ext_fields rfl rfl hbegin.symm rfl ?_⟩
    rw [hgpos, if_pos hin]
    rfl

/-- `seekpos(pos, in)` sets the get area where the position model moves the
get position, and fails where it fails. -/
theorem Inv.seekpos (h : s.Inv) (pos : Nat) :
    Option.Rel (fun p c => p.1 = pos % s.bufSize ∧ p.2.Inv ∧ p.2.toBuf = c) (s.seekpos pos true)
      (s.toBuf.seekpos pos) := by
  have hpl : s.ppos < s.bufSize := Nat.mod_lt _ s.size_pos
  have hgl : pos % s.bufSize < s.bufSize := Nat.mod_lt _ s.size_pos
  have hrange := s.toBuf.inRange_eq_true_iff (pos % s.bufSize)
  rw [ppos_toBuf, begin_toBuf] at hrange
  unfold CircularStreamBuf.seekpos CircularBuf.seekpos
  simp only [if_true, bufSize_toBuf, hrange]
  have hbuf : ∀ e, (s.setg (pos % s.bufSize) e).toBuf =
      { s.toBuf with gpos := pos % s.bufSize, gpos_lt := hgl } :=
    fun e => CircularBuf.ext_fields rfl rfl rfl rfl (Nat.mod_mod _ _)
  have hlen : ∀ e, (s.setg (pos % s.bufSize) e).toBuf.avail.length =
      (s.ppos + s.bufSize - pos % s.bufSize) % s.bufSize := by
    intro e
    rw [hbuf, CircularBuf.length_avail]
    rfl
  split_ifs with hc hle
  · refine .some ⟨rfl, h.setg hle (Nat.le_of_lt hpl) ?_, hbuf _⟩
    rw [hlen]
    exact (get_area_le hpl hgl).1 hle
  · refine .some ⟨rfl, h.setg (Nat.le_of_lt hgl) le_rfl ?_, hbuf _⟩
    rw [hlen]
    exact (get_area_le hpl hgl).2 (by omega)
  · exact .none

end CircularStreamBuf

/-! ## The positions implement the window -/

namespace CircularBuf

theorem dist_mod {b x y n : Nat} (hx : x < n) (hy : y < n) :
    ((b + y) % n + n - (b + x) % n) % n = (y + n - x) % n := by
  have hB := Nat.mod_lt b (Nat.lt_of_le_of_lt (Nat.zero_le _) hx)
  rw [← Nat.mod_add_mod b n y, ← Nat.mod_add_mod b n x]
  generalize b % n = B at *
  rw [mod_eq_ite (show B + y < 2 * n by omega), mod_eq_ite (show B + x < 2 * n by omega),
    mod_eq_ite (show y + n - x < 2 * n by omega)]
  split_ifs <;> rw [mod_eq_ite (by omega)] <;> split_ifs <;> omega

/-- The bytes held are the items of the window from the same `begin_`, and
the get position is the window's cursor. -/
structure Represents (c : CircularBuf) (w : Window UInt8) : Prop where
  bufSize_eq : c.bufSize = w.cap
  begin_eq : c.begin = w.begin
  content_eq : c.content = w.items
  gpos_eq : c.gpos = (c.begin + w.read) % c.bufSize

variable {c : CircularBuf} {w : Window UInt8}

theorem Represents.size_eq (h : c.Represents w) : c.size = w.items.length := by
  rw [← h.content_eq, length_content]

theorem Represents.inRange (h : c.Represents w) : c.inRange c.gpos = true := by
  rw [h.gpos_eq]
  exact c.inRange_of_le (h.size_eq ▸ w.read_le)

theorem Represents.ppos_eq (h : c.Represents w) : c.ppos = w.putPos := by
  rw [Window.putPos, ← h.size_eq, ← h.bufSize_eq, ← h.begin_eq]
  exact c.ppos_eq

theorem Represents.length_avail (h : c.Represents w) : c.avail.length = w.items.length - w.read := by
  rw [c.avail_eq_drop (h.size_eq ▸ w.read_le) h.gpos_eq, List.length_drop, length_content, h.size_eq]

theorem Represents.putByte (h : c.Represents w) (b : UInt8) : Option.Rel Represents (c.putByte b) (w.push b) := by
  have hsize := h.size_eq
  have hcap := h.bufSize_eq
  by_cases hroom : c.size < c.bufSize - 1
  · obtain ⟨c', hput, hn, hbegin, hgpos, hp, hbuf⟩ := c.putByte_eq_some (b := b) hroom
    have hcontent := (c.content_of_putByte hroom hn hbegin hp hbuf).2
    rw [hput, Window.push, dif_pos (by omega)]
    refine .some ⟨hn.trans hcap, hbegin.trans h.begin_eq, by rw [hcontent, h.content_eq], ?_⟩
    rw [hgpos, hbegin, hn]
    exact h.gpos_eq
  · have hfull : c.size = c.bufSize - 1 := by
      have := c.size_lt
      omega
    rw [CircularBuf.putByte, if_pos (c.ppos_eq_pend_iff.mpr hfull), Window.push, dif_neg (by omega)]
    exact .none

theorem Represents.getByte (h : c.Represents w) :
    Option.Rel (fun p q => p.1 = q.1 ∧ p.2.Represents q.2) c.getByte w.next := by
  by_cases hj : w.read < w.items.length
  · obtain ⟨c', hget, hn, hb, hbegin, hp, hg'⟩ :=
      c.getByte_eq_some (j := w.read) (by rw [h.size_eq]; exact hj) h.gpos_eq
    rw [hget, Window.next, dif_pos hj]
    refine .some ⟨?_, hn.trans h.bufSize_eq, hbegin.trans h.begin_eq, ?_, ?_⟩
    · rw [h.content_eq, List.headD_eq_head?_getD, List.head?_drop, List.getElem?_eq_getElem hj]
      rfl
    · rw [(c.content_eq_of hn hb hbegin hp).2, h.content_eq]
    · rw [hg', hbegin, hn]
  · have hend : w.read = w.items.length := by
      have := w.read_le
      omega
    have he : c.gpos = c.ppos := by
      rw [h.gpos_eq, hend, ← h.size_eq]
      exact c.ppos_eq.symm
    rw [CircularBuf.getByte, if_pos he, Window.next, dif_neg hj]
    exact .none

/-- Consuming drops the first items; the cursor keeps its item, or moves to
the new front. -/
theorem Represents.consume (h : c.Represents w) (n : Nat) : (c.consume n).Represents (w.consume n) := by
  have hsize := h.size_eq
  have hN := c.size_pos
  have hs := c.size_lt
  have hj := hsize ▸ w.read_le
  have hbeg : (c.consume n).begin = (c.begin + min n c.size) % c.bufSize := by
    rcases Nat.le_total n c.size with hle | hle
    · rw [c.begin_consume_of_le hle, Nat.min_eq_left hle]
    · rw [Nat.min_eq_right hle]
      show (if c.size ≤ n then c.ppos else _) = _
      rw [if_pos hle]
      exact c.ppos_eq
  refine ⟨h.bufSize_eq, ?_, ?_, ?_⟩
  · show _ = (w.begin + min n w.items.length) % w.cap
    rw [hbeg, h.begin_eq, hsize, h.bufSize_eq]
  · rw [content_consume, h.content_eq]
    rfl
  have hdist : (c.gpos + c.bufSize - (c.consume n).begin) % c.bufSize =
      (w.read + c.bufSize - min n c.size) % c.bufSize := by
    rw [h.gpos_eq, hbeg]
    exact dist_mod (by omega) (by omega)
  have hrange := (c.consume n).inRange_iff (g := c.gpos) c.gpos_lt
  rw [bufSize_consume, hdist, size_consume] at hrange
  have hgpos : (c.consume n).gpos = if (c.consume n).inRange c.gpos then c.gpos else (c.consume n).begin := rfl
  show (c.consume n).gpos = ((c.consume n).begin + (w.read - n)) % c.bufSize
  rw [hgpos]
  by_cases hnj : n ≤ w.read
  · have hin : (c.consume n).inRange c.gpos = true := by
      rw [hrange, Nat.min_eq_left (by omega), mod_eq_ite (by omega)]
      split_ifs <;> omega
    rw [if_pos hin, hbeg, Nat.min_eq_left (by omega), h.gpos_eq, Nat.mod_add_mod,
      show c.begin + n + (w.read - n) = c.begin + w.read by omega]
  · rw [show w.read - n = 0 by omega, Nat.add_zero,
      Nat.mod_eq_of_lt (show (c.consume n).begin < c.bufSize from (c.consume n).begin_lt)]
    split_ifs with hin
    · -- only a cursor at the end of the items is left in range, and it is the new front
      rw [hrange, mod_eq_ite (by omega)] at hin
      have hend : w.read = c.size := by
        rcases Nat.le_total n c.size with hle | hle
        · rw [Nat.min_eq_left hle] at hin
          split_ifs at hin <;> omega
        · rw [Nat.min_eq_right hle] at hin
          split_ifs at hin <;> omega
      rw [h.gpos_eq, hbeg, hend, Nat.min_eq_right (by omega)]
    · rfl

/-- The cursor is set exactly to the positions from `begin_` to the end of the items. -/
theorem Represents.seekpos (h : c.Represents w) (pos : Nat) : Option.Rel Represents (c.seekpos pos) (w.seek pos) := by
  have hg := Nat.mod_lt pos c.size_pos
  have hoff : (pos % c.bufSize + c.bufSize - c.begin) % c.bufSize = w.offset pos := by
    rw [Window.offset, h.bufSize_eq, h.begin_eq]
  have hrange := c.inRange_iff hg
  rw [hoff, h.size_eq] at hrange
  unfold CircularBuf.seekpos Window.seek
  by_cases hin : c.inRange (pos % c.bufSize) = true
  · rw [if_pos hin, dif_pos (hrange.mp hin)]
    refine .some ⟨h.bufSize_eq, h.begin_eq, h.content_eq, ?_⟩
    show pos % c.bufSize = (c.begin + w.offset pos) % c.bufSize
    rw [h.bufSize_eq, h.begin_eq, w.add_offset]
  · rw [if_neg hin, dif_neg (fun hle => hin (hrange.mpr hle))]
    exact .none

end CircularBuf

/-! ## Runs -/

namespace CircularStreamBuf

/-- The buffer implements the window: its areas keep `Inv`, and its
positions hold the window. -/
def Refines (s : CircularStreamBuf) (w : Window UInt8) : Prop := s.Inv ∧ s.toBuf.Represents w

variable {s : CircularStreamBuf} {w : Window UInt8}

theorem Inv.showmanyc_eq (h : s.Inv) : s.showmanyc = s.toBuf.avail.length := by
  have hN := s.size_pos
  have hdiv := Nat.mod_add_div s.pptr s.bufSize
  rw [CircularBuf.length_avail]
  show (s.pptr + s.bufSize - s.gptr) % s.bufSize = (s.pptr % s.bufSize + s.bufSize - s.gptr % s.bufSize) % s.bufSize
  rcases Nat.lt_or_ge s.gptr s.bufSize with hg | hg
  · rw [Nat.mod_eq_of_lt hg, show s.pptr + s.bufSize - s.gptr =
      s.pptr % s.bufSize + s.bufSize - s.gptr + s.bufSize * (s.pptr / s.bufSize) by
        have := Nat.mod_lt s.pptr hN
        omega, Nat.add_mul_mod_self_left]
  · -- a get area used up to the end of the buffer: `gptr()` is one past its last byte
    have hgN : s.gptr = s.bufSize := Nat.le_antisymm (Nat.le_trans h.gptr_le h.egptr_le) hg
    rw [hgN, Nat.mod_self, Nat.sub_zero, Nat.add_sub_cancel, Nat.add_mod_right, Nat.mod_mod]

theorem Refines.sputc (h : s.Refines w) (c : UInt8) : Option.Rel Refines (s.sputc c) (w.push c) := by
  refine Simulation.rel_comp ?_ (h.1.sputc h.2.inRange c) (h.2.putByte c)
  rintro s' c' w' ⟨hinv, rfl⟩ hrep
  exact ⟨hinv, hrep⟩

theorem Refines.sbumpc (h : s.Refines w) :
    Option.Rel (fun p q => p.1 = q.1 ∧ p.2.Refines q.2) s.sbumpc w.next := by
  refine Simulation.rel_comp ?_ h.1.sbumpc h.2.getByte
  rintro p c q ⟨hpc, hinv, heq⟩ ⟨hcq, hrep⟩
  exact ⟨hpc.trans hcq, hinv, heq ▸ hrep⟩

theorem Refines.consume (h : s.Refines w) (n : Nat) : (s.consume n).Refines (w.consume n) := by
  obtain ⟨hinv, heq⟩ := h.1.consume n
  exact ⟨hinv, heq ▸ h.2.consume n⟩

theorem Refines.seekpos (h : s.Refines w) (pos : Nat) (modeIn : Bool) :
    Option.Rel (fun p q => p.1 = q.1 ∧ p.2.Refines q.2) (s.seekpos pos modeIn) (windowSeekTo w pos modeIn) := by
  cases modeIn with
  | false => exact .none
  | true =>
    have hw : Option.Rel (fun (c : CircularBuf) (q : Nat × Window UInt8) => c.Represents q.2 ∧ q.1 = pos % w.cap)
        (s.toBuf.seekpos pos) (windowSeekTo w pos true) := by
      have := Simulation.rel_map (f := id) (g := fun w' => (pos % w.cap, w'))
        (S := fun (c : CircularBuf) (q : Nat × Window UInt8) => c.Represents q.2 ∧ q.1 = pos % w.cap)
        (fun _ _ hab => ⟨hab, rfl⟩) (h.2.seekpos pos)
      rwa [Option.map_id, id_eq] at this
    refine Simulation.rel_comp ?_ (h.1.seekpos pos) hw
    rintro p c q ⟨hpc, hinv, heq⟩ ⟨hrep, hq⟩
    refine ⟨?_, hinv, heq ▸ hrep⟩
    rw [hpc, hq]
    exact congrArg (pos % ·) h.2.bufSize_eq

theorem Refines.seekBase_mod (h : s.Refines w) (way : SeekDir) :
    s.seekBase way % s.bufSize = windowSeekBase w way % w.cap := by
  have hcap : s.bufSize = w.cap := h.2.bufSize_eq
  cases way with
  | beg =>
    show s.begin % s.bufSize = w.begin % w.cap
    rw [← hcap, ← h.2.begin_eq]
    rfl
  | cur =>
    show s.gpos = w.getPos % w.cap
    rw [Window.getPos, Nat.mod_mod, ← hcap, ← h.2.begin_eq]
    exact h.2.gpos_eq
  | toEnd =>
    show s.ppos = w.putPos % w.cap
    rw [Window.putPos, Nat.mod_mod]
    exact h.2.ppos_eq

theorem Refines.seekoff (h : s.Refines w) (off : Int) (way : SeekDir) (modeIn : Bool) :
    Option.Rel (fun p q => p.1 = q.1 ∧ p.2.Refines q.2) (s.seekoff off way modeIn)
      (windowSeekTo w (((windowSeekBase w way : Int) + off) % w.cap).toNat modeIn) := by
  cases modeIn with
  | false => exact .none
  | true =>
    have hcap : (s.bufSize : Int) = w.cap := congrArg Nat.cast h.2.bufSize_eq
    have hmod : (s.seekBase way : Int) % s.bufSize = (windowSeekBase w way : Int) % w.cap := by
      rw [← Int.natCast_emod, ← Int.natCast_emod, h.seekBase_mod]
    have hpos : ((s.seekBase way : Int) + off) % s.bufSize = ((windowSeekBase w way : Int) + off) % w.cap := by
      rw [← Int.emod_add_emod, hmod, hcap, Int.emod_add_emod]
    unfold CircularStreamBuf.seekoff
    rw [if_pos rfl, hpos]
    exact h.seekpos _ true

theorem Refines.sputn (cs : List UInt8) (h : s.Refines w) :
    (CircularStreamBuf.sputn cs s).1 = (Window.pushAll cs w).1 ∧
      (CircularStreamBuf.sputn cs s).2.Refines (Window.pushAll cs w).2 := by
  induction cs generalizing s w with
  | nil => exact ⟨rfl, h⟩
  | cons c cs ih =>
    rcases Simulation.rel_cases (h.sputc c) with ⟨hs, hw⟩ | ⟨s', w', hs, hw, h'⟩
    · simp only [CircularStreamBuf.sputn, Window.pushAll, hs, hw, true_and]
      exact h
    · obtain ⟨h1, h2⟩ := ih h'
      simp only [CircularStreamBuf.sputn, Window.pushAll, hs, hw, h1]
      exact ⟨trivial, h2⟩

theorem Refines.sgetn (n : Nat) (h : s.Refines w) :
    (CircularStreamBuf.sgetn n s).1 = (Window.nextN n w).1 ∧
      (CircularStreamBuf.sgetn n s).2.Refines (Window.nextN n w).2 := by
  induction n generalizing s w with
  | zero => exact ⟨rfl, h⟩
  | succ n ih =>
    rcases Simulation.rel_cases h.sbumpc with ⟨hs, hw⟩ | ⟨⟨b, s'⟩, ⟨b', w'⟩, hs, hw, hb, h'⟩
    · simp only [CircularStreamBuf.sgetn, Window.nextN, hs, hw, true_and]
      exact h
    · dsimp only at hb h'
      obtain ⟨h1, h2⟩ := ih h'
      simp only [CircularStreamBuf.sgetn, Window.nextN, hs, hw, h1, hb]
      exact ⟨trivial, h2⟩

theorem Refines.partial {α : Type} {x : Option (α × CircularStreamBuf)} {y : Option (α × Window UInt8)}
    (h : s.Refines w) (hxy : Option.Rel (fun p q => p.1 = q.1 ∧ p.2.Refines q.2) x y) :
    x.map Prod.fst = y.map Prod.fst ∧ ((x.map Prod.snd).getD s).Refines ((y.map Prod.snd).getD w) :=
  ⟨Simulation.rel_eq (Simulation.rel_map (fun _ _ hab => hab.1) hxy),
    Simulation.rel_getD (Simulation.rel_map (fun _ _ hab => hab.2) hxy) h⟩

theorem Refines.step (o : CircularOp) (h : s.Refines w) :
    (CircularStreamBuf.step o s).1 = (windowStep o w).1 ∧
      (CircularStreamBuf.step o s).2.Refines (windowStep o w).2 := by
  have hsize : s.size = w.items.length := by
    rw [← size_toBuf]
    exact h.2.size_eq
  have hcap : s.bufSize = w.cap := h.2.bufSize_eq
  cases o with
  | sputc c =>
    have hc := h.sputc c
    exact ⟨by simp only [CircularStreamBuf.step, windowStep, Simulation.rel_isSome_eq hc],
      Simulation.rel_getD hc h⟩
  | sputn cs =>
    obtain ⟨h1, h2⟩ := h.sputn cs
    exact ⟨by simp only [CircularStreamBuf.step, windowStep, h1], h2⟩
  | sbumpc =>
    obtain ⟨h1, h2⟩ := h.partial h.sbumpc
    exact ⟨by simp only [CircularStreamBuf.step, windowStep, h1], h2⟩
  | sgetn n =>
    obtain ⟨h1, h2⟩ := h.sgetn n
    exact ⟨by simp only [CircularStreamBuf.step, windowStep, h1], h2⟩
  | consume n => exact ⟨rfl, h.consume n⟩
  | seekpos pos modeIn =>
    obtain ⟨h1, h2⟩ := h.partial (h.seekpos pos modeIn)
    exact ⟨by simp only [CircularStreamBuf.step, windowStep, h1], h2⟩
  | seekoff off way modeIn =>
    obtain ⟨h1, h2⟩ := h.partial (h.seekoff off way modeIn)
    exact ⟨by simp only [CircularStreamBuf.step, windowStep, h1], h2⟩
  | size => exact ⟨by simp only [CircularStreamBuf.step, windowStep, hsize], h⟩
  | freespace => exact ⟨by simp only [CircularStreamBuf.step, windowStep, freespace, hsize, hcap], h⟩
  | putpos =>
    have hppos : s.ppos = w.putPos := h.2.ppos_eq
    exact ⟨by simp only [CircularStreamBuf.step, windowStep, putpos, hppos], h⟩
  | showmanyc =>
    exact ⟨by simp only [CircularStreamBuf.step, windowStep, h.1.showmanyc_eq, h.2.length_avail], h⟩

theorem refines_init (maximumSize : Nat) :
    (init maximumSize).Refines
      (Window.empty (CircularBuf.init maximumSize).bufSize (CircularBuf.init maximumSize).size_pos) := by
  have hsize : (init maximumSize).toBuf.size = 0 := by
    show (0 % _ + _ - 0) % _ = 0
    rw [Nat.zero_mod, Nat.zero_add, Nat.sub_zero, Nat.mod_self]
  refine ⟨⟨Nat.le_refl 0, Nat.zero_le _, Nat.zero_le _, Nat.sub_le _ _, Nat.zero_le _, ?_⟩,
    ⟨rfl, rfl, ?_, (Nat.zero_mod _).symm⟩⟩
  · rw [CircularBuf.freespace, hsize]
    exact Nat.le_refl _
  · show _ = []
    rw [← List.length_eq_zero_iff, CircularBuf.length_content, hsize]

theorem Refines.rewind (h : s.Refines w) :
    ∃ p s', s.seekoff 0 .beg true = some (p, s') ∧ ∀ n, (CircularStreamBuf.sgetn n s').1 = w.items.take n := by
  have hpos : (((windowSeekBase w .beg : Int) + 0) % w.cap).toNat = w.begin := by
    rw [Int.add_zero, ← Int.natCast_emod, windowSeekBase, Nat.mod_eq_of_lt w.begin_lt, Int.toNat_natCast]
  have hseek := h.seekoff 0 .beg true
  rw [hpos, windowSeekTo, if_pos rfl, w.seek_begin, Option.map_some] at hseek
  rcases hs : s.seekoff 0 .beg true with _ | ⟨p, s'⟩
  · rw [hs] at hseek
    cases hseek
  · rw [hs] at hseek
    cases hseek with
    | some hab =>
      refine ⟨p, s', rfl, fun n => ?_⟩
      rw [(hab.2.sgetn n).1, Window.nextN_fst]
      exact congrArg (List.take n) List.drop_zero

theorem Refines.sputn_rewind (h : s.Refines w) (cs : List UInt8) (hroom : cs.length ≤ s.freespace) :
    (CircularStreamBuf.sputn cs s).1 = cs.length ∧
      ∃ p₀ s₀ p₁ s₁, s.seekoff 0 .beg true = some (p₀, s₀) ∧
        (CircularStreamBuf.sputn cs s).2.seekoff 0 .beg true = some (p₁, s₁) ∧
        (CircularStreamBuf.sgetn (s.size + cs.length) s₁).1 = (CircularStreamBuf.sgetn s.size s₀).1 ++ cs := by
  have hsize : s.size = w.items.length := by
    rw [← size_toBuf]
    exact h.2.size_eq
  have hcap : s.bufSize = w.cap := h.2.bufSize_eq
  have hroom' : w.items.length + cs.length < w.cap := by
    have := w.length_lt
    rw [freespace, hsize, hcap] at hroom
    omega
  obtain ⟨hn, hitems, -, -⟩ := w.pushAll_of_room cs hroom'
  obtain ⟨hput, h₁⟩ := h.sputn cs
  obtain ⟨p₀, s₀, hs₀, hget₀⟩ := h.rewind
  obtain ⟨p₁, s₁, hs₁, hget₁⟩ := h₁.rewind
  refine ⟨hput.trans hn, p₀, s₀, p₁, s₁, hs₀, hs₁, ?_⟩
  rw [hget₁, hget₀, hitems, hsize, List.take_of_length_le (Nat.le_refl _),
    List.take_of_length_le (by rw [List.length_append])]

end CircularStreamBuf

/-- Every run of calls on a new `circularbuf` gets the replies of a bounded
FIFO window, and the bytes it holds are the window's: the buffer holds at most
`buf_size_ - 1` bytes, a byte is put exactly when there is room and appended,
a read takes the bytes in the order they were put, and a seek succeeds
exactly for the positions from `begin_` to the put position. -/
theorem run_refines_window (maximumSize : Nat) (ops : List CircularOp) :
    let s : List CircularReply × CircularStreamBuf :=
      Simulation.run CircularStreamBuf.step ops (CircularStreamBuf.init maximumSize)
    let w := Simulation.run windowStep ops
      (Window.empty (CircularBuf.init maximumSize).bufSize (CircularBuf.init maximumSize).size_pos)
    s.1 = w.1 ∧ s.2.toBuf.content = w.2.items ∧ s.2.size = w.2.items.length ∧ s.2.size ≤ s.2.bufSize - 1 := by
  intro s w
  have hsim : s.1 = w.1 ∧ s.2.Refines w.2 :=
    Simulation.run_simulation (fun o _ _ h => CircularStreamBuf.Refines.step o h) ops
      (CircularStreamBuf.refines_init maximumSize)
  obtain ⟨hreplies, -, hrep⟩ := hsim
  have hsize : s.2.size = w.2.items.length := by
    rw [← CircularStreamBuf.size_toBuf]
    exact hrep.size_eq
  refine ⟨hreplies, hrep.content_eq, hsize, ?_⟩
  have hcap : s.2.bufSize = w.2.cap := hrep.bufSize_eq
  rw [hsize, hcap]
  exact Nat.le_sub_one_of_lt w.2.length_lt

/-- From every state a run of calls reaches, `sputn` puts all the bytes that
fit, and a read of everything from `begin_` after a rewind returns what it
returned before the bytes were put, followed by them: the buffer loses,
duplicates and reorders nothing. -/
theorem sputn_rewind_sgetn (maximumSize : Nat) (ops : List CircularOp) (cs : List UInt8) :
    let s : CircularStreamBuf := (Simulation.run CircularStreamBuf.step ops (CircularStreamBuf.init maximumSize)).2
    cs.length ≤ s.freespace →
      (CircularStreamBuf.sputn cs s).1 = cs.length ∧
        ∃ p₀ s₀ p₁ s₁, s.seekoff 0 .beg true = some (p₀, s₀) ∧
          (CircularStreamBuf.sputn cs s).2.seekoff 0 .beg true = some (p₁, s₁) ∧
          (CircularStreamBuf.sgetn (s.size + cs.length) s₁).1 = (CircularStreamBuf.sgetn s.size s₀).1 ++ cs := by
  intro s hroom
  obtain ⟨-, h⟩ := Simulation.run_simulation (fun o _ _ h => CircularStreamBuf.Refines.step o h) ops
    (CircularStreamBuf.refines_init maximumSize)
  exact CircularStreamBuf.Refines.sputn_rewind h cs hroom

/-- Two bytes put and one read on a new buffer of eight bytes: a third byte fits and is put. -/
theorem sputn_rewind_sgetn_after_read :
    let s : CircularStreamBuf :=
      (Simulation.run CircularStreamBuf.step [.sputn [1, 2], .sbumpc] (CircularStreamBuf.init 0)).2
    [3].length ≤ s.freespace ∧ (CircularStreamBuf.sputn [3] s).1 = 1 :=
  ⟨by decide, (sputn_rewind_sgetn 0 [.sputn [1, 2], .sbumpc] [3] (by decide)).1⟩

end Multiverse.Walleve
