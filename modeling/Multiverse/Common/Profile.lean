import Multiverse.Walleve.CompactTV
import Multiverse.Common.Serialize

/-! # Fork profiles

`CProfile` of `common/profile.h` names a fork: its version, name and symbol,
flags, fees, owner, and for a fork with a parent the parent's hash and the
height it joins at. `Save` pushes the fields into a `CWalleveCompactTagValue`
and encodes it; `Load` decodes, then reads each field back with `Get`, taking
`hashParent = 0` and `nJointHeight = -1` where a fork has no parent.

A profile whose fields fit their C++ types, of version 1, with a name and a
symbol of at most 255 bytes and no joint height without a parent, is what
`Load` reads from what `Save` writes (`load_save`). The integer fields go
through the `int64` of the tag-value map and back: `Get` copies the low bytes
into the field, so a negative `int64` or `int32` keeps its sign.
-/

namespace Multiverse

open CWalleveCompactTagValue

def PROFILE_VERSION : Nat := 0
def PROFILE_NAME : Nat := 1
def PROFILE_SYMBOL : Nat := 2
def PROFILE_FLAG : Nat := 3
def PROFILE_MINTXFEE : Nat := 4
def PROFILE_MINTREWARD : Nat := 5
def PROFILE_OWNER : Nat := 6
def PROFILE_PARENT : Nat := 7
def PROFILE_JOINTHEIGHT : Nat := 8

/-- The fields of `CProfile`: `uint16`, two strings as their bytes, `uint8`,
two `int64`, a destination, a `uint256` and an `int32`. -/
structure CProfile where
  nVersion : Nat
  strName : List UInt8
  strSymbol : List UInt8
  nFlag : Nat
  nMinTxFee : Int
  nMintReward : Int
  destOwner : CDestination
  hashParent : Nat
  nJointHeight : Int
  deriving DecidableEq, Repr

namespace CProfile

/-- The value of an `int32` stored in four bytes. -/
def toInt32 (n : Nat) : Int := if n < 2 ^ 31 then n else (n : Int) - 2 ^ 32

/-- `Save(vchProfile)`: the fields pushed by tag, the parent and the joint
height only for a fork with a parent; the owner as `os << prefix << data`
writes it. -/
def save (p : CProfile) : Except String (List UInt8) := do
  let encoder ← CWalleveCompactTagValue.empty.push PROFILE_VERSION (.fundamental 2 p.nVersion)
  let encoder ← encoder.push PROFILE_NAME (.vector p.strName)
  let encoder ← encoder.push PROFILE_SYMBOL (.vector p.strSymbol)
  let encoder ← encoder.push PROFILE_FLAG (.fundamental 1 p.nFlag)
  let encoder ← encoder.push PROFILE_MINTXFEE (.fundamental 8 p.nMinTxFee)
  let encoder ← encoder.push PROFILE_MINTREWARD (.fundamental 8 p.nMintReward)
  let encoder ← encoder.push PROFILE_OWNER (.vector p.destOwner.encode)
  let encoder ←
    if p.hashParent ≠ 0 then do
      let encoder ← encoder.push PROFILE_PARENT (.object (LittleEndian.encode 32 p.hashParent))
      encoder.push PROFILE_JOINTHEIGHT (.fundamental 4 p.nJointHeight)
    else pure encoder
  encoder.encode

/-- The part of `Load` after `Decode`: the profile, `none` where `Load`
returns false, and the text of an exception it catches. -/
def loadFields (decoder : CWalleveCompactTagValue) : Except String (Option CProfile) := do
  let some version ← decoder.getValue PROFILE_VERSION 2 | pure none
  let nVersion := LittleEndian.decode version
  if nVersion ≠ 1 then return none
  let some strName ← decoder.getBytes PROFILE_NAME | pure none
  let some strSymbol ← decoder.getBytes PROFILE_SYMBOL | pure none
  let some flag ← decoder.getValue PROFILE_FLAG 1 | pure none
  let some fee ← decoder.getValue PROFILE_MINTXFEE 8 | pure none
  let some reward ← decoder.getValue PROFILE_MINTREWARD 8 | pure none
  let hashParent := (← decoder.getValue PROFILE_PARENT 32).elim 0 LittleEndian.decode
  let some nJointHeight ←
      (fun height => match height with
        | some bytes => some (toInt32 (LittleEndian.decode bytes))
        | none => if hashParent ≠ 0 then none else some (-1)) <$>
        decoder.getValue PROFILE_JOINTHEIGHT 4
    | pure none
  let destOwner ← match ← decoder.getBytes PROFILE_OWNER with
    | some vchDestOwner =>
      match CDestination.read vchDestOwner with
      | some (destOwner, _) => pure destOwner
      | none => throw "out of range"
    | none => pure CDestination.null
  pure (some ⟨nVersion, strName, strSymbol, LittleEndian.decode flag, toInt64 (LittleEndian.decode fee),
    toInt64 (LittleEndian.decode reward), destOwner, hashParent, nJointHeight⟩)

/-- `Load(vchProfile)`: `.error i` where `Decode` reads the index `i` of its
input past the end, and else the profile, or `none` where `Load` returns false. -/
def load (vchProfile : List UInt8) : Except Nat (Option CProfile) :=
  match decode vchProfile with
  | .error (.readPastEnd i) => .error i
  | .error (.rangeError _) => .ok none
  | .ok decoder =>
    match loadFields decoder with
    | .ok profile => .ok profile
    | .error _ => .ok none

/-- Each field fits its C++ type. -/
structure WellFormed (p : CProfile) : Prop where
  nVersion : p.nVersion < 2 ^ 16
  nFlag : p.nFlag < 2 ^ 8
  nMinTxFee : -2 ^ 63 ≤ p.nMinTxFee ∧ p.nMinTxFee < 2 ^ 63
  nMintReward : -2 ^ 63 ≤ p.nMintReward ∧ p.nMintReward < 2 ^ 63
  destOwner : p.destOwner.WellFormed
  hashParent : p.hashParent < 2 ^ 256
  nJointHeight : -2 ^ 31 ≤ p.nJointHeight ∧ p.nJointHeight < 2 ^ 31

/-! ## The integer fields through the `int64` of the map -/

theorem bmod_emod_two_pow_64 (n : Int) : Int.bmod n (2 ^ 64) % 2 ^ 64 = n % 2 ^ 64 := by
  rw [Int.bmod_def]
  split_ifs <;> omega

theorem decode_unsigned {w n : Nat} (hw : w ≤ 8) (hn : n < 256 ^ w) :
    LittleEndian.decode (LittleEndian.encode w (Int.bmod n (2 ^ 64) % 2 ^ 64).toNat) = n := by
  have hpow : 256 ^ w ≤ 2 ^ 64 :=
    calc 256 ^ w ≤ 256 ^ 8 := Nat.pow_le_pow_right (by norm_num) hw
      _ = 2 ^ 64 := by norm_num
  rw [LittleEndian.decode_encode, bmod_emod_two_pow_64]
  have hlt : (n : Int) < 2 ^ 64 := by exact_mod_cast lt_of_lt_of_le hn hpow
  rw [Int.emod_eq_of_lt (by omega) hlt, Int.toNat_natCast, Nat.mod_eq_of_lt hn]

theorem decode_int64 {n : Int} (h1 : -2 ^ 63 ≤ n) (h2 : n < 2 ^ 63) :
    toInt64 (LittleEndian.decode (LittleEndian.encode 8 (Int.bmod n (2 ^ 64) % 2 ^ 64).toNat)) = n := by
  rw [LittleEndian.decode_encode, bmod_emod_two_pow_64, toInt64]
  split_ifs <;> omega

theorem decode_int32 {n : Int} (h1 : -2 ^ 31 ≤ n) (h2 : n < 2 ^ 31) :
    toInt32 (LittleEndian.decode (LittleEndian.encode 4 (Int.bmod n (2 ^ 64) % 2 ^ 64).toNat)) = n := by
  rw [LittleEndian.decode_encode, bmod_emod_two_pow_64, toInt32]
  split_ifs <;> omega

/-! ## What `Load` reads from what `Save` writes -/

/-- The entries `Save` pushes, in order: those of every fork, then the
parent and the joint height of a fork with a parent. -/
def savedEntries (p : CProfile) : List (Nat × (Nat × Value)) :=
  [(PROFILE_VERSION, WALLEVE_COMPACT_TYPE_INT16, .int (Int.bmod p.nVersion (2 ^ 64))),
    (PROFILE_NAME, WALLEVE_COMPACT_TYPE_BINARY, .bytes p.strName),
    (PROFILE_SYMBOL, WALLEVE_COMPACT_TYPE_BINARY, .bytes p.strSymbol),
    (PROFILE_FLAG, WALLEVE_COMPACT_TYPE_INT8, .int (Int.bmod p.nFlag (2 ^ 64))),
    (PROFILE_MINTXFEE, WALLEVE_COMPACT_TYPE_INT64, .int (Int.bmod p.nMinTxFee (2 ^ 64))),
    (PROFILE_MINTREWARD, WALLEVE_COMPACT_TYPE_INT64, .int (Int.bmod p.nMintReward (2 ^ 64))),
    (PROFILE_OWNER, WALLEVE_COMPACT_TYPE_BINARY, .bytes p.destOwner.encode)] ++
  if p.hashParent ≠ 0 then
    [(PROFILE_PARENT, WALLEVE_COMPACT_TYPE_INT256, .bytes (LittleEndian.encode 32 p.hashParent)),
      (PROFILE_JOINTHEIGHT, WALLEVE_COMPACT_TYPE_INT32, .int (Int.bmod p.nJointHeight (2 ^ 64)))]
  else []

/-- The encoder `Save` fills, where every push succeeds. -/
def pushed (p : CProfile) : CWalleveCompactTagValue :=
  ⟨p.savedEntries.foldl (fun m e => m.insertNew e.1 e.2) SortedMap.empty⟩

theorem find_pushed (p : CProfile) (tag : Nat) :
    p.pushed.mapTagValue.find tag = SortedMap.findList tag p.savedEntries := by
  rw [pushed, SortedMap.find_foldl_insertNew, SortedMap.find_empty, Option.none_or]

theorem save_eq {p : CProfile} (hname : p.strName.length ≤ 255) (hsymbol : p.strSymbol.length ≤ 255) :
    p.save = p.pushed.encode := by
  have hname : ¬p.strName.length > 255 := by omega
  have hsymbol : ¬p.strSymbol.length > 255 := by omega
  unfold save pushed savedEntries
  by_cases hparent : p.hashParent = 0 <;>
    simp [hparent, CWalleveCompactTagValue.push, intType, SortedMap.find_insertNew, PROFILE_VERSION,
      PROFILE_NAME, PROFILE_SYMBOL, PROFILE_FLAG, PROFILE_MINTXFEE, PROFILE_MINTREWARD, PROFILE_OWNER,
      PROFILE_PARENT, PROFILE_JOINTHEIGHT, hname, hsymbol, CDestination.length_encode,
      CWalleveCompactTagValue.empty]

theorem wellFormed_pushed {p : CProfile} (hname : p.strName.length ≤ 255) (hsymbol : p.strSymbol.length ≤ 255) :
    p.pushed.WellFormed := by
  refine CWalleveCompactTagValue.WellFormed.foldl_insertNew ⟨fun _ h => absurd h List.not_mem_nil⟩ fun e he => ?_
  have howner : p.destOwner.encode.length < 256 := by simp
  have hparent : (LittleEndian.encode 32 p.hashParent).length = 32 := by simp
  simp only [savedEntries, List.cons_append, List.nil_append, List.mem_cons] at he
  rcases he with rfl | rfl | rfl | rfl | rfl | rfl | rfl | he
  case inr.inr.inr.inr.inr.inr.inr =>
    split_ifs at he
    · rcases List.mem_pair.mp he with rfl | rfl
      · exact ⟨by decide, .inr ⟨rfl, hparent⟩⟩
      · exact ⟨by decide, by decide⟩
    · exact absurd he List.not_mem_nil
  all_goals first
    | exact ⟨by decide, by decide⟩
    | exact ⟨by decide, .inl ⟨rfl, by omega⟩⟩

theorem width_le_intLength {p : CProfile} {tag type : Nat} {n : Int}
    (h : p.pushed.mapTagValue.find tag = some (type, .int n)) :
    (tag = PROFILE_VERSION → 2 ≤ intLength type) ∧ (tag = PROFILE_FLAG → 1 ≤ intLength type) ∧
      (tag = PROFILE_MINTXFEE → 8 ≤ intLength type) ∧ (tag = PROFILE_MINTREWARD → 8 ≤ intLength type) ∧
      tag ≠ PROFILE_PARENT ∧ (tag = PROFILE_JOINTHEIGHT → 4 ≤ intLength type) := by
  have hmem := SortedMap.mem_of_findList_eq_some ((find_pushed p tag).symm.trans h)
  simp only [savedEntries, List.cons_append, List.nil_append, List.mem_cons] at hmem
  rcases hmem with he | he | he | he | he | he | he | he
  case inr.inr.inr.inr.inr.inr.inr =>
    split_ifs at he
    · rcases List.mem_pair.mp he with he | he <;>
        obtain ⟨rfl, rfl, hv⟩ := Prod.ext_iff.mp he |>.imp id Prod.ext_iff.mp
      · cases hv
      · dsimp only
        decide
    · exact absurd he List.not_mem_nil
  all_goals
    obtain ⟨rfl, rfl, -⟩ := Prod.ext_iff.mp he |>.imp id Prod.ext_iff.mp
    dsimp only
    decide

theorem loadFields_pushed {p : CProfile} (hwf : p.WellFormed) (hversion : p.nVersion = 1)
    (hjoint : p.hashParent = 0 → p.nJointHeight = -1) : loadFields p.pushed = .ok (some p) := by
  obtain ⟨version, hversionGet, hv⟩ : ∃ version, p.pushed.getValue PROFILE_VERSION 2 = .ok (some version) ∧
      LittleEndian.decode version = 1 := by
    refine ⟨_, getValue_int 2 (by rw [find_pushed]; rfl) (by decide) (by decide), ?_⟩
    rw [decode_unsigned (by decide) (by have := hwf.nVersion; omega), hversion]
  obtain ⟨flag, hflagGet, hf⟩ : ∃ flag, p.pushed.getValue PROFILE_FLAG 1 = .ok (some flag) ∧
      LittleEndian.decode flag = p.nFlag :=
    ⟨_, getValue_int 1 (by rw [find_pushed]; rfl) (by decide) (by decide),
      decode_unsigned (by decide) (by have := hwf.nFlag; omega)⟩
  obtain ⟨fee, hfeeGet, hfee⟩ : ∃ fee, p.pushed.getValue PROFILE_MINTXFEE 8 = .ok (some fee) ∧
      toInt64 (LittleEndian.decode fee) = p.nMinTxFee :=
    ⟨_, getValue_int 8 (by rw [find_pushed]; rfl) (by decide) (by decide),
      decode_int64 hwf.nMinTxFee.1 hwf.nMinTxFee.2⟩
  obtain ⟨reward, hrewardGet, hreward⟩ : ∃ reward, p.pushed.getValue PROFILE_MINTREWARD 8 = .ok (some reward) ∧
      toInt64 (LittleEndian.decode reward) = p.nMintReward :=
    ⟨_, getValue_int 8 (by rw [find_pushed]; rfl) (by decide) (by decide),
      decode_int64 hwf.nMintReward.1 hwf.nMintReward.2⟩
  have hname : p.pushed.getBytes PROFILE_NAME = .ok (some p.strName) := getBytes_binary (by rw [find_pushed]; rfl)
  have hsymbol : p.pushed.getBytes PROFILE_SYMBOL = .ok (some p.strSymbol) :=
    getBytes_binary (by rw [find_pushed]; rfl)
  have hownerGet : p.pushed.getBytes PROFILE_OWNER = .ok (some p.destOwner.encode) :=
    getBytes_binary (by rw [find_pushed]; rfl)
  have howner := CDestination.read_encode_append hwf.destOwner []
  rw [List.append_nil] at howner
  unfold loadFields
  rw [hversionGet, hname, hsymbol, hflagGet, hfeeGet, hrewardGet, hownerGet]
  simp only [Except.ok_bind, hv, hf, hfee, hreward, howner, ne_eq, not_true_eq_false, if_false]
  -- the parent and the joint height: both pushed, or neither
  by_cases hp : p.hashParent = 0
  · have hparent : p.pushed.mapTagValue.find PROFILE_PARENT = none := by
      rw [find_pushed, savedEntries, if_neg (not_not.mpr hp), List.append_nil]; rfl
    have hheight : p.pushed.mapTagValue.find PROFILE_JOINTHEIGHT = none := by
      rw [find_pushed, savedEntries, if_neg (not_not.mpr hp), List.append_nil]; rfl
    rw [getValue_none hparent, getValue_none hheight]
    cases p
    simp only at hversion hp hjoint ⊢
    subst hversion hp
    rw [hjoint rfl]
    rfl
  · obtain ⟨parent, hparentGet, hparent⟩ : ∃ parent, p.pushed.getValue PROFILE_PARENT 32 = .ok (some parent) ∧
        LittleEndian.decode parent = p.hashParent := by
      refine ⟨_, getValue_int256 (by rw [find_pushed, savedEntries, if_pos hp]; rfl), ?_⟩
      rw [List.take_of_length_le (by simp), LittleEndian.decode_encode,
        Nat.mod_eq_of_lt (by have := hwf.hashParent; omega)]
    obtain ⟨height, hheightGet, hheight⟩ : ∃ height, p.pushed.getValue PROFILE_JOINTHEIGHT 4 = .ok (some height) ∧
        toInt32 (LittleEndian.decode height) = p.nJointHeight :=
      ⟨_, getValue_int 4 (by rw [find_pushed, savedEntries, if_pos hp]; rfl) (by decide) (by decide),
        decode_int32 hwf.nJointHeight.1 hwf.nJointHeight.2⟩
    rw [hparentGet, hheightGet]
    simp only [Except.ok_bind, Except.map_ok, Option.elim_some, hparent, hheight]
    cases p
    simp only at hversion ⊢
    subst hversion
    rfl

theorem loadFields_reread {p : CProfile} {decoder : CWalleveCompactTagValue}
    (hfind : ∀ tag, decoder.mapTagValue.find tag =
      (p.pushed.mapTagValue.find tag).map fun e => (e.1, e.2.reread e.1)) :
    loadFields decoder = loadFields p.pushed := by
  have hwidth : ∀ {tag size : Nat},
      (∀ type n, p.pushed.mapTagValue.find tag = some (type, .int n) → size ≤ intLength type) →
      decoder.getValue tag size = p.pushed.getValue tag size :=
    fun hsize => getValue_reread (hfind _) hsize
  unfold loadFields
  rw [@hwidth PROFILE_VERSION 2 fun _ _ h => (width_le_intLength h).1 rfl,
    getBytes_reread (hfind PROFILE_NAME), getBytes_reread (hfind PROFILE_SYMBOL),
    @hwidth PROFILE_FLAG 1 fun _ _ h => (width_le_intLength h).2.1 rfl,
    @hwidth PROFILE_MINTXFEE 8 fun _ _ h => (width_le_intLength h).2.2.1 rfl,
    @hwidth PROFILE_MINTREWARD 8 fun _ _ h => (width_le_intLength h).2.2.2.1 rfl,
    @hwidth PROFILE_PARENT 32 fun _ _ h => absurd rfl (width_le_intLength h).2.2.2.2.1,
    @hwidth PROFILE_JOINTHEIGHT 4 fun _ _ h => (width_le_intLength h).2.2.2.2.2 rfl,
    getBytes_reread (hfind PROFILE_OWNER)]

/-- What `Save` writes, `Load` reads back field for field. -/
theorem load_save {p : CProfile} (hwf : p.WellFormed) (hversion : p.nVersion = 1)
    (hname : p.strName.length ≤ 255) (hsymbol : p.strSymbol.length ≤ 255)
    (hjoint : p.hashParent = 0 → p.nJointHeight = -1) :
    ∃ vchProfile, p.save = .ok vchProfile ∧ load vchProfile = .ok (some p) := by
  obtain ⟨bs, henc, decoder, hdec, hfind⟩ := decode_encode (wellFormed_pushed hname hsymbol)
  refine ⟨bs, (save_eq hname hsymbol).trans henc, ?_⟩
  rw [load, hdec]
  dsimp only
  rw [loadFields_reread hfind, loadFields_pushed hwf hversion hjoint]

/-- A fork with a parent, negative fees and a negative joint height. -/
theorem load_save_of_child_fork :
    let p : CProfile := ⟨1, [77, 86], [77], 3, -5, 100, ⟨2, 7⟩, 9, -3⟩
    ∃ vchProfile, p.save = .ok vchProfile ∧ load vchProfile = .ok (some p) :=
  load_save ⟨by decide, by decide, by decide, by decide, ⟨by decide, by decide⟩, by decide, by decide⟩ rfl
    (by decide) (by decide) (by decide)

end CProfile

end Multiverse
