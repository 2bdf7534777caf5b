import Mathlib.Algebra.BigOperators.Group.Finset.Basic
import Mathlib.Algebra.Module.BigOperators
import Mathlib.Data.Finset.Sort
import Multiverse.Lib.Bitmap
import Multiverse.Lib.LittleEndian
import Multiverse.Mpvss.SecretShare

/-! # Multi-signatures

`CryptoMultiSign` and `CryptoMultiVerify` of `crypto/crypto.cpp`, a
multi-signature over a set of public keys `A1 ... An` (a `std::set<uint256>`,
iterated in increasing order). A signature is `(index, R, S)`: a bitmap of the
keys that have signed, by their position in the set, then the sums
`R = Σ ri * B` and `S = Σ (ri + H(X, apk, M) * hi * si)` over them, where
`hi = H(Ai, A1, ..., An)`, `apk = Σ hi * Ai` over all keys and `si` is the
clamped secret of key `i`. Each signer adds its share unless its bit is
already set, and the verifier checks `S * B = R + H(X, apk, M) * Σ hi * Ai`
over the keys whose bits are set.

The points are the group of prime order `L` generated by the curve25519 base
point: a module over the scalars `CSC25519`, with the field arithmetic of
`CEdwards25519` left out and its packing to 32 bytes given by `Curve`, whose
round trip `Unpack (Pack P) = P` is a field of the structure. The hash functions
are parameters. A public key is derived from its seed as libsodium does it:
the packed point of the clamped seed hash times the base point.
-/

namespace Multiverse.Crypto

open LittleEndian Bitmap
open Multiverse.Mpvss (SC25519 L)

theorem L_lt : L < 2 ^ 256 := by
  unfold L
  decide

instance : NeZero L := ⟨by norm_num [L]⟩

/-- `CSC25519(const uint8_t* md32)`: 32 bytes, little-endian, reduced modulo `L`. -/
def scOfBytes (md32 : List UInt8) : SC25519 := (decode (md32.take 32) : SC25519)

/-- `CSC25519::Pack`: the 32 bytes of the reduced value. -/
def scPack (s : SC25519) : List UInt8 := encode 32 s.val

theorem scOfBytes_scPack_append (s : SC25519) (rest : List UInt8) :
    scOfBytes (scPack s ++ rest) = s := by
  have hlt : s.val < 256 ^ 32 := by
    rw [show (256 : Nat) ^ 32 = 2 ^ 256 by norm_num]
    exact lt_trans (ZMod.val_lt s) L_lt
  rw [scOfBytes, scPack, List.take_left' (length_encode 32 _), decode_encode, Nat.mod_eq_of_lt hlt,
    ZMod.natCast_zmod_val]

/-- The points of `CEdwards25519` the keys live in: the group generated by the
base point, a module over the scalars. `pack` and `unpack` are `Pack` and
`Unpack` on the `uint256` of the 32 bytes, and unpacking a packed point gives
it back. -/
structure Curve (E : Type) [AddCommGroup E] [Module SC25519 E] where
  base : E
  pack : E → Nat
  unpack : Nat → Option E
  pack_lt : ∀ P, pack P < 2 ^ 256
  unpack_pack : ∀ P, unpack (pack P) = some P

/-- `crypto_generichash_blake2b` with 32 bytes out, and `crypto_hash_sha512`. -/
structure Hashes where
  blake2b : List UInt8 → List UInt8
  sha512 : List UInt8 → List UInt8

/-- `CCryptoKey`: the seed and the public key, as `crypto_sign_ed25519_keypair` fills them. -/
structure CCryptoKey where
  secret : Nat
  pubkey : Nat
  deriving DecidableEq, Repr

section Model

variable {E : Type} [AddCommGroup E] [Module SC25519 E] (crv : Curve E) (hs : Hashes)

theorem decode_pack (P : E) : decode (encode 32 (crv.pack P)) = crv.pack P := by
  rw [decode_encode, Nat.mod_eq_of_lt (lt_of_lt_of_le (crv.pack_lt P) (by norm_num))]

/-- `ClampPrivKey`: the first half of the seed's SHA-512, clamped. -/
def clampPrivKey (privkey : Nat) : SC25519 :=
  let hash := hs.sha512 (encode 32 privkey)
  let hash := hash.modify 0 (· &&& 248)
  let hash := hash.modify 31 fun b => (b &&& 127) ||| 64
  scOfBytes hash

/-- A key pair as libsodium derives it: the public key is the packed point of
the clamped seed hash times the base point. -/
def Derived (key : CCryptoKey) : Prop :=
  key.pubkey = crv.pack (clampPrivKey hs key.secret • crv.base)

/-- `MultiSignPreApk`: 32 zero bytes, then every key of the set in order. -/
def multiSignPreApk (setPubKey : Finset Nat) : List UInt8 :=
  List.replicate 32 0 ++ (setPubKey.sort (· ≤ ·)).flatMap (encode 32)

/-- `hi = H(Ai, A1, ..., An)`: the key copied over the zero bytes of
`MultiSignPreApk`, hashed; `MultiSignApk`, `CryptoMultiSign` and
`CryptoMultiVerify` compute it alike. -/
def multiSignCoeff (setPubKey : Finset Nat) (key : Nat) : SC25519 :=
  scOfBytes (hs.blake2b (encode 32 key ++ (multiSignPreApk setPubKey).drop 32))

/-- `MultiSignApk`: `H(Ai, A1, ..., An) * Ai` summed over the keys of
`setPartKey` and packed, `none` when a key does not unpack. -/
def multiSignApk (setPubKey setPartKey : Finset Nat) : Option Nat :=
  ((setPartKey.sort (· ≤ ·)).foldlM (fun apk key =>
    (crv.unpack key).map fun point => apk + multiSignCoeff hs setPubKey key • point) 0).map crv.pack

/-- `MultiSignHash`: `H(X, apk, M)`. -/
def multiSignHash (X : List UInt8) (apk : Nat) (M : List UInt8) : SC25519 :=
  scOfBytes (hs.blake2b (X ++ encode 32 apk ++ M))

/-- `MultiSignR`: `r = H(H(sk, pk), M)`, over the 64 bytes of the key. -/
def multiSignR (key : CCryptoKey) (M : List UInt8) : SC25519 :=
  scOfBytes (hs.blake2b (hs.blake2b (encode 32 key.secret ++ encode 32 key.pubkey) ++ M))

/-- `distance(setPubKey.begin(), setPubKey.find(key))`: the key's position in the set. -/
def keyIndex (setPubKey : Finset Nat) (key : Nat) : Nat :=
  (setPubKey.sort (· ≤ ·)).idxOf key

/-- `R.Pack(&vchSig[nIndexLen]); S.Pack(&vchSig[nIndexLen + 32])` after the bitmap. -/
def packSig (pIndex : List UInt8) (R : E) (S : SC25519) : List UInt8 :=
  pIndex ++ encode 32 (crv.pack R) ++ scPack S

/-- The `(vchSig, R, S)` a signer starts from: an empty `vchSig` is resized to
zeros with `R` neutral and `S = 0`; otherwise it must have the size of a
signature and its `R` must unpack. -/
def unpackSig (nIndexLen : Nat) (vchSig : List UInt8) : Option (List UInt8 × E × SC25519) :=
  if vchSig.isEmpty then some (List.replicate (nIndexLen + 64) 0, 0, 0)
  else if vchSig.length ≠ nIndexLen + 64 then none
  else (crv.unpack (decode ((vchSig.drop nIndexLen).take 32))).map fun R =>
    (vchSig, R, scOfBytes (vchSig.drop (nIndexLen + 32)))

/-- `CryptoMultiSign`: the result and `vchSig` as the call leaves it. A key not
yet in the bitmap adds `Ri = ri * B` to `R` and `ri + H(X, apk, M) * hi * si` to
`S` and sets its bit; a key already in it only writes `R` and `S` back. -/
def cryptoMultiSign (setPubKey : Finset Nat) (privkey : CCryptoKey) (X M vchSig : List UInt8) :
    Bool × List UInt8 :=
  if setPubKey = ∅ then (false, vchSig) else
  let nIndexLen := (setPubKey.card - 1) / 8 + 1
  match unpackSig crv nIndexLen vchSig with
  | none => (false, vchSig)
  | some (sig, R, S) =>
    match multiSignApk crv hs setPubKey setPubKey with
    | none => (false, sig)
    | some apk =>
      let hash := multiSignHash hs X apk M
      if privkey.pubkey ∉ setPubKey then (false, sig) else
      let index := keyIndex setPubKey privkey.pubkey
      if testBit sig index then (true, packSig crv (sig.take nIndexLen) R S) else
      let ri := multiSignR hs privkey M
      let hi := multiSignCoeff hs setPubKey privkey.pubkey
      let si := clampPrivKey hs privkey.secret
      (true, packSig crv ((setBit sig index).take nIndexLen) (R + ri • crv.base) (S + (ri + hash * hi * si)))

/-- The loop of `CryptoMultiVerify` over the keys with their positions: a key
whose bit is set adds `hi * Ai` to `A` and joins `setPartKey`; one that does not
unpack ends the loop with `none`. -/
def verifyPartKey (setPubKey : Finset Nat) (pIndex : List UInt8) (acc : Option E × Finset Nat)
    (keyIdx : Nat × Nat) : Option E × Finset Nat :=
  match acc.1 with
  | none => acc
  | some A =>
    if testBit pIndex keyIdx.2 then
      match crv.unpack keyIdx.1 with
      | none => (none, acc.2)
      | some Ai => (some (A + multiSignCoeff hs setPubKey keyIdx.1 • Ai), insert keyIdx.1 acc.2)
    else acc

variable [DecidableEq E]

/-- `CryptoMultiVerify`: the result and `setPartKey` as the call leaves it. An
empty signature is accepted and leaves `setPartKey` alone. -/
def cryptoMultiVerify (setPubKey : Finset Nat) (X M vchSig : List UInt8) (setPartKey : Finset Nat) :
    Bool × Finset Nat :=
  if setPubKey = ∅ then (false, setPartKey)
  else if vchSig.isEmpty then (true, setPartKey) else
  let nIndexLen := (setPubKey.card - 1) / 8 + 1
  if vchSig.length ≠ nIndexLen + 64 then (false, setPartKey) else
  match crv.unpack (decode ((vchSig.drop nIndexLen).take 32)) with
  | none => (false, setPartKey)
  | some R =>
    let S := scOfBytes (vchSig.drop (nIndexLen + 32))
    match multiSignApk crv hs setPubKey setPubKey with
    | none => (false, setPartKey)
    | some apk =>
      let hash := multiSignHash hs X apk M
      match (setPubKey.sort (· ≤ ·)).zipIdx.foldl (verifyPartKey crv hs setPubKey vchSig) (some 0, ∅) with
      | (none, part) => (false, part)
      | (some A, part) => (decide (S • crv.base = R + hash • A), part)

/-- `vchSig` after each key of `signers` has run `CryptoMultiSign` in turn,
from an empty `vchSig`. -/
def multiSignSeq (setPubKey : Finset Nat) (X M : List UInt8) (signers : List CCryptoKey) : List UInt8 :=
  signers.foldl (fun vchSig key => (cryptoMultiSign crv hs setPubKey key X M vchSig).2) []

end Model

section Positions

variable (P : Finset Nat)

theorem keyIndex_lt {k : Nat} (hk : k ∈ P) : keyIndex P k < P.card := by
  rw [keyIndex, ← Finset.length_sort (· ≤ ·)]
  exact List.idxOf_lt_length_iff.mpr ((Finset.mem_sort _).mpr hk)

theorem keyIndex_inj {k k' : Nat} (hk : k ∈ P) : keyIndex P k = keyIndex P k' ↔ k = k' :=
  List.idxOf_inj ((Finset.mem_sort _).mpr hk)

theorem keyIndex_of_mem_zipIdx {ki : Nat × Nat} (h : ki ∈ (P.sort (· ≤ ·)).zipIdx) :
    keyIndex P ki.1 = ki.2 := by
  obtain ⟨hi, hget⟩ := List.getElem?_eq_some_iff.mp (List.mem_zipIdx_iff_getElem?.mp h)
  rw [keyIndex, ← hget]
  exact (Finset.sort_nodup P _).idxOf_getElem ki.2 hi

theorem div_lt_indexLen {i : Nat} (hi : i < P.card) : i / 8 < (P.card - 1) / 8 + 1 := by
  omega

/-- `pIndex` is the bitmap of the positions of the keys of `D`, over all its bits. -/
def IndexOf (D : Finset Nat) (pIndex : List UInt8) : Prop :=
  pIndex.length = (P.card - 1) / 8 + 1 ∧
    ∀ i < 8 * ((P.card - 1) / 8 + 1), testBit pIndex i = decide (∃ k ∈ D, keyIndex P k = i)

theorem indexOf_empty : IndexOf P ∅ (List.replicate ((P.card - 1) / 8 + 1) 0) :=
  ⟨List.length_replicate, fun i _ => by simp⟩

theorem IndexOf.setBit {D : Finset Nat} {pIndex : List UInt8} (h : IndexOf P D pIndex) {k : Nat}
    (hk : k ∈ P) : IndexOf P (insert k D) (Bitmap.setBit pIndex (keyIndex P k)) := by
  have hlen : keyIndex P k / 8 < pIndex.length := h.1 ▸ div_lt_indexLen P (keyIndex_lt P hk)
  refine ⟨(length_setBit _ _).trans h.1, fun i hi => ?_⟩
  rw [testBit_setBit hlen, h.2 i hi]
  simp only [Finset.mem_insert, exists_eq_or_imp, Bool.decide_or, Bool.or_comm]

theorem IndexOf.testBit_keyIndex {D : Finset Nat} {pIndex : List UInt8} (h : IndexOf P D pIndex)
    (hD : D ⊆ P) {k : Nat} (hk : k ∈ P) : testBit pIndex (keyIndex P k) = decide (k ∈ D) := by
  have hlt : keyIndex P k < 8 * ((P.card - 1) / 8 + 1) := by
    have := keyIndex_lt P hk
    omega
  rw [h.2 _ hlt]
  refine decide_eq_decide.mpr ⟨?_, fun hkD => ⟨k, hkD, rfl⟩⟩
  rintro ⟨k', hk'D, hk'⟩
  exact (keyIndex_inj P (hD hk'D)).mp hk' ▸ hk'D

theorem IndexOf.unique {D : Finset Nat} {p q : List UInt8} (hp : IndexOf P D p) (hq : IndexOf P D q) :
    p = q :=
  Bitmap.ext (hp.1.trans hq.1.symm) fun i hi => by
    rw [hp.1] at hi
    rw [hp.2 i hi, hq.2 i hi]

end Positions

section Signing

variable {E : Type} [AddCommGroup E] [Module SC25519 E] (crv : Curve E) (hs : Hashes)

theorem scOfBytes_scPack (s : SC25519) : scOfBytes (scPack s) = s := by
  simpa using scOfBytes_scPack_append s []

theorem length_packSig (pIndex : List UInt8) (R : E) (S : SC25519) :
    (packSig crv pIndex R S).length = pIndex.length + 64 := by
  simp [packSig, scPack]

theorem drop_packSig {pIndex : List UInt8} {n : Nat} (hlen : pIndex.length = n) (R : E) (S : SC25519) :
    (packSig crv pIndex R S).drop n = encode 32 (crv.pack R) ++ scPack S := by
  rw [packSig, List.append_assoc, List.drop_left' hlen]

theorem unpackSig_packSig {pIndex : List UInt8} {n : Nat} (hlen : pIndex.length = n) (R : E) (S : SC25519) :
    unpackSig crv n (packSig crv pIndex R S) = some (pIndex ++ (encode 32 (crv.pack R) ++ scPack S), R, S) := by
  have hsize : (packSig crv pIndex R S).length = n + 64 := hlen ▸ length_packSig crv pIndex R S
  have hne : (packSig crv pIndex R S).isEmpty = false := by
    rw [List.isEmpty_eq_false_iff_exists_mem]
    exact List.exists_mem_of_length_pos (by omega)
  have hS : (packSig crv pIndex R S).drop (n + 32) = scPack S := by
    rw [← List.drop_drop, drop_packSig crv hlen, List.drop_left' (length_encode 32 _)]
  rw [unpackSig, hne, if_neg Bool.false_ne_true, if_neg (not_not.mpr hsize), drop_packSig crv hlen,
    List.take_left' (length_encode 32 _), decode_pack, crv.unpack_pack, hS, scOfBytes_scPack, packSig,
    List.append_assoc]
  rfl

theorem foldlM_apk (setPubKey : Finset Nat) {pt : Nat → E} :
    ∀ (l : List Nat) (apk : E), (∀ k ∈ l, crv.unpack k = some (pt k)) →
      l.foldlM (fun apk key =>
          (crv.unpack key).map fun point => apk + multiSignCoeff hs setPubKey key • point) apk =
        some (apk + (l.map fun k => multiSignCoeff hs setPubKey k • pt k).sum)
  | [], apk, _ => by simp
  | k :: l, apk, h => by
    rw [List.foldlM_cons, h k List.mem_cons_self, Option.map_some]
    rw [show ∀ a : E, (some a >>= fun init => List.foldlM _ init l) = List.foldlM _ a l from fun _ => rfl]
    rw [foldlM_apk setPubKey l _ fun k' hk' => h k' (List.mem_cons_of_mem k hk'), List.map_cons,
      List.sum_cons, add_assoc]

theorem multiSignApk_eq {setPubKey setPartKey : Finset Nat} {pt : Nat → E}
    (h : ∀ k ∈ setPartKey, crv.unpack k = some (pt k)) :
    multiSignApk crv hs setPubKey setPartKey =
      some (crv.pack (∑ k ∈ setPartKey, multiSignCoeff hs setPubKey k • pt k)) := by
  rw [multiSignApk, foldlM_apk crv hs setPubKey _ 0 fun k hk => h k ((Finset.mem_sort _).mp hk),
    zero_add, Option.map_some, ← List.sum_toFinset _ (Finset.sort_nodup _ _), Finset.sort_toFinset]

variable (P : Finset Nat) (kp : Nat → CCryptoKey) (M : List UInt8)

/-- `R` of the keys of `D`: `Σ ri * B`. -/
def aggR (D : Finset Nat) : E := ∑ k ∈ D, multiSignR hs (kp k) M • crv.base

/-- `S` of the keys of `D` under the challenge `hash`: `Σ (ri + hash * hi * si)`. -/
def aggS (hash : SC25519) (D : Finset Nat) : SC25519 :=
  ∑ k ∈ D, (multiSignR hs (kp k) M + hash * multiSignCoeff hs P k * clampPrivKey hs (kp k).secret)

theorem aggR_insert {D : Finset Nat} {k : Nat} (hk : k ∉ D) :
    aggR crv hs kp M (insert k D) = aggR crv hs kp M D + multiSignR hs (kp k) M • crv.base := by
  rw [aggR, aggR, Finset.sum_insert hk, add_comm]

theorem aggS_insert (hash : SC25519) {D : Finset Nat} {k : Nat} (hk : k ∉ D) :
    aggS hs P kp M hash (insert k D) = aggS hs P kp M hash D +
      (multiSignR hs (kp k) M + hash * multiSignCoeff hs P k * clampPrivKey hs (kp k).secret) := by
  rw [aggS, aggS, Finset.sum_insert hk, add_comm]

theorem aggS_smul_base (hash : SC25519) (D : Finset Nat) :
    aggS hs P kp M hash D • crv.base = aggR crv hs kp M D +
      hash • ∑ k ∈ D, multiSignCoeff hs P k • (clampPrivKey hs (kp k).secret • crv.base) := by
  simp only [aggS, aggR, Finset.sum_smul, add_smul, mul_smul, Finset.smul_sum, Finset.sum_add_distrib]

/-- What `vchSig` holds once the keys of `D` have signed under the challenge
`hash`: nothing before the first, and then the bitmap of their positions with
their sums `R` and `S`. -/
def SignedBy (hash : SC25519) (D : Finset Nat) (vchSig : List UInt8) : Prop :=
  if D = ∅ then vchSig = []
  else ∃ pIndex, IndexOf P D pIndex ∧
    vchSig = packSig crv pIndex (aggR crv hs kp M D) (aggS hs P kp M hash D)

theorem SignedBy.unique {hash : SC25519} {D : Finset Nat} {v w : List UInt8}
    (hv : SignedBy crv hs P kp M hash D v) (hw : SignedBy crv hs P kp M hash D w) : v = w := by
  unfold SignedBy at hv hw
  split_ifs at hv hw
  · rw [hv, hw]
  · obtain ⟨p, hp, rfl⟩ := hv
    obtain ⟨q, hq, rfl⟩ := hw
    rw [hp.unique P hq]

theorem unpackSig_of_signedBy {hash : SC25519} {D : Finset Nat} {vchSig : List UInt8}
    (h : SignedBy crv hs P kp M hash D vchSig) :
    ∃ pIndex rest, IndexOf P D pIndex ∧ rest.length = 64 ∧
      unpackSig crv ((P.card - 1) / 8 + 1) vchSig =
        some (pIndex ++ rest, aggR crv hs kp M D, aggS hs P kp M hash D) := by
  unfold SignedBy at h
  split_ifs at h with hD
  · subst hD h
    refine ⟨_, List.replicate 64 0, indexOf_empty P, List.length_replicate, ?_⟩
    rw [unpackSig, if_pos List.isEmpty_nil, List.replicate_add]
    simp [aggR, aggS]
  · obtain ⟨pIndex, hidx, rfl⟩ := h
    exact ⟨pIndex, _, hidx, by simp [scPack], unpackSig_packSig crv hidx.1 _ _⟩

theorem cryptoMultiSign_eq {privkey : CCryptoKey} {X vchSig sig : List UInt8} {R : E} {S : SC25519}
    {apk : Nat} (hP : P ≠ ∅) (hsig : unpackSig crv ((P.card - 1) / 8 + 1) vchSig = some (sig, R, S))
    (hapk : multiSignApk crv hs P P = some apk) (hk : privkey.pubkey ∈ P) :
    cryptoMultiSign crv hs P privkey X M vchSig =
      (true, if testBit sig (keyIndex P privkey.pubkey) then
          packSig crv (sig.take ((P.card - 1) / 8 + 1)) R S
        else packSig crv ((setBit sig (keyIndex P privkey.pubkey)).take ((P.card - 1) / 8 + 1))
          (R + multiSignR hs privkey M • crv.base)
          (S + (multiSignR hs privkey M +
            multiSignHash hs X apk M * multiSignCoeff hs P privkey.pubkey * clampPrivKey hs privkey.secret))) := by
  rw [cryptoMultiSign, if_neg hP]
  dsimp only
  rw [hsig]
  dsimp only
  rw [hapk]
  dsimp only
  rw [if_neg (not_not.mpr hk)]
  split_ifs <;> rfl

theorem cryptoMultiSign_signedBy {X : List UInt8} {apk : Nat} (hP : P ≠ ∅)
    (hapk : multiSignApk crv hs P P = some apk) {D : Finset Nat} (hD : D ⊆ P) {k : Nat} (hk : k ∈ P)
    (hpub : (kp k).pubkey = k) {vchSig : List UInt8}
    (h : SignedBy crv hs P kp M (multiSignHash hs X apk M) D vchSig) :
    (cryptoMultiSign crv hs P (kp k) X M vchSig).1 = true ∧
      SignedBy crv hs P kp M (multiSignHash hs X apk M) (insert k D)
        (cryptoMultiSign crv hs P (kp k) X M vchSig).2 := by
  obtain ⟨pIndex, rest, hidx, -, hsig⟩ := unpackSig_of_signedBy crv hs P kp M h
  have hlen : keyIndex P k / 8 < pIndex.length := hidx.1 ▸ div_lt_indexLen P (keyIndex_lt P hk)
  rw [cryptoMultiSign_eq crv hs P M hP hsig hapk (by rw [hpub]; exact hk), hpub, testBit_append_left hlen,
    hidx.testBit_keyIndex P hD hk]
  refine ⟨rfl, ?_⟩
  rw [SignedBy, if_neg (Finset.insert_ne_empty k D)]
  by_cases hkD : k ∈ D
  · -- already signed: `R` and `S` are written back as they are
    rw [decide_eq_true hkD, if_pos rfl, Finset.insert_eq_of_mem hkD, List.take_left' hidx.1]
    exact ⟨pIndex, hidx, rfl⟩
  · rw [decide_eq_false hkD, if_neg Bool.false_ne_true, setBit_append_left hlen,
      List.take_left' ((length_setBit _ _).trans hidx.1), aggR_insert crv hs kp M hkD,
      aggS_insert hs P kp M _ hkD]
    exact ⟨_, hidx.setBit P hk, rfl⟩

theorem foldl_cryptoMultiSign_signedBy {X : List UInt8} {apk : Nat} (hP : P ≠ ∅)
    (hapk : multiSignApk crv hs P P = some apk) (hpub : ∀ k ∈ P, (kp k).pubkey = k) :
    ∀ (ks : List Nat) (D : Finset Nat) (vchSig : List UInt8), (∀ k ∈ ks, k ∈ P) → D ⊆ P →
      SignedBy crv hs P kp M (multiSignHash hs X apk M) D vchSig →
      SignedBy crv hs P kp M (multiSignHash hs X apk M) (D ∪ ks.toFinset)
        (ks.foldl (fun v k => (cryptoMultiSign crv hs P (kp k) X M v).2) vchSig)
  | [], D, vchSig, _, _, h => by simpa using h
  | k :: ks, D, vchSig, hks, hD, h => by
    have hk := hks k List.mem_cons_self
    have hstep := (cryptoMultiSign_signedBy crv hs P kp M hP hapk hD hk (hpub k hk) h).2
    have hrun := foldl_cryptoMultiSign_signedBy hP hapk hpub ks _ _
      (fun k' hk' => hks k' (List.mem_cons_of_mem k hk')) (Finset.insert_subset hk hD) hstep
    rwa [List.toFinset_cons, Finset.union_insert, ← Finset.insert_union]

theorem multiSignSeq_signedBy {X : List UInt8} {apk : Nat} (hP : P ≠ ∅)
    (hapk : multiSignApk crv hs P P = some apk) (hpub : ∀ k ∈ P, (kp k).pubkey = k) {ks : List Nat}
    (hks : ∀ k ∈ ks, k ∈ P) :
    SignedBy crv hs P kp M (multiSignHash hs X apk M) ks.toFinset (multiSignSeq crv hs P X M (ks.map kp)) := by
  have hnil : SignedBy crv hs P kp M (multiSignHash hs X apk M) ∅ [] := by
    rw [SignedBy, if_pos rfl]
  simpa [multiSignSeq, List.foldl_map] using
    foldl_cryptoMultiSign_signedBy crv hs P kp M hP hapk hpub ks ∅ [] hks (Finset.empty_subset P) hnil

theorem foldl_verifyPartKey (sig : List UInt8) (D : Finset Nat) (pt : Nat → E) :
    ∀ (l : List (Nat × Nat)) (A : E) (T : Finset Nat), (∀ ki ∈ l, crv.unpack ki.1 = some (pt ki.1)) →
      (∀ ki ∈ l, testBit sig ki.2 = decide (ki.1 ∈ D)) →
      l.foldl (verifyPartKey crv hs P sig) (some A, T) =
        (some (A + (((l.map Prod.fst).filter fun k => decide (k ∈ D)).map fun k =>
            multiSignCoeff hs P k • pt k).sum),
          T ∪ ((l.map Prod.fst).filter fun k => decide (k ∈ D)).toFinset)
  | [], A, T, _, _ => by simp
  | ki :: l, A, T, hpt, hbit => by
    have ih := foldl_verifyPartKey sig D pt l
    rw [List.foldl_cons, verifyPartKey]
    dsimp only
    rw [hbit ki List.mem_cons_self]
    by_cases hkD : ki.1 ∈ D
    · -- the key's bit is set: it joins the sum and the set
      rw [decide_eq_true hkD, if_pos rfl, hpt ki List.mem_cons_self]
      dsimp only
      rw [ih _ _ (fun k hk => hpt k (List.mem_cons_of_mem ki hk)) (fun k hk => hbit k (List.mem_cons_of_mem ki hk)),
        List.map_cons, List.filter_cons_of_pos (by simpa using hkD), List.map_cons, List.sum_cons,
        List.toFinset_cons, Finset.union_insert, Finset.insert_union, add_assoc]
    · rw [decide_eq_false hkD, if_neg Bool.false_ne_true,
        ih _ _ (fun k hk => hpt k (List.mem_cons_of_mem ki hk)) (fun k hk => hbit k (List.mem_cons_of_mem ki hk)),
        List.map_cons, List.filter_cons_of_neg (by simpa using hkD)]

theorem cryptoMultiVerify_signedBy {X : List UInt8} {apk : Nat} (hP : P ≠ ∅)
    (hapk : multiSignApk crv hs P P = some apk)
    (hpt : ∀ k ∈ P, crv.unpack k = some (clampPrivKey hs (kp k).secret • crv.base)) [DecidableEq E]
    {D : Finset Nat} (hD : D ⊆ P) {vchSig : List UInt8}
    (h : SignedBy crv hs P kp M (multiSignHash hs X apk M) D vchSig) :
    cryptoMultiVerify crv hs P X M vchSig ∅ = (true, D) := by
  unfold SignedBy at h
  split_ifs at h with hD0
  · subst hD0 h
    rw [cryptoMultiVerify, if_neg hP, if_pos List.isEmpty_nil]
  obtain ⟨pIndex, hidx, rfl⟩ := h
  have hsize : (packSig crv pIndex (aggR crv hs kp M D) (aggS hs P kp M (multiSignHash hs X apk M) D)).length =
      (P.card - 1) / 8 + 1 + 64 := hidx.1 ▸ length_packSig crv _ _ _
  have hS : (packSig crv pIndex (aggR crv hs kp M D) (aggS hs P kp M (multiSignHash hs X apk M) D)).drop
      ((P.card - 1) / 8 + 1 + 32) = scPack (aggS hs P kp M (multiSignHash hs X apk M) D) := by
    rw [← List.drop_drop, drop_packSig crv hidx.1, List.drop_left' (length_encode 32 _)]
  have hne : (packSig crv pIndex (aggR crv hs kp M D) (aggS hs P kp M (multiSignHash hs X apk M) D)).isEmpty
      = false := by
    rw [List.isEmpty_eq_false_iff_exists_mem]
    exact List.exists_mem_of_length_pos (by omega)
  have hbit : ∀ ki ∈ (P.sort (· ≤ ·)).zipIdx,
      testBit (packSig crv pIndex (aggR crv hs kp M D) (aggS hs P kp M (multiSignHash hs X apk M) D)) ki.2 =
        decide (ki.1 ∈ D) := by
    intro ki hki
    have hkP : ki.1 ∈ P := (Finset.mem_sort _).mp (List.zipIdx_map_fst 0 _ ▸ List.mem_map_of_mem hki)
    have hlen : ki.2 / 8 < pIndex.length :=
      hidx.1 ▸ keyIndex_of_mem_zipIdx P hki ▸ div_lt_indexLen P (keyIndex_lt P hkP)
    rw [packSig, List.append_assoc, testBit_append_left hlen, ← keyIndex_of_mem_zipIdx P hki,
      hidx.testBit_keyIndex P hD hkP]
  have hkeys : ((P.sort (· ≤ ·)).filter fun k => decide (k ∈ D)).toFinset = D := by
    rw [List.toFinset_filter, Finset.sort_toFinset]
    ext k
    simp only [Finset.mem_filter, decide_eq_true_eq]
    exact ⟨fun hk => hk.2, fun hk => ⟨hD hk, hk⟩⟩
  have hsum := List.sum_toFinset (fun k => multiSignCoeff hs P k • (clampPrivKey hs (kp k).secret • crv.base))
    ((Finset.sort_nodup P (· ≤ ·)).filter fun k => decide (k ∈ D))
  rw [hkeys] at hsum
  rw [cryptoMultiVerify, if_neg hP, hne, if_neg Bool.false_ne_true, if_neg (not_not.mpr hsize)]
  dsimp only
  rw [drop_packSig crv hidx.1, List.take_left' (length_encode 32 _), decode_pack, crv.unpack_pack]
  dsimp only
  rw [hapk]
  dsimp only
  rw [foldl_verifyPartKey crv hs P _ D (fun k => clampPrivKey hs (kp k).secret • crv.base) _ 0 ∅
      (fun ki hki => hpt ki.1
      ((Finset.mem_sort _).mp (List.zipIdx_map_fst 0 _ ▸ List.mem_map_of_mem hki))) hbit,
    List.zipIdx_map_fst, ← hsum, zero_add, Finset.empty_union, hkeys, hS, scOfBytes_scPack,
    aggS_smul_base]
  exact congrArg (·, D) (decide_eq_true rfl)

/-- Signers of a set of derived keys, in any order and with repetitions, each
running `CryptoMultiSign` on the signature so far, from an empty one: every
call succeeds, `CryptoMultiVerify` accepts the result with the distinct signers
as `setPartKey`, and the bytes depend only on which keys have signed. -/
theorem cryptoMultiVerify_multiSignSeq [DecidableEq E] (hP : P.Nonempty)
    (hkp : ∀ p ∈ P, (kp p).pubkey = p ∧ Derived crv hs (kp p)) (X : List UInt8) (ks : List Nat)
    (hks : ∀ k ∈ ks, k ∈ P) :
    (∀ i (hi : i < ks.length),
      (cryptoMultiSign crv hs P (kp ks[i]) X M (multiSignSeq crv hs P X M ((ks.take i).map kp))).1 = true) ∧
    cryptoMultiVerify crv hs P X M (multiSignSeq crv hs P X M (ks.map kp)) ∅ = (true, ks.toFinset) ∧
    ∀ ks' : List Nat, ks'.toFinset = ks.toFinset →
      multiSignSeq crv hs P X M (ks'.map kp) = multiSignSeq crv hs P X M (ks.map kp) := by
  have hP0 : P ≠ ∅ := hP.ne_empty
  have hpub : ∀ k ∈ P, (kp k).pubkey = k := fun k hk => (hkp k hk).1
  have hpt : ∀ k ∈ P, crv.unpack k = some (clampPrivKey hs (kp k).secret • crv.base) := by
    intro k hk
    obtain ⟨hpk, hder⟩ := hkp k hk
    conv_lhs => rw [← hpk, hder]
    exact crv.unpack_pack _
  have hapk : multiSignApk crv hs P P = some _ := multiSignApk_eq crv hs hpt
  have hrun : ∀ ks : List Nat, (∀ k ∈ ks, k ∈ P) →
      SignedBy crv hs P kp M (multiSignHash hs X _ M) ks.toFinset (multiSignSeq crv hs P X M (ks.map kp)) :=
    fun ks hks => multiSignSeq_signedBy crv hs P kp M hP0 hapk hpub hks
  refine ⟨fun i hi => ?_,
    cryptoMultiVerify_signedBy crv hs P kp M hP0 hapk hpt (fun k hk => hks k (List.mem_toFinset.mp hk))
      (hrun ks hks), fun ks' hks' => ?_⟩
  · -- call `i` starts from the signature of the first `i` signers
    have htake : ∀ k ∈ ks.take i, k ∈ P := fun k hk => hks k (List.mem_of_mem_take hk)
    exact (cryptoMultiSign_signedBy crv hs P kp M hP0 hapk
      (fun k hk => htake k (List.mem_toFinset.mp hk)) (hks _ (List.getElem_mem hi))
      (hpub _ (hks _ (List.getElem_mem hi))) (hrun _ htake)).1
  · have hks'P : ∀ k ∈ ks', k ∈ P := fun k hk =>
      hks k (List.mem_toFinset.mp (hks' ▸ List.mem_toFinset.mpr hk))
    have h' := hrun ks' hks'P
    rw [hks'] at h'
    exact SignedBy.unique crv hs P kp M h' (hrun ks hks)

end Signing

/-- The scalars as a group over themselves, a point packed by its value. -/
def scalarCurve : Curve SC25519 where
  base := 1
  pack s := s.val
  unpack n := if n < L then some (n : SC25519) else none
  pack_lt s := lt_trans (ZMod.val_lt s) L_lt
  unpack_pack s := by simp [ZMod.val_lt s]

theorem cryptoMultiVerify_multiSignSeq_of_repeated_signer :
    ({0} : Finset Nat).Nonempty ∧
      (∀ p ∈ ({0} : Finset Nat), (⟨0, p⟩ : CCryptoKey).pubkey = p ∧
        Derived scalarCurve ⟨fun _ => [], fun _ => []⟩ ⟨0, p⟩) ∧
      (∀ k ∈ [0, 0], k ∈ ({0} : Finset Nat)) ∧
      cryptoMultiVerify scalarCurve ⟨fun _ => [], fun _ => []⟩ {0} [] []
        (multiSignSeq scalarCurve ⟨fun _ => [], fun _ => []⟩ {0} [] [] ([0, 0].map fun p => ⟨0, p⟩)) ∅ =
        (true, [0, 0].toFinset) := by
  have hP : ({0} : Finset Nat).Nonempty := Finset.singleton_nonempty 0
  have hkp : ∀ p ∈ ({0} : Finset Nat), (⟨0, p⟩ : CCryptoKey).pubkey = p ∧
      Derived scalarCurve ⟨fun _ => [], fun _ => []⟩ ⟨0, p⟩ := by
    intro p hp
    rw [Finset.mem_singleton] at hp
    subst hp
    exact ⟨rfl, by rw [Derived]; decide⟩
  have hks : ∀ k ∈ [0, 0], k ∈ ({0} : Finset Nat) := by decide
  exact ⟨hP, hkp, hks, (cryptoMultiVerify_multiSignSeq scalarCurve ⟨fun _ => [], fun _ => []⟩ {0}
    (fun p => ⟨0, p⟩) [] hP hkp [] [0, 0] hks).2.1⟩

end Multiverse.Crypto
