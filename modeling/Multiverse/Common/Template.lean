import Multiverse.Common.Serialize

/-! # Templates and the signatures they check

The templates of `common/template/`: a destination `CDestination(CTemplateId)`
names a template by the hash of its data and its type. To spend from it, or
to sign a block for it, the signature starts with the template data, from
which `CTemplate::CreateTemplatePtr` parses the template back; the rest of the
signature is checked by the template, often by handing it on to another
destination of its data.

The hash and the signature checks come from libsodium and are the parameters
of `Crypto`. The data are read as `CWalleveIDataStream` reads them: keys and
hashes as 32 little-endian bytes, a destination as its prefix byte and 32 data
bytes, a weighted map as an 8-byte count and then its pairs, inserted in key
order; bytes after the fields are ignored.

A destination's transaction signature is checked with a fuel that the length
of the signature bounds, since each template that is entered strips its data
from the front of the signature.
-/

namespace Multiverse

open LittleEndian

def TEMPLATE_WEIGHTED : Nat := 1
def TEMPLATE_MULTISIG : Nat := 2
def TEMPLATE_FORK : Nat := 3
def TEMPLATE_PROOF : Nat := 4
def TEMPLATE_DELEGATE : Nat := 5

namespace CTemplateId

/-- `CTemplateId(type, hash)`: the hash shifted over the type, in 256 bits. -/
def ofType (nType hash : Nat) : Nat := (hash <<< 16) % 2 ^ 256 ||| nType

/-- `GetType`: the low 16 bits. -/
def getType (nId : Nat) : Nat := nId % 65536

theorem getType_ofType {nType : Nat} (h : nType < 65536) (hash : Nat) :
    getType (ofType nType hash) = nType := by
  have hs : (hash <<< 16) % 2 ^ 256 = (hash % 2 ^ 240) <<< 16 := by
    rw [Nat.shiftLeft_eq, Nat.shiftLeft_eq, show 2 ^ 256 = 2 ^ 240 * 2 ^ 16 by norm_num,
      Nat.mul_mod_mul_right]
  have hor := Nat.shiftLeft_add_eq_or_of_lt (show nType < 2 ^ 16 by omega) (hash % 2 ^ 240)
  rw [getType, ofType, hs, ← hor, Nat.shiftLeft_eq]
  omega

end CTemplateId

namespace CDestination

/-- `CTemplate::IsTxSpendable`: a key, or a weighted or multisig template. -/
def isTxSpendable (d : CDestination) : Bool :=
  d.isPubKey || d.isTemplate &&
    (CTemplateId.getType d.getTemplateId == TEMPLATE_WEIGHTED ||
      CTemplateId.getType d.getTemplateId == TEMPLATE_MULTISIG)

/-- `CTemplate::IsDestInRecorded`: a delegate template. -/
def isDestInRecorded (d : CDestination) : Bool :=
  d.isTemplate && CTemplateId.getType d.getTemplateId == TEMPLATE_DELEGATE

/-- `CTemplate::IsLockedCoin`: a fork template. -/
def isLockedCoin (d : CDestination) : Bool :=
  d.isTemplate && CTemplateId.getType d.getTemplateId == TEMPLATE_FORK

end CDestination

/-! ## The weighted map -/

/-- `std::map::insert` into a map kept in key order: `none` when the key is
present, which the reader turns into an error. -/
def insertWeight (k w : Nat) : List (Nat × Nat) → Option (List (Nat × Nat))
  | [] => some [(k, w)]
  | (k', w') :: m =>
    if k < k' then some ((k, w) :: (k', w') :: m)
    else if k = k' then none
    else ((k', w') :: ·) <$> insertWeight k w m

/-- Read `n` pairs of a key and a weight, inserting each. -/
def readWeights : Nat → List (Nat × Nat) → List UInt8 → Option (List (Nat × Nat) × List UInt8)
  | 0, m, bs => some (m, bs)
  | n + 1, m, bs => do
    let (k, bs) ← LittleEndian.read 32 bs
    let (w, bs) ← LittleEndian.read 1 bs
    let m ← insertWeight k w m
    readWeights n m bs

/-- A map as `CWalleveODataStream` writes it: the count, then the pairs in key order. -/
def encodeWeights (m : List (Nat × Nat)) : List UInt8 :=
  LittleEndian.encode 8 m.length ++
    m.flatMap fun p => LittleEndian.encode 32 p.1 ++ LittleEndian.encode 1 p.2

/-! ## Templates -/

inductive CTemplate where
  | weighted (nRequired : Nat) (mapPubKeyWeight : List (Nat × Nat))
  | multisig (nRequired : Nat) (mapPubKeyWeight : List (Nat × Nat))
  | fork (destRedeem : CDestination) (hashFork : Nat)
  | proof (keyMint : Nat) (destSpend : CDestination)
  | delegate (keyDelegate : Nat) (destOwner : CDestination)
  deriving DecidableEq, Repr

namespace CTemplate

def nType : CTemplate → Nat
  | .weighted .. => TEMPLATE_WEIGHTED
  | .multisig .. => TEMPLATE_MULTISIG
  | .fork .. => TEMPLATE_FORK
  | .proof .. => TEMPLATE_PROOF
  | .delegate .. => TEMPLATE_DELEGATE

/-- The fields of a weighted map read back. -/
def readWeighted (bs : List UInt8) : Option (Nat × List (Nat × Nat)) := do
  let (nRequired, bs) ← LittleEndian.read 1 bs
  let (n, bs) ← LittleEndian.read 8 bs
  let (m, _) ← readWeights n [] bs
  pure (nRequired, m)

/-- A key followed by a destination. -/
def readKeyDest (bs : List UInt8) : Option (Nat × CDestination) := do
  let (key, bs) ← LittleEndian.read 32 bs
  let (dest, _) ← CDestination.read bs
  pure (key, dest)

/-- `SetTemplateData(vchDataIn)` on a fresh template of the type, `none` for an
unknown type. -/
def setTemplateData (nType : Nat) (bs : List UInt8) : Option CTemplate :=
  if nType = TEMPLATE_WEIGHTED then (readWeighted bs).map fun p => .weighted p.1 p.2
  else if nType = TEMPLATE_MULTISIG then (readWeighted bs).map fun p => .multisig p.1 p.2
  else if nType = TEMPLATE_FORK then do
    let (destRedeem, bs) ← CDestination.read bs
    let (hashFork, _) ← LittleEndian.read 32 bs
    pure (.fork destRedeem hashFork)
  else if nType = TEMPLATE_PROOF then (readKeyDest bs).map fun p => .proof p.1 p.2
  else if nType = TEMPLATE_DELEGATE then (readKeyDest bs).map fun p => .delegate p.1 p.2
  else none

/-- `BuildTemplateData`: the canonical bytes of the fields. -/
def buildTemplateData : CTemplate → List UInt8
  | .weighted nRequired m => LittleEndian.encode 1 nRequired ++ encodeWeights m
  | .multisig nRequired m => LittleEndian.encode 1 nRequired ++ encodeWeights m
  | .fork destRedeem hashFork => destRedeem.encode ++ LittleEndian.encode 32 hashFork
  | .proof keyMint destSpend => LittleEndian.encode 32 keyMint ++ destSpend.encode
  | .delegate keyDelegate destOwner => LittleEndian.encode 32 keyDelegate ++ destOwner.encode

/-- `CTemplateWeighted::ValidateParam`, shared by the multisig template. -/
def validateWeights (nRequired : Nat) (m : List (Nat × Nat)) : Bool :=
  nRequired != 0 && 1 < m.length && m.length ≤ 16 && m.all (·.2 != 0) &&
    nRequired ≤ (m.map (·.2)).sum

/-- `ValidateParam` of each template type. -/
def validateParam : CTemplate → Bool
  | .weighted nRequired m => validateWeights nRequired m
  | .multisig nRequired m => validateWeights nRequired m
  | .fork destRedeem hashFork => destRedeem.isTxSpendable && hashFork != 0
  | .proof keyMint destSpend => keyMint != 0 && destSpend.isTxSpendable
  | .delegate keyDelegate destOwner => keyDelegate != 0 && destOwner.isTxSpendable

/-- `CreateTemplatePtr(nType, vchData)`: parse, then keep only a valid template. -/
def createTemplatePtr (nType : Nat) (vchData : List UInt8) : Option CTemplate :=
  (setTemplateData nType vchData).filter validateParam

/-- `BuildTemplateId`: the id of the template's canonical data. -/
def templateId (crypto : Crypto) (t : CTemplate) : Nat :=
  CTemplateId.ofType t.nType (crypto.cryptoHash t.buildTemplateData)

theorem nType_lt (t : CTemplate) : t.nType < 65536 := by
  cases t <;> simp only [nType] <;> decide

@[simp] theorem getType_templateId (crypto : Crypto) (t : CTemplate) :
    CTemplateId.getType (t.templateId crypto) = t.nType :=
  CTemplateId.getType_ofType t.nType_lt _

/-- The fields of a weighted map fit their bytes, its keys increase and its
count fits the 8 bytes it is written in. -/
def WeightsWellFormed (m : List (Nat × Nat)) : Prop :=
  m.Pairwise (fun p q => p.1 < q.1) ∧ (∀ p ∈ m, p.1 < 2 ^ 256 ∧ p.2 < 256) ∧ m.length < 2 ^ 64

/-- Every field of the template fits the bytes `BuildTemplateData` gives it. -/
def WellFormed : CTemplate → Prop
  | .weighted nRequired m => nRequired < 256 ∧ WeightsWellFormed m
  | .multisig nRequired m => nRequired < 256 ∧ WeightsWellFormed m
  | .fork destRedeem hashFork => destRedeem.WellFormed ∧ hashFork < 2 ^ 256
  | .proof keyMint destSpend => keyMint < 2 ^ 256 ∧ destSpend.WellFormed
  | .delegate keyDelegate destOwner => keyDelegate < 2 ^ 256 ∧ destOwner.WellFormed

theorem validateParam_of_createTemplatePtr {nType : Nat} {bs : List UInt8} {t : CTemplate}
    (h : createTemplatePtr nType bs = some t) : t.validateParam = true := by
  simp only [createTemplatePtr, Option.filter_eq_some_iff] at h
  exact h.2

end CTemplate

/-! ## Reading back what was written -/

theorem insertWeight_of_lt {k w : Nat} {m : List (Nat × Nat)} (h : ∀ p ∈ m, p.1 < k) :
    insertWeight k w m = some (m ++ [(k, w)]) := by
  induction m with
  | nil => rfl
  | cons p m ih =>
    have hp : p.1 < k := h p List.mem_cons_self
    have ih' := ih fun q hq => h q (List.mem_cons_of_mem p hq)
    rw [insertWeight, if_neg (by omega), if_neg (by omega), ih']
    rfl

theorem readWeights_encode (acc m : List (Nat × Nat)) (rest : List UInt8)
    (hs : (acc ++ m).Pairwise (fun p q => p.1 < q.1)) (hf : ∀ p ∈ m, p.1 < 2 ^ 256 ∧ p.2 < 256) :
    readWeights m.length acc
      ((m.flatMap fun p => LittleEndian.encode 32 p.1 ++ LittleEndian.encode 1 p.2) ++ rest) =
      some (acc ++ m, rest) := by
  induction m generalizing acc with
  | nil => simp [readWeights]
  | cons p m ih =>
    obtain ⟨hk, hw⟩ := hf p List.mem_cons_self
    have hacc : ∀ q ∈ acc, q.1 < p.1 := fun q hq =>
      (List.pairwise_append.mp hs).2.2 q hq p List.mem_cons_self
    have hs' : ((acc ++ [p]) ++ m).Pairwise (fun p q => p.1 < q.1) := by simpa using hs
    rw [List.flatMap_cons, List.length_cons, readWeights, List.append_assoc, List.append_assoc,
      LittleEndian.read_encode_append hk]
    simp only [Option.bind_eq_bind, Option.bind_some]
    rw [LittleEndian.read_encode_append (by simpa using hw)]
    simp only [Option.bind_some]
    rw [insertWeight_of_lt hacc, Option.bind_some, ih _ hs' fun q hq => hf q (List.mem_cons_of_mem p hq)]
    simp

namespace CTemplate

theorem readWeighted_encode {nRequired : Nat} {m : List (Nat × Nat)} (hr : nRequired < 256)
    (hm : WeightsWellFormed m) (rest : List UInt8) :
    readWeighted (LittleEndian.encode 1 nRequired ++ encodeWeights m ++ rest) = some (nRequired, m) := by
  obtain ⟨hs, hf, hl⟩ := hm
  rw [readWeighted, encodeWeights, List.append_assoc, LittleEndian.read_encode_append (by simpa using hr)]
  simp only [Option.bind_eq_bind, Option.bind_some]
  rw [List.append_assoc, LittleEndian.read_encode_append hl]
  simp only [Option.bind_some]
  rw [readWeights_encode [] m rest (by simpa using hs) hf]
  rfl

theorem readKeyDest_encode {key : Nat} {dest : CDestination} (hk : key < 2 ^ 256)
    (hd : dest.WellFormed) (rest : List UInt8) :
    readKeyDest (LittleEndian.encode 32 key ++ dest.encode ++ rest) = some (key, dest) := by
  rw [readKeyDest, List.append_assoc, LittleEndian.read_encode_append hk]
  simp only [Option.bind_eq_bind, Option.bind_some]
  rw [CDestination.read_encode_append hd]
  rfl

theorem setTemplateData_buildTemplateData {t : CTemplate} (h : t.WellFormed) (rest : List UInt8) :
    setTemplateData t.nType (t.buildTemplateData ++ rest) = some t := by
  cases t with
  | weighted nRequired m =>
    simp only [nType, setTemplateData, buildTemplateData, if_true,
      readWeighted_encode h.1 h.2, Option.map_some]
  | multisig nRequired m =>
    simp only [nType, setTemplateData, buildTemplateData, TEMPLATE_MULTISIG, TEMPLATE_WEIGHTED,
      readWeighted_encode h.1 h.2, Option.map_some]
    rfl
  | fork destRedeem hashFork =>
    simp only [nType, setTemplateData, buildTemplateData, TEMPLATE_FORK, TEMPLATE_MULTISIG,
      TEMPLATE_WEIGHTED, List.append_assoc, CDestination.read_encode_append h.1]
    simp only [Nat.reduceEqDiff, if_false, Option.bind_eq_bind, Option.bind_some]
    rw [LittleEndian.read_encode_append h.2]
    rfl
  | proof keyMint destSpend =>
    simp only [nType, setTemplateData, buildTemplateData, TEMPLATE_PROOF, TEMPLATE_FORK,
      TEMPLATE_MULTISIG, TEMPLATE_WEIGHTED, readKeyDest_encode h.1 h.2, Option.map_some]
    rfl
  | delegate keyDelegate destOwner =>
    simp only [nType, setTemplateData, buildTemplateData, TEMPLATE_DELEGATE, TEMPLATE_PROOF,
      TEMPLATE_FORK, TEMPLATE_MULTISIG, TEMPLATE_WEIGHTED, readKeyDest_encode h.1 h.2,
      Option.map_some]
    rfl

theorem createTemplatePtr_buildTemplateData {t : CTemplate} (h : t.WellFormed)
    (hv : t.validateParam = true) (rest : List UInt8) :
    createTemplatePtr t.nType (t.buildTemplateData ++ rest) = some t := by
  rw [createTemplatePtr, setTemplateData_buildTemplateData h, Option.filter_some, hv, if_pos rfl]

theorem readKeyDest_eq_some {bs : List UInt8} {key : Nat} {dest : CDestination}
    (h : readKeyDest bs = some (key, dest)) :
    ∃ rest, bs = LittleEndian.encode 32 key ++ dest.encode ++ rest := by
  simp only [readKeyDest, Option.bind_eq_bind, Option.bind_eq_some_iff, Option.pure_def,
    Option.some.injEq] at h
  obtain ⟨⟨key₁, bs₁⟩, h₁, ⟨dest₁, rest⟩, h₂, he⟩ := h
  obtain ⟨rfl, rfl⟩ := Prod.mk.inj he
  dsimp only at h₂ ⊢
  exact ⟨rest, by rw [LittleEndian.read_eq_some_encode h₁, CDestination.read_eq_some h₂,
    List.append_assoc]⟩

theorem setTemplateData_eq_some_prefix {nType : Nat} {bs : List UInt8} {t : CTemplate}
    (h : setTemplateData nType bs = some t) (hw : nType ≠ TEMPLATE_WEIGHTED)
    (hm : nType ≠ TEMPLATE_MULTISIG) : ∃ rest, bs = t.buildTemplateData ++ rest := by
  unfold setTemplateData at h
  rw [if_neg hw, if_neg hm] at h
  split_ifs at h
  · -- the fork template: a destination, then the hash of the fork
    simp only [Option.bind_eq_bind, Option.bind_eq_some_iff, Option.pure_def,
      Option.some.injEq] at h
    obtain ⟨⟨destRedeem, bs₁⟩, h₁, ⟨hashFork, rest⟩, h₂, rfl⟩ := h
    dsimp only at h₂ ⊢
    exact ⟨rest, by rw [CDestination.read_eq_some h₁, LittleEndian.read_eq_some_encode h₂,
      buildTemplateData, List.append_assoc]⟩
  · obtain ⟨⟨keyMint, destSpend⟩, hk, rfl⟩ := Option.map_eq_some_iff.mp h
    exact readKeyDest_eq_some hk
  · obtain ⟨⟨keyDelegate, destOwner⟩, hk, rfl⟩ := Option.map_eq_some_iff.mp h
    exact readKeyDest_eq_some hk

end CTemplate

/-! ## Transaction signatures -/

section TxSignature

variable (crypto : Crypto) (hash hashAnchor : Nat) (destTo : CDestination)

/-- `CTemplateWeighted::VerifyTxSignature`: the multi-signature must check, and
the weights of the keys that took part must reach `nRequired` to complete it. -/
def CTemplate.verifyWeighted (nRequired : Nat) (m : List (Nat × Nat)) (vchSig : List UInt8) :
    Option Bool := do
  let setPartKey ← crypto.multiVerify (m.map (·.1)) hashAnchor hash vchSig
  pure (decide (nRequired ≤ (setPartKey.filterMap fun key => m.lookup key).sum))

/-- `VerifyTxSignature` of each template type, `none` for `false` and otherwise
`fCompleted`; `verifyDest` checks the rest of the signature for a destination.
The fork and proof templates hand it on to their spending destination. The
delegate template hands it to its own key when the coins go back to the
template, and otherwise to the destination the coins go to. -/
def CTemplate.verifyTxSignature (verifyDest : CDestination → List UInt8 → Option Bool) :
    CTemplate → List UInt8 → Option Bool
  | .weighted nRequired m, vchSig => verifyWeighted crypto hash hashAnchor nRequired m vchSig
  | .multisig nRequired m, vchSig => verifyWeighted crypto hash hashAnchor nRequired m vchSig
  | .fork destRedeem _, vchSig => verifyDest destRedeem vchSig
  | .proof _ destSpend, vchSig => verifyDest destSpend vchSig
  | t@(.delegate keyDelegate _), vchSig =>
    if destTo.getTemplateId = t.templateId crypto then
      verifyDest (.ofPubKey keyDelegate) vchSig
    else verifyDest destTo vchSig

/-- `CTemplate::VerifyTxSignature(nIdIn, ...)`: the template parsed from the front
of the signature must have the id, and checks the rest of the signature. -/
def CTemplateId.verifyTxSignature (verifyDest : CDestination → List UInt8 → Option Bool)
    (nIdIn : Nat) (vchSig : List UInt8) : Option Bool :=
  match CTemplate.createTemplatePtr (CTemplateId.getType nIdIn) vchSig with
  | none => none
  | some t =>
    if t.templateId crypto ≠ nIdIn then none
    else t.verifyTxSignature crypto hash hashAnchor destTo verifyDest
      (vchSig.drop t.buildTemplateData.length)

/-- `CDestination::VerifyTxSignature` with `fCompleted`, with a fuel for the
nesting of templates. -/
def CDestination.verifyTxSignatureFuel : Nat → CDestination → List UInt8 → Option Bool
  | 0, _, _ => none
  | fuel + 1, dest, vchSig =>
    if dest.isPubKey then
      if crypto.verify dest.getPubKey hash vchSig then some true else none
    else if dest.isTemplate then
      CTemplateId.verifyTxSignature crypto hash hashAnchor destTo
        (verifyTxSignatureFuel fuel) dest.getTemplateId vchSig
    else none

end TxSignature

/-- `CDestination::VerifyTxSignature(hash, hashAnchor, destTo, vchSig)`: the
signature checks and is complete. -/
def CDestination.verifyTxSignature (crypto : Crypto) (dest : CDestination) (hash hashAnchor : Nat)
    (destTo : CDestination) (vchSig : List UInt8) : Bool :=
  verifyTxSignatureFuel crypto hash hashAnchor destTo (vchSig.length + 1) dest vchSig == some true

section TxSignatureLemmas

variable {crypto : Crypto} {hash hashAnchor : Nat} {destTo : CDestination}

theorem CDestination.verifyTxSignatureFuel_pubKey (fuel key : Nat) (vchSig : List UInt8) :
    verifyTxSignatureFuel crypto hash hashAnchor destTo (fuel + 1) (.ofPubKey key) vchSig =
      if crypto.verify key hash vchSig then some true else none := by
  rw [verifyTxSignatureFuel, if_pos (isPubKey_ofPubKey key), getPubKey_ofPubKey]

theorem CDestination.verifyTxSignatureFuel_template (fuel nId : Nat) (vchSig : List UInt8) :
    verifyTxSignatureFuel crypto hash hashAnchor destTo (fuel + 1) (.ofTemplateId nId) vchSig =
      CTemplateId.verifyTxSignature crypto hash hashAnchor destTo
        (verifyTxSignatureFuel crypto hash hashAnchor destTo fuel) nId vchSig := by
  simp [verifyTxSignatureFuel]

theorem CTemplateId.verifyTxSignature_buildTemplateData
    {verifyDest : CDestination → List UInt8 → Option Bool} {t : CTemplate}
    (hw : t.WellFormed) (hv : t.validateParam = true) (sig : List UInt8) :
    CTemplateId.verifyTxSignature crypto hash hashAnchor destTo verifyDest (t.templateId crypto)
        (t.buildTemplateData ++ sig) =
      t.verifyTxSignature crypto hash hashAnchor destTo verifyDest sig := by
  rw [verifyTxSignature, CTemplate.getType_templateId,
    CTemplate.createTemplatePtr_buildTemplateData hw hv]
  simp

theorem CTemplate.templateId_ne_zero (t : CTemplate) : t.templateId crypto ≠ 0 := by
  intro h
  have e := t.getType_templateId crypto
  rw [h] at e
  cases t <;> simp [CTemplateId.getType, nType] at e <;> contradiction

theorem CDestination.verifyTxSignature_delegate_to_pubKey {keyDelegate key : Nat}
    {destOwner : CDestination} (hw : (CTemplate.delegate keyDelegate destOwner).WellFormed)
    (hv : (CTemplate.delegate keyDelegate destOwner).validateParam = true) (sig : List UInt8) :
    (CDestination.ofTemplateId ((CTemplate.delegate keyDelegate destOwner).templateId crypto)).verifyTxSignature
        crypto hash hashAnchor (.ofPubKey key)
        ((CTemplate.delegate keyDelegate destOwner).buildTemplateData ++ sig) =
      crypto.verify key hash sig := by
  have hto : (CDestination.ofPubKey key).getTemplateId ≠
      (CTemplate.delegate keyDelegate destOwner).templateId crypto := by
    simpa using (CTemplate.templateId_ne_zero _).symm
  have hlen : ((CTemplate.delegate keyDelegate destOwner).buildTemplateData ++ sig).length =
      (64 + sig.length) + 1 := by
    simp [CTemplate.buildTemplateData]
    omega
  rw [verifyTxSignature, verifyTxSignatureFuel_template,
    CTemplateId.verifyTxSignature_buildTemplateData hw hv, CTemplate.verifyTxSignature,
    if_neg hto, hlen, verifyTxSignatureFuel_pubKey]
  cases crypto.verify key hash sig <;> rfl

theorem CTemplateId.verifyTxSignature_eq_some {verifyDest : CDestination → List UInt8 → Option Bool}
    {nIdIn : Nat} {vchSig : List UInt8} {b : Bool}
    (h : CTemplateId.verifyTxSignature crypto hash hashAnchor destTo verifyDest nIdIn vchSig = some b) :
    ∃ t, CTemplate.createTemplatePtr (CTemplateId.getType nIdIn) vchSig = some t ∧
      t.templateId crypto = nIdIn ∧
      t.verifyTxSignature crypto hash hashAnchor destTo verifyDest
        (vchSig.drop t.buildTemplateData.length) = some b := by
  unfold verifyTxSignature at h
  split at h
  · cases h
  · rename_i t ht
    split_ifs at h with hid
    exact ⟨t, ht, not_not.mp hid, h⟩

theorem CTemplateId.verifyTxSignature_prefix {verifyDest : CDestination → List UInt8 → Option Bool}
    {nIdIn : Nat} {vchSig : List UInt8} {b : Bool}
    (h : CTemplateId.verifyTxSignature crypto hash hashAnchor destTo verifyDest nIdIn vchSig = some b)
    (hw : CTemplateId.getType nIdIn ≠ TEMPLATE_WEIGHTED)
    (hm : CTemplateId.getType nIdIn ≠ TEMPLATE_MULTISIG) :
    ∃ (t : CTemplate) (sig : List UInt8), t.templateId crypto = nIdIn ∧ vchSig = t.buildTemplateData ++ sig ∧
      t.verifyTxSignature crypto hash hashAnchor destTo verifyDest sig = some b := by
  obtain ⟨t, hc, hid, hv⟩ := verifyTxSignature_eq_some h
  have hs := (Option.filter_eq_some_iff.mp hc).1
  obtain ⟨sig, rfl⟩ := CTemplate.setTemplateData_eq_some_prefix hs hw hm
  rw [List.drop_left] at hv
  exact ⟨t, sig, hid, rfl, hv⟩

end TxSignatureLemmas

set_option maxRecDepth 4000 in
/-- A weighted map is read in any order of its pairs, and the id is checked on
the data built again from the map read: a signature whose template data list
the two keys the other way round is accepted beside the canonical one, with
the same sub-signature, for the same transaction and template. -/
theorem verifyTxSignature_accepts_unordered_weights :
    let crypto : Crypto := ⟨LittleEndian.decode, fun _ _ _ => false, fun keys _ _ _ => some keys⟩
    let t : CTemplate := .weighted 1 [(5, 1), (9, 1)]
    let vchUnordered : List UInt8 :=
      encode 1 1 ++ encode 8 2 ++ (encode 32 9 ++ encode 1 1) ++ (encode 32 5 ++ encode 1 1)
    let vchSubSig : List UInt8 := [7]
    CTemplateId.verifyTxSignature crypto 0 0 CDestination.null (fun _ _ => none)
        (t.templateId crypto) (vchUnordered ++ vchSubSig) = some true ∧
      CTemplateId.verifyTxSignature crypto 0 0 CDestination.null (fun _ _ => none)
        (t.templateId crypto) (t.buildTemplateData ++ vchSubSig) = some true ∧
      (vchUnordered ++ vchSubSig).take t.buildTemplateData.length ≠ t.buildTemplateData := by
  decide

/-! ## Block signatures -/

section BlockSignature

variable (crypto : Crypto) (hash : Nat)

/-- `VerifyBlockSignature` of a minting template: its minting key checks the
signature. Other templates are not `CTemplateMint`s, and the cast gives `NULL`. -/
def CTemplate.verifyBlockSignature : CTemplate → List UInt8 → Bool
  | .proof keyMint _, vchSig => crypto.verify keyMint hash vchSig
  | .delegate keyDelegate _, vchSig => crypto.verify keyDelegate hash vchSig
  | _, _ => false

/-- `CTemplateMint::VerifyBlockSignature(nIdIn, hash, vchSig)`: for a proof or
delegate id, the template parsed from the front of the signature checks the
rest of it. -/
def CTemplateId.verifyBlockSignature (nIdIn : Nat) (vchSig : List UInt8) : Bool :=
  let nType := CTemplateId.getType nIdIn
  if nType ≠ TEMPLATE_PROOF ∧ nType ≠ TEMPLATE_DELEGATE then false
  else
    match CTemplate.createTemplatePtr nType vchSig with
    | none => false
    | some t => t.verifyBlockSignature crypto hash (vchSig.drop t.buildTemplateData.length)

/-- `CDestination::VerifyBlockSignature`. -/
def CDestination.verifyBlockSignature (dest : CDestination) (vchSig : List UInt8) : Bool :=
  if dest.isPubKey then crypto.verify dest.getPubKey hash vchSig
  else if dest.isTemplate then CTemplateId.verifyBlockSignature crypto hash dest.getTemplateId vchSig
  else false

variable {crypto hash}

theorem CDestination.verifyBlockSignature_of_template {nIdIn : Nat} {t : CTemplate}
    (ht : t.nType = CTemplateId.getType nIdIn)
    (hm : t.nType = TEMPLATE_PROOF ∨ t.nType = TEMPLATE_DELEGATE)
    (hw : t.WellFormed) (hv : t.validateParam = true) (sig : List UInt8) :
    (CDestination.ofTemplateId nIdIn).verifyBlockSignature crypto hash
        (t.buildTemplateData ++ sig) = t.verifyBlockSignature crypto hash sig := by
  have hsel : ¬(t.nType ≠ TEMPLATE_PROOF ∧ t.nType ≠ TEMPLATE_DELEGATE) := by tauto
  simp only [verifyBlockSignature, isPubKey_ofTemplateId, isTemplate_ofTemplateId,
    getTemplateId_ofTemplateId, Bool.false_eq_true, if_false, if_true]
  rw [CTemplateId.verifyBlockSignature]
  simp only [← ht]
  rw [if_neg hsel, CTemplate.createTemplatePtr_buildTemplateData hw hv]
  simp

theorem verifyBlockSignature_by_foreign_template :
    (CDestination.ofTemplateId ((CTemplate.proof 3 (.ofPubKey 5)).templateId
        ⟨LittleEndian.decode, fun key _ _ => key == 7, fun _ _ _ _ => none⟩)).verifyBlockSignature
        ⟨LittleEndian.decode, fun key _ _ => key == 7, fun _ _ _ _ => none⟩ 0
        ((CTemplate.proof 7 (.ofPubKey 9)).buildTemplateData ++ [1]) = true ∧
      (CTemplate.proof 7 (.ofPubKey 9)).templateId
          ⟨LittleEndian.decode, fun key _ _ => key == 7, fun _ _ _ _ => none⟩ ≠
        (CTemplate.proof 3 (.ofPubKey 5)).templateId
          ⟨LittleEndian.decode, fun key _ _ => key == 7, fun _ _ _ _ => none⟩ := by
  refine ⟨?_, by decide⟩
  rw [CDestination.verifyBlockSignature_of_template (by simp [CTemplate.nType])
    (by simp [CTemplate.nType])
    (show (CTemplate.proof 7 (.ofPubKey 9)).WellFormed by
      unfold CTemplate.WellFormed CDestination.WellFormed
      decide) (by decide)]
  rfl

end BlockSignature

end Multiverse
