import Multiverse.Common.Serialize
import Multiverse.Mpvss.SealedBox

/-! # The enrolment of a delegate vote

`CMvDelegateVote` of `delegate/mvdelegatevote.cpp`: `Setup` writes a delegate's
sealed box into its enrolment data, and `Enroll(mapWeight, mapEnrollData)`
reads back the box of each weighted delegate, makes it a candidate and has the
witness session, and the session of each of the node's own delegates, enrol
the candidates. The enrolment data come from the delegates' enrolment
transactions, so their boxes are whatever a delegate chose to write: nothing
compares the number of their coefficients with the `nThresh` that the total
weight sets.
-/

namespace Multiverse.Delegate

open LittleEndian Mpvss

/-- The fields of a sealed box as `Setup` writes them: the key, the
commitments after their count, and the signature. -/
def encodeSealedBox (b : CMPSealedBox) : List UInt8 :=
  encode 32 b.nPubKey ++ encode 8 b.vEncryptedCoeff.length ++ b.vEncryptedCoeff.flatMap (encode 32) ++
    encode 32 b.nR ++ encode 32 b.nS

/-- The reads of `Enroll`, `is >> nPubKey >> vEncryptedCoeff >> nR >> nS`;
bytes after the fields are ignored. -/
def readSealedBox (bs : List UInt8) : Option CMPSealedBox := do
  let (nPubKey, bs) ← read 32 bs
  let (n, bs) ← read 8 bs
  let (vEncryptedCoeff, bs) ← readList (read 32) n bs
  let (nR, bs) ← read 32 bs
  let (nS, _) ← read 32 bs
  pure ⟨vEncryptedCoeff, nPubKey, nR, nS⟩

/-- Every field of the box fits the bytes `Setup` writes it in. -/
def SealedBoxWellFormed (b : CMPSealedBox) : Prop :=
  b.nPubKey < 2 ^ 256 ∧ (∀ x ∈ b.vEncryptedCoeff, x < 2 ^ 256) ∧ b.vEncryptedCoeff.length < 2 ^ 64 ∧
    b.nR < 2 ^ 256 ∧ b.nS < 2 ^ 256

/-- `Enroll` reads back the box `Setup` wrote. -/
theorem readSealedBox_encode {b : CMPSealedBox} (h : SealedBoxWellFormed b) (rest : List UInt8) :
    readSealedBox (encodeSealedBox b ++ rest) = some b := by
  obtain ⟨hk, hc, hl, hr, hs⟩ := h
  have hcoeff : ∀ x ∈ b.vEncryptedCoeff, ∀ rest, read 32 (encode 32 x ++ rest) = some (x, rest) :=
    fun x hx rest => read_encode_append (by simpa using hc x hx) rest
  simp only [readSealedBox, encodeSealedBox, List.append_assoc]
  rw [read_encode_append (by simpa using hk)]
  simp only [Option.bind_eq_bind, Option.bind_some]
  rw [read_encode_append (by simpa using hl)]
  simp only [Option.bind_some]
  rw [readList_flatMap_append hcoeff]
  simp only [Option.bind_some]
  rw [read_encode_append (by simpa using hr)]
  simp only [Option.bind_some]
  rw [read_encode_append (by simpa using hs)]
  rfl

theorem readSealedBox_encode_of_three_coeffs :
    let b : CMPSealedBox := ⟨[7, 8, 9], 1, 2, 3⟩
    SealedBoxWellFormed b ∧ readSealedBox (encodeSealedBox b ++ [0]) = some b :=
  ⟨by unfold SealedBoxWellFormed; decide, readSealedBox_encode (by unfold SealedBoxWellFormed; decide) [0]⟩

/-- The candidates of `Enroll`: each delegate of `mapWeight`, in key order,
whose enrolment data read as a sealed box, with the identity
`DestToIdentUInt256`, its template id. -/
def enrollCandidates (mapWeight : List (CDestination × Nat))
    (mapEnrollData : List (CDestination × List UInt8)) : List CMPCandidate :=
  mapWeight.filterMap fun w => do
    let data ← mapEnrollData.lookup w.1
    let sBox ← readSealedBox data
    pure ⟨w.1.getTemplateId, w.2, sBox⟩

variable {G : Type} [AddCommGroup G] [Module SC25519 G] (ecc : MPEcc G)

/-- `Enroll(mapWeight, mapEnrollData)`: the witness, of identity 0 after
`SetupWitness`, and each of the node's delegates `vDelegate` enrol the same
candidates; `none` when one of them reads a box past its end. -/
def enroll (vDelegate : List Nat) (mapWeight : List (CDestination × Nat))
    (mapEnrollData : List (CDestination × List UInt8)) :
    Option (List (CMPSecretShare × List (Nat × List G))) :=
  (0 :: vDelegate).mapM fun nIdent =>
    (CMPSecretShare.empty nIdent).enrollSealed ecc (enrollCandidates mapWeight mapEnrollData)

theorem enrollCandidates_weight_le (mapWeight : List (CDestination × Nat))
    (mapEnrollData : List (CDestination × List UInt8)) :
    ((enrollCandidates mapWeight mapEnrollData).map (·.nWeight)).sum ≤ (mapWeight.map Prod.snd).sum := by
  induction mapWeight with
  | nil => simp [enrollCandidates]
  | cons w mapWeight ih =>
    simp only [enrollCandidates, List.filterMap_cons, List.map_cons, List.sum_cons] at ih ⊢
    split
    · omega
    · rename_i c hc
      simp only [Option.bind_eq_bind, Option.bind_eq_some_iff, Option.pure_def,
        Option.some.injEq] at hc
      obtain ⟨_, _, _, _, rfl⟩ := hc
      simp only [List.map_cons, List.sum_cons]
      omega

theorem enroll_isSome (vDelegate : List Nat) (mapWeight : List (CDestination × Nat))
    (mapEnrollData : List (CDestination × List UInt8))
    (h : ∀ c ∈ enrollCandidates mapWeight mapEnrollData,
      (mapWeight.map Prod.snd).sum / 2 + 1 ≤ c.sBox.vEncryptedCoeff.length) :
    (enroll ecc vDelegate mapWeight mapEnrollData).isSome := by
  have hw := enrollCandidates_weight_le mapWeight mapEnrollData
  have hc : ∀ c ∈ enrollCandidates mapWeight mapEnrollData,
      ((enrollCandidates mapWeight mapEnrollData).map (·.nWeight)).sum / 2 + 1 ≤
        c.sBox.vEncryptedCoeff.length := fun c hc' => by
    have := h c hc'
    omega
  rw [Option.isSome_iff_ne_none, Ne, enroll, mapM_eq_none_iff]
  rintro ⟨nIdent, -, hnone⟩
  have hsome := CMPSecretShare.enrollSealed_isSome ecc (CMPSecretShare.empty nIdent) _ hc
  rw [hnone] at hsome
  cases hsome

set_option maxRecDepth 4000 in
/-- A delegate that enrols a box of one coefficient beside one of three, both
of weight 2, is taken by the witness (its box verifies), and the witness's
`PrepareVerification`, at `nThresh` 3, reads its box past the end. -/
theorem enroll_reads_past_short_sealed_box :
    let ecc : MPEcc SC25519 := ⟨fun _ => true, fun _ _ _ _ => true, fun x => (x : SC25519)⟩
    let mapWeight : List (CDestination × Nat) := [(.ofTemplateId 5, 2), (.ofTemplateId 6, 2)]
    let mapEnrollData : List (CDestination × List UInt8) :=
      [(.ofTemplateId 5, encodeSealedBox ⟨[7, 8, 9], 1, 1, 1⟩),
        (.ofTemplateId 6, encodeSealedBox ⟨[7], 1, 1, 1⟩)]
    let vCandidate := enrollCandidates mapWeight mapEnrollData
    vCandidate.all (·.verify ecc) = true ∧
      (CMPSecretShare.empty 0).enrollParticipants ecc vCandidate =
        [(5, ⟨[7, 8, 9], 1, 1, 1⟩), (6, ⟨[7], 1, 1, 1⟩)] ∧
      ((CMPSecretShare.empty 0).enroll (fun _ => true)
        (vCandidate.map fun c => (c.nIdent, c.nWeight))).nThresh = 3 ∧
      (enroll ecc [] mapWeight mapEnrollData).isNone = true := by
  decide

end Multiverse.Delegate
