import Mathlib.Algebra.Module.BigOperators
import Mathlib.Algebra.BigOperators.Group.List.Basic
import Multiverse.Mpvss.Tables

/-! # Sealed boxes of the candidates

`CMPSealedBox` of `mpvss/mpbox.cpp`: a delegate's commitments `vEncryptedCoeff`
to the coefficients of its secret polynomial, its public key and its signature
`(nR, nS)` of its identity. Each candidate of `CMPSecretShare::Enroll` brings
one. `Enroll` takes a candidate whose box verifies, and its
`PrepareVerification` then has every participant's box `PrecalcPolynomial`:
the commitments to the polynomial's values at the indices of the session,
against which `VerifyShare` checks the shares published later.

Points of the curve are a module over the scalars; `MPEcc` gives the checks
of `mpecc.h` and the point that 32 bytes stand for. `PrecalcPolynomial` reads
the first `nThresh` coefficients of the box, and nothing bounds that read by
the size of `vEncryptedCoeff`: a read past its end, which the source makes
out of bounds, makes the model `none`.
-/

namespace Multiverse.Mpvss

theorem mapM_range'_getElem {α β : Type} (l : List α) (f : α → β) (n : Nat) {k : Nat}
    (hk : k ≤ l.length) :
    (List.range' k n).mapM (fun i => l[i]?.map f) =
      if k + n ≤ l.length then some (((l.drop k).take n).map f) else none := by
  induction n generalizing k with
  | zero => simp [hk]
  | succ n ih =>
    rw [List.range'_succ, List.mapM_cons]
    by_cases hk' : k < l.length
    · rw [List.getElem?_eq_getElem hk', ih hk']
      by_cases hn : k + 1 + n ≤ l.length
      · have hn' : k + (n + 1) ≤ l.length := by omega
        rw [if_pos hn, if_pos hn', List.drop_eq_getElem_cons hk', List.take_succ_cons, List.map_cons]
        rfl
      · have hn' : ¬ k + (n + 1) ≤ l.length := by omega
        rw [if_neg hn, if_neg hn']
        rfl
    · -- the first index is already past the end
      have hn' : ¬ k + (n + 1) ≤ l.length := by omega
      rw [List.getElem?_eq_none (by omega), if_neg hn']
      rfl

theorem mapM_range_getElem {α β : Type} (l : List α) (f : α → β) (n : Nat) :
    (List.range n).mapM (fun i => l[i]?.map f) =
      if n ≤ l.length then some ((l.take n).map f) else none := by
  rw [List.range_eq_range', mapM_range'_getElem l f n (Nat.zero_le _), Nat.zero_add, List.drop_zero]

theorem mapM_eq_none_iff {α β : Type} (g : α → Option β) (l : List α) :
    l.mapM g = none ↔ ∃ a ∈ l, g a = none := by
  induction l with
  | nil => simp
  | cons a l ih =>
    rw [List.mapM_cons]
    cases ha : g a with
    | none => simp [ha]
    | some b =>
      cases hl : l.mapM g with
      | none => simpa [ha, hl] using ih.mp hl
      | some bs =>
        have hall : ∀ x ∈ l, g x ≠ none := fun x hx hx' => by simpa [hl] using ih.mpr ⟨x, hx, hx'⟩
        simp only [ha, Option.bind_eq_bind, Option.bind_some, Option.pure_def, reduceCtorEq,
          List.mem_cons, exists_eq_or_imp, false_or, false_iff, not_exists, not_and]
        exact hall

/-- The curve operations of `mpvss/mpecc.h` that a sealed box uses. -/
structure MPEcc (G : Type) where
  /-- `MPEccPubkeyValidate`: whether 32 bytes are a point of the curve. -/
  pubkeyValidate : Nat → Bool
  /-- `MPEccVerify(pubkey, rG, signature, hash)`. -/
  verify : Nat → Nat → Nat → Nat → Bool
  /-- `CEdwards25519::Unpack`: the point 32 bytes stand for. -/
  unpack : Nat → G

/-- `CMPSealedBox`. -/
structure CMPSealedBox where
  vEncryptedCoeff : List Nat
  nPubKey : Nat
  nR : Nat
  nS : Nat
  deriving DecidableEq, Repr

/-- `CMPCandidate`: an identity, its weight, and its sealed box. -/
structure CMPCandidate where
  nIdent : Nat
  nWeight : Nat
  sBox : CMPSealedBox
  deriving DecidableEq, Repr

variable {G : Type} (ecc : MPEcc G)

namespace CMPSealedBox

def isNull (b : CMPSealedBox) : Bool := b.vEncryptedCoeff.isEmpty || b.nPubKey == 0

/-- `VerifySignature(nIdent)`: a box that is not null, whose coefficients are
all points, and whose key signed the identity. -/
def verifySignature (b : CMPSealedBox) (nIdent : Nat) : Bool :=
  !b.isNull && b.vEncryptedCoeff.all ecc.pubkeyValidate && ecc.verify b.nPubKey b.nR b.nS nIdent

section Points

variable [AddCommGroup G] [Module SC25519 G]

/-- `PrecalcPolynomial(nThresh, nLastIndex)`: the points `vP` of the first
`nThresh` coefficients, then for each index `nX` from 1 below `nLastIndex` the
point `vP[0] + Σ naturalPowTable[nX-1][i-1] • vP[i]`, the table read as the
power `nX ^ i` it holds (`Tables` bounds its indices). The first entry of the
source's `vEncryptedShare`, which it leaves unset, is left out. -/
def precalcPolynomial (b : CMPSealedBox) (nThresh nLastIndex : Nat) : Option (List G) := do
  let vP ← (List.range nThresh).mapM fun i => b.vEncryptedCoeff[i]?.map ecc.unpack
  (List.range' 1 (nLastIndex - 1)).mapM fun (nX : Nat) => do
    let P ← vP[0]?
    pure (P + ((List.range' 1 (nThresh - 1)).map fun i => ((nX : SC25519) ^ i) • vP.getD i 0).sum)

theorem commit_eq_sum (vP : List G) (nX : Nat) (hP : vP ≠ []) :
    vP.headD 0 + ((List.range' 1 (vP.length - 1)).map fun i => ((nX : SC25519) ^ i) • vP.getD i 0).sum =
      ((List.range vP.length).map fun i => ((nX : SC25519) ^ i) • vP.getD i 0).sum := by
  obtain ⟨P, vP, rfl⟩ := List.exists_cons_of_ne_nil hP
  rw [List.length_cons, Nat.add_sub_cancel, List.range_succ_eq_map, List.map_cons, List.sum_cons,
    List.range'_eq_map_range, List.map_map]
  simp only [List.headD_cons, pow_zero, one_smul, List.getD_cons_zero, List.map_map,
    Function.comp_def, Nat.succ_eq_add_one, Nat.add_comm 1]

theorem precalcPolynomial_eq_none_iff (b : CMPSealedBox) {nThresh : Nat} (h : 0 < nThresh)
    (nLastIndex : Nat) :
    b.precalcPolynomial ecc nThresh nLastIndex = none ↔ b.vEncryptedCoeff.length < nThresh := by
  unfold precalcPolynomial
  rw [mapM_range_getElem]
  split_ifs with hn
  · -- every coefficient is read; `vP[0]` is there since `nThresh` is positive
    have h0 : ((b.vEncryptedCoeff.take nThresh).map ecc.unpack)[0]?.isSome := by
      simp only [List.getElem?_map, List.getElem?_take, if_pos h]
      simp [List.getElem?_eq_getElem (show 0 < b.vEncryptedCoeff.length by omega)]
    obtain ⟨P, hP⟩ := Option.isSome_iff_exists.mp h0
    simp only [Option.bind_eq_bind, Option.bind_some, hP, Option.pure_def]
    rw [mapM_eq_none_iff]
    simp only [reduceCtorEq, and_false, exists_false, false_iff, not_lt]
    exact hn
  · simp only [Option.bind_eq_bind, Option.bind_none, true_iff]
    omega

theorem precalcPolynomial_eq_some (b : CMPSealedBox) {nThresh : Nat} (h : 0 < nThresh)
    (hn : nThresh ≤ b.vEncryptedCoeff.length) (nLastIndex : Nat) :
    b.precalcPolynomial ecc nThresh nLastIndex = some ((List.range' 1 (nLastIndex - 1)).map fun (nX : Nat) =>
      ((List.range nThresh).map fun i =>
        ((nX : SC25519) ^ i) • ecc.unpack (b.vEncryptedCoeff.getD i 0)).sum) := by
  have hlen : ((b.vEncryptedCoeff.take nThresh).map ecc.unpack).length = nThresh := by
    simp [hn]
  have hne : (b.vEncryptedCoeff.take nThresh).map ecc.unpack ≠ [] := by
    rw [← List.length_pos_iff, hlen]
    exact h
  have h0 : ((b.vEncryptedCoeff.take nThresh).map ecc.unpack)[0]? =
      some (((b.vEncryptedCoeff.take nThresh).map ecc.unpack).headD 0) := by
    obtain ⟨P, vP, e⟩ := List.exists_cons_of_ne_nil hne
    rw [e]
    rfl
  have hget : ∀ i ∈ List.range nThresh, ((b.vEncryptedCoeff.take nThresh).map ecc.unpack).getD i 0 =
      ecc.unpack (b.vEncryptedCoeff.getD i 0) := by
    intro i hi
    have hi' : i < b.vEncryptedCoeff.length := by
      rw [List.mem_range] at hi
      omega
    rw [List.getD_eq_getElem _ _ (by rw [hlen]; exact List.mem_range.mp hi),
      List.getD_eq_getElem _ _ hi', List.getElem_map, List.getElem_take]
  unfold precalcPolynomial
  rw [mapM_range_getElem, if_pos hn]
  simp only [Option.bind_eq_bind, Option.bind_some, h0, Option.pure_def]
  rw [← Option.pure_def, List.mapM_pure, Option.pure_def]
  refine congrArg some (List.map_congr_left fun nX _ => ?_)
  have hsum := commit_eq_sum ((b.vEncryptedCoeff.take nThresh).map ecc.unpack) nX hne
  rw [hlen] at hsum
  rw [hsum]
  exact congrArg List.sum (List.map_congr_left fun i hi => by rw [hget i hi])

theorem precalcPolynomial_commit (b : CMPSealedBox) {nThresh : Nat} (h : 0 < nThresh)
    (hn : nThresh ≤ b.vEncryptedCoeff.length) (a : Nat → SC25519) (B : G)
    (hc : ∀ i < nThresh, ecc.unpack (b.vEncryptedCoeff.getD i 0) = a i • B) (nLastIndex : Nat) :
    b.precalcPolynomial ecc nThresh nLastIndex = some ((List.range' 1 (nLastIndex - 1)).map fun (nX : Nat) =>
      ((List.range nThresh).map fun i => a i * (nX : SC25519) ^ i).sum • B) := by
  rw [precalcPolynomial_eq_some ecc b h hn]
  refine congrArg some (List.map_congr_left fun nX _ => ?_)
  rw [List.sum_smul, List.map_map]
  refine congrArg List.sum (List.map_congr_left fun i hi => ?_)
  rw [Function.comp_apply, hc i (List.mem_range.mp hi), smul_smul, mul_comm]

end Points

end CMPSealedBox

/-- `CMPCandidate::Verify`: the sealed box verifies for the candidate's identity. -/
def CMPCandidate.verify (c : CMPCandidate) : Bool := c.sBox.verifySignature ecc c.nIdent

namespace CMPSecretShare

/-- One candidate of `Enroll`: the step `enrollCandidate` with this candidate's
own `Verify`, and its identity and box kept for `PrepareVerification` when it
became a participant. -/
def enrollSealedCandidate (acc : (CMPSecretShare × Nat) × List (Nat × CMPSealedBox))
    (c : CMPCandidate) : (CMPSecretShare × Nat) × List (Nat × CMPSealedBox) :=
  let r := enrollCandidate (fun _ => c.verify ecc) acc.1 (c.nIdent, c.nWeight)
  (r, if (acc.1.1.mapParticipant c.nIdent).isNone && (r.1.mapParticipant c.nIdent).isSome then
      acc.2 ++ [(c.nIdent, c.sBox)]
    else acc.2)

/-- The participants `Enroll` takes, with their boxes. -/
def enrollParticipants (s : CMPSecretShare) (vCandidate : List CMPCandidate) :
    List (Nat × CMPSealedBox) :=
  (vCandidate.foldl (enrollSealedCandidate ecc) ((s, 1), [])).2

theorem enrollCandidate_congr {f g : Nat → Bool} (acc : CMPSecretShare × Nat) (c : Nat × Nat)
    (h : f c.1 = g c.1) : enrollCandidate f acc c = enrollCandidate g acc c := by
  obtain ⟨s, n⟩ := acc
  obtain ⟨nIdent, nWeight⟩ := c
  dsimp only at h
  simp only [enrollCandidate, h]

theorem foldl_enrollSealedCandidate_fst {candidateVerify : Nat → Bool} {vCandidate : List CMPCandidate}
    (hv : ∀ c ∈ vCandidate, candidateVerify c.nIdent = c.verify ecc)
    (acc : (CMPSecretShare × Nat) × List (Nat × CMPSealedBox)) :
    (vCandidate.foldl (enrollSealedCandidate ecc) acc).1 =
      (vCandidate.map fun c => (c.nIdent, c.nWeight)).foldl (enrollCandidate candidateVerify) acc.1 := by
  induction vCandidate generalizing acc with
  | nil => rfl
  | cons c vCandidate ih =>
    rw [List.foldl_cons, ih (fun c' hc' => hv c' (List.mem_cons_of_mem c hc')), List.map_cons,
      List.foldl_cons]
    congr 1
    exact enrollCandidate_congr acc.1 (c.nIdent, c.nWeight) (hv c List.mem_cons_self).symm

theorem enrollCandidate_snd_le (f : Nat → Bool) (acc : CMPSecretShare × Nat) (c : Nat × Nat) :
    (enrollCandidate f acc c).2 ≤ acc.2 + c.2 := by
  obtain ⟨s, n⟩ := acc
  obtain ⟨nIdent, nWeight⟩ := c
  dsimp only [enrollCandidate]
  split_ifs <;> simp

theorem foldl_enrollSealedCandidate_snd_le (vCandidate : List CMPCandidate)
    (acc : (CMPSecretShare × Nat) × List (Nat × CMPSealedBox)) :
    (vCandidate.foldl (enrollSealedCandidate ecc) acc).1.2 ≤
      acc.1.2 + (vCandidate.map (·.nWeight)).sum := by
  induction vCandidate generalizing acc with
  | nil => simp
  | cons c vCandidate ih =>
    have hstep := enrollCandidate_snd_le (fun _ => c.verify ecc) acc.1 (c.nIdent, c.nWeight)
    have hrun := ih (enrollSealedCandidate ecc acc c)
    simp only [List.foldl_cons, List.map_cons, List.sum_cons]
    simp only [enrollSealedCandidate] at hrun ⊢
    omega

theorem mem_foldl_enrollSealedCandidate {vCandidate : List CMPCandidate}
    {acc : (CMPSecretShare × Nat) × List (Nat × CMPSealedBox)} {p : Nat × CMPSealedBox}
    (hp : p ∈ (vCandidate.foldl (enrollSealedCandidate ecc) acc).2) :
    p ∈ acc.2 ∨ ∃ c ∈ vCandidate, p = (c.nIdent, c.sBox) := by
  induction vCandidate generalizing acc with
  | nil => exact Or.inl hp
  | cons c vCandidate ih =>
    rcases ih hp with hp | ⟨c', hc', rfl⟩
    · dsimp only [enrollSealedCandidate] at hp
      split_ifs at hp
      · rcases List.mem_append.mp hp with hp | hp
        · exact Or.inl hp
        · exact Or.inr ⟨c, List.mem_cons_self, List.mem_singleton.mp hp⟩
      · exact Or.inl hp
    · exact Or.inr ⟨c', List.mem_cons_of_mem c hc', rfl⟩

section Points

variable [AddCommGroup G] [Module SC25519 G]

/-- `Enroll(vCandidate)` with its `PrepareVerification` of every participant's
box at the final `nThresh` and `nLastIndex`: the state and, for each
participant, the commitments to its polynomial's values; `none` when a
participant's box is read past its end. -/
def enrollSealed (s : CMPSecretShare) (vCandidate : List CMPCandidate) :
    Option (CMPSecretShare × List (Nat × List G)) :=
  let r := vCandidate.foldl (enrollSealedCandidate ecc) ((s, 1), [])
  let s' := { r.1.1 with nThresh := (r.1.2 - 1) / 2 + 1 }
  (r.2.mapM fun (p : Nat × CMPSealedBox) =>
      (p.2.precalcPolynomial ecc s'.nThresh r.1.2).map fun v => (p.1, v)).map fun v => (s', v)

theorem enrollSealed_eq_some {candidateVerify : Nat → Bool} {s s' : CMPSecretShare}
    {vCandidate : List CMPCandidate} {v : List (Nat × List G)}
    (hv : ∀ c ∈ vCandidate, candidateVerify c.nIdent = c.verify ecc)
    (h : s.enrollSealed ecc vCandidate = some (s', v)) :
    s' = s.enroll candidateVerify (vCandidate.map fun c => (c.nIdent, c.nWeight)) := by
  unfold enrollSealed at h
  dsimp only at h
  obtain ⟨v', -, he⟩ := Option.map_eq_some_iff.mp h
  obtain ⟨rfl, -⟩ := Prod.mk.inj he
  have e := foldl_enrollSealedCandidate_fst ecc hv ((s, 1), [])
  rw [enroll, ← e]

theorem enrollSealed_eq_none_iff (s : CMPSecretShare) (vCandidate : List CMPCandidate) :
    s.enrollSealed ecc vCandidate = none ↔
      ∃ nIdent b, (nIdent, b) ∈ s.enrollParticipants ecc vCandidate ∧ b.vEncryptedCoeff.length <
        ((vCandidate.foldl (enrollSealedCandidate ecc) ((s, 1), [])).1.2 - 1) / 2 + 1 := by
  unfold enrollSealed enrollParticipants
  rw [Option.map_eq_none_iff, mapM_eq_none_iff, Prod.exists]
  refine exists_congr fun nIdent => exists_congr fun b => and_congr_right fun _ => ?_
  rw [Option.map_eq_none_iff]
  exact CMPSealedBox.precalcPolynomial_eq_none_iff ecc b (Nat.succ_pos _) _

theorem enrollSealed_isSome (s : CMPSecretShare) (vCandidate : List CMPCandidate)
    (h : ∀ c ∈ vCandidate, (vCandidate.map (·.nWeight)).sum / 2 + 1 ≤ c.sBox.vEncryptedCoeff.length) :
    (s.enrollSealed ecc vCandidate).isSome := by
  rw [Option.isSome_iff_ne_none, Ne, enrollSealed_eq_none_iff]
  rintro ⟨nIdent, b, hb, hlt⟩
  have hle := foldl_enrollSealedCandidate_snd_le ecc vCandidate ((s, 1), [])
  rcases mem_foldl_enrollSealedCandidate ecc hb with hb | ⟨c, hc, hcb⟩
  · cases hb
  · cases hcb
    have hc' := h c hc
    dsimp only at hle
    omega

end Points

end CMPSecretShare

end Multiverse.Mpvss
