import Mathlib.Data.Nat.Size
import Multiverse.WorldLine.Enrolled

/-! # The delegates an agreement elects

`CMvDelegateVote::GetAgreement` turns the secrets a round reconstructs into
an agreement: the hash of the secrets, the sum of their weights, and each
delegate with its weight. `CMvCoreProtocol::GetDelegatedBallot` then decides
from the bytes of the agreement whether the round is one of proof of work,
and otherwise elects one delegate for each bit of the weight, up to the 32
bytes of the agreement: at each step the running sum of the bytes, modulo the
weight, falls in the cumulative weight interval of one delegate.

`size_t` arithmetic wraps modulo `2 ^ 64`; a division or a remainder by zero,
undefined in the source, is `none`.
-/

namespace Multiverse

open LittleEndian WorldLine

/-- The xor of the bytes, with which `GetDelegatedBallot` starts `nSelected`. -/
def xorBytes (bs : List UInt8) : Nat := bs.foldl (fun s b => s ^^^ b.toNat) 0

/-- `nWeightWork`, the weight of proof of work:
`(DELEGATE_THRESH - nWeight)^3 / (DELEGATE_THRESH * DELEGATE_THRESH)` in `size_t`. -/
def weightWork (nWeight : Nat) : Nat :=
  let d := (DELEGATE_THRESH.toNat + 2 ^ 64 - nWeight % 2 ^ 64) % 2 ^ 64
  d * d % 2 ^ 64 * d % 2 ^ 64 / (DELEGATE_THRESH.toNat * DELEGATE_THRESH.toNat)

/-- The inner scan of `GetDelegatedBallot`: the first delegate whose weight
exceeds what is left of `n`. -/
def ballotAt (n : Nat) : List (CDestination × Nat) → Option CDestination
  | [] => none
  | (dest, w) :: m => if n < w then some dest else ballotAt (n - w) m

/-- The loop of `GetDelegatedBallot` over the bytes of the agreement, while
`nTrust` is not zero: each byte is added to `nSelected`, which modulo the
weight elects a delegate. -/
def ballotLoop (nWeight : Nat) (mapBallot : List (CDestination × Nat)) :
    List UInt8 → Nat → Nat → Option (List CDestination)
  | [], _, _ => some []
  | b :: bs, nSelected, nTrust =>
    if nTrust = 0 then some []
    else if nWeight = 0 then none
    else
      (fun v => (ballotAt ((nSelected + b.toNat) % nWeight) mapBallot).toList ++ v) <$>
        ballotLoop nWeight mapBallot bs (nSelected + b.toNat) (nTrust / 2)

/-- `GetDelegatedBallot(nAgreement, nWeight, mapBallot, vBallot)`: no delegate
in a round of proof of work, which the xor of the agreement's bytes decides
against the weights of work and of the delegates. -/
def getDelegatedBallot (nAgreement nWeight : Nat) (mapBallot : List (CDestination × Nat)) :
    Option (List CDestination) :=
  let bytes := encode 32 nAgreement
  let nSelected := xorBytes bytes
  let nDenom := (weightWork nWeight + nWeight) % 2 ^ 64
  if nDenom = 0 then none
  else if weightWork nWeight * 256 % 2 ^ 64 / nDenom ≤ nSelected then
    ballotLoop nWeight mapBallot bytes nSelected nWeight
  else some []

/-- `nSelected` when step `k` of the loop elects: the xor of the bytes plus the
bytes up to the `k`-th. -/
def runningSum (nAgreement k : Nat) : Nat :=
  xorBytes (encode 32 nAgreement) + (((encode 32 nAgreement).take (k + 1)).map UInt8.toNat).sum

theorem xorBytes_lt (bs : List UInt8) : xorBytes bs < 256 := by
  have h : ∀ s, s < 2 ^ 8 → bs.foldl (fun s b => s ^^^ b.toNat) s < 2 ^ 8 := by
    induction bs with
    | nil => exact fun s hs => hs
    | cons b bs ih => exact fun s hs => ih _ (Nat.xor_lt_two_pow hs b.toNat_lt)
  exact h 0 (by decide)

theorem weightWork_le {nWeight : Nat} (h : nWeight ≤ 50) : weightWork nWeight ≤ 50 := by
  have h50 : DELEGATE_THRESH.toNat = 50 := rfl
  have hd : (DELEGATE_THRESH.toNat + 2 ^ 64 - nWeight % 2 ^ 64) % 2 ^ 64 = 50 - nWeight := by
    rw [h50]
    omega
  have h1 : 50 - nWeight ≤ 50 := by omega
  have h2 : (50 - nWeight) * (50 - nWeight) ≤ 50 * 50 := Nat.mul_le_mul h1 h1
  have h3 : (50 - nWeight) * (50 - nWeight) * (50 - nWeight) ≤ 50 * 50 * 50 := Nat.mul_le_mul h2 h1
  unfold weightWork
  rw [hd]
  dsimp only
  rw [Nat.mod_eq_of_lt (show (50 - nWeight) * (50 - nWeight) < 2 ^ 64 by omega),
    Nat.mod_eq_of_lt (show (50 - nWeight) * (50 - nWeight) * (50 - nWeight) < 2 ^ 64 by omega), h50]
  omega

theorem weightWork_zero : weightWork 0 = 50 := by decide

theorem size_eq_size_div_two_add_one {t : Nat} (h : t ≠ 0) : Nat.size t = Nat.size (t / 2) + 1 := by
  have e := Nat.bit_bodd_div2 t
  conv_lhs => rw [← e]
  rw [Nat.size_bit (by rw [e]; exact h), Nat.div2_val]

theorem ballotAt_of_lt_sum {n : Nat} {m : List (CDestination × Nat)} (h : n < (m.map Prod.snd).sum) :
    ∃ i, ∃ hi : i < m.length, ballotAt n m = some m[i].1 ∧
      ((m.take i).map Prod.snd).sum ≤ n ∧ n < ((m.take (i + 1)).map Prod.snd).sum := by
  induction m generalizing n with
  | nil => simp at h
  | cons p m ih =>
    obtain ⟨dest, w⟩ := p
    by_cases hw : n < w
    · exact ⟨0, by simp, by simp [ballotAt, hw], by simp, by simpa using hw⟩
    · -- the scan moves past `dest`, with `w` taken off `n`
      simp only [List.map_cons, List.sum_cons] at h
      obtain ⟨i, hi, hb, hlo, hhi⟩ := @ih (n - w) (by omega)
      refine ⟨i + 1, by simpa using hi, ?_, ?_, ?_⟩
      · simpa [ballotAt, hw] using hb
      · simp only [List.take_succ_cons, List.map_cons, List.sum_cons]
        omega
      · simp only [List.take_succ_cons, List.map_cons, List.sum_cons]
        omega

theorem ballotLoop_spec {nWeight : Nat} {mapBallot : List (CDestination × Nat)}
    (hsum : nWeight = (mapBallot.map Prod.snd).sum) (hpos : 0 < nWeight) (bs : List UInt8)
    (nSelected nTrust : Nat) :
    ∃ vBallot, ballotLoop nWeight mapBallot bs nSelected nTrust = some vBallot ∧
      vBallot.length = min (Nat.size nTrust) bs.length ∧
      ∀ k (hk : k < vBallot.length), ballotAt ((nSelected + ((bs.take (k + 1)).map UInt8.toNat).sum) %
        nWeight) mapBallot = some vBallot[k] := by
  induction bs generalizing nSelected nTrust with
  | nil => exact ⟨[], rfl, by simp, fun k hk => absurd hk (by simp)⟩
  | cons b bs ih =>
    by_cases ht : nTrust = 0
    · subst ht
      exact ⟨[], by simp [ballotLoop], by simp, fun k hk => absurd hk (by simp)⟩
    · obtain ⟨v, hv, hlen, hsel⟩ := ih (nSelected + b.toNat) (nTrust / 2)
      obtain ⟨i, hi, hb, -⟩ := @ballotAt_of_lt_sum ((nSelected + b.toNat) % nWeight) mapBallot
        (hsum ▸ Nat.mod_lt _ hpos)
      refine ⟨mapBallot[i].1 :: v, ?_, ?_, fun k hk => ?_⟩
      · simp [ballotLoop, ht, Nat.pos_iff_ne_zero.mp hpos, hv, hb]
      · rw [List.length_cons, hlen, size_eq_size_div_two_add_one ht, List.length_cons]
        omega
      · cases k with
        | zero => simpa using hb
        | succ k =>
          have e : nSelected + ((b :: bs).take (k + 1 + 1) |>.map UInt8.toNat).sum =
              nSelected + b.toNat + ((bs.take (k + 1)).map UInt8.toNat).sum := by
            simp only [List.take_succ_cons, List.map_cons, List.sum_cons]
            omega
          rw [e]
          exact hsel k (by simpa using hk)

theorem getDelegatedBallot_cases (nAgreement : Nat) {nWeight : Nat} (mapBallot : List (CDestination × Nat))
    (hle : nWeight ≤ 50) :
    xorBytes (encode 32 nAgreement) < weightWork nWeight * 256 / (weightWork nWeight + nWeight) ∧
        getDelegatedBallot nAgreement nWeight mapBallot = some [] ∨
      weightWork nWeight * 256 / (weightWork nWeight + nWeight) ≤ xorBytes (encode 32 nAgreement) ∧
        0 < nWeight ∧ getDelegatedBallot nAgreement nWeight mapBallot =
          ballotLoop nWeight mapBallot (encode 32 nAgreement) (xorBytes (encode 32 nAgreement)) nWeight := by
  have hx := xorBytes_lt (encode 32 nAgreement)
  have hw := weightWork_le hle
  have hden : 0 < weightWork nWeight + nWeight := by
    rcases Nat.eq_zero_or_pos nWeight with rfl | hpos
    · rw [weightWork_zero]
      decide
    · omega
  unfold getDelegatedBallot
  dsimp only
  rw [Nat.mod_eq_of_lt (show weightWork nWeight + nWeight < 2 ^ 64 by omega),
    Nat.mod_eq_of_lt (show weightWork nWeight * 256 < 2 ^ 64 by omega), if_neg (by omega)]
  split_ifs with hge
  · refine Or.inr ⟨hge, Nat.pos_of_ne_zero fun h0 => ?_, rfl⟩
    -- without weight the threshold is 256, above any xor of bytes
    subst h0
    rw [weightWork_zero] at hge
    omega
  · exact Or.inl ⟨Nat.lt_of_not_le hge, rfl⟩

/-- With a weight that the delegates' weights sum to, at most
`DELEGATE_THRESH`, `GetDelegatedBallot` never divides by zero. It elects no
delegate exactly when the xor of the agreement's bytes is below the threshold
of work (a round of proof of work); from the threshold on it elects one at each
step of its loop, `min (bit length of nWeight) 32` of them, step `k` electing
the delegate whose cumulative weight interval holds the running sum of the
bytes modulo the weight. -/
theorem getDelegatedBallot_elects (nAgreement nWeight : Nat) (mapBallot : List (CDestination × Nat))
    (hsum : nWeight = (mapBallot.map Prod.snd).sum) (hle : (nWeight : Int) ≤ DELEGATE_THRESH) :
    ∃ vBallot, getDelegatedBallot nAgreement nWeight mapBallot = some vBallot ∧
      (vBallot = [] ↔ xorBytes (encode 32 nAgreement) < weightWork nWeight * 256 / (weightWork nWeight + nWeight)) ∧
      (weightWork nWeight * 256 / (weightWork nWeight + nWeight) ≤ xorBytes (encode 32 nAgreement) →
        vBallot.length = min (Nat.size nWeight) 32 ∧
        ∀ k (hk : k < vBallot.length), ∃ i, ∃ hi : i < mapBallot.length,
          vBallot[k] = mapBallot[i].1 ∧
          ((mapBallot.take i).map Prod.snd).sum ≤ runningSum nAgreement k % nWeight ∧
          runningSum nAgreement k % nWeight < ((mapBallot.take (i + 1)).map Prod.snd).sum) := by
  have h50 : nWeight ≤ 50 := by
    simp only [DELEGATE_THRESH] at hle
    omega
  rcases getDelegatedBallot_cases nAgreement mapBallot h50 with ⟨hlt, hnil⟩ | ⟨hge, hpos, hloop⟩
  · exact ⟨[], hnil, iff_of_true rfl hlt, fun hge => absurd hlt (Nat.not_lt_of_le hge)⟩
  · obtain ⟨v, hv, hlen, hsel⟩ :=
      ballotLoop_spec hsum hpos (encode 32 nAgreement) (xorBytes (encode 32 nAgreement)) nWeight
    have hlen' : v.length = min (Nat.size nWeight) 32 := by rw [hlen, length_encode]
    have hne : v ≠ [] := by
      rintro rfl
      have := Nat.size_pos.mpr hpos
      rw [List.length_nil] at hlen'
      omega
    refine ⟨v, hloop.trans hv, iff_of_false hne (Nat.not_lt_of_le hge), fun _ => ⟨hlen', fun k hk => ?_⟩⟩
    obtain ⟨i, hi, hb, hlo, hhi⟩ :=
      @ballotAt_of_lt_sum (runningSum nAgreement k % nWeight) mapBallot (hsum ▸ Nat.mod_lt _ hpos)
    refine ⟨i, hi, ?_, hlo, hhi⟩
    have hk' := hsel k hk
    rw [← runningSum, hb] at hk'
    exact (Option.some.inj hk').symm

/-- Two delegates of weights 2 and 3 and an agreement whose bytes xor to 255:
the round is not one of work, and three delegates are elected. -/
theorem getDelegatedBallot_elects_of_two_delegates :
    let mapBallot : List (CDestination × Nat) := [(.ofTemplateId 5, 2), (.ofTemplateId 6, 3)]
    ∃ vBallot, getDelegatedBallot 255 5 mapBallot = some vBallot ∧
      (vBallot = [] ↔ xorBytes (encode 32 255) < weightWork 5 * 256 / (weightWork 5 + 5)) ∧
      (weightWork 5 * 256 / (weightWork 5 + 5) ≤ xorBytes (encode 32 255) →
        vBallot.length = min (Nat.size 5) 32 ∧
        ∀ k (hk : k < vBallot.length), ∃ i, ∃ hi : i < mapBallot.length,
          vBallot[k] = mapBallot[i].1 ∧
          ((mapBallot.take i).map Prod.snd).sum ≤ runningSum 255 k % 5 ∧
          runningSum 255 k % 5 < ((mapBallot.take (i + 1)).map Prod.snd).sum) :=
  getDelegatedBallot_elects 255 5 _ rfl (by decide)

theorem ballotAt_mem {n : Nat} {m : List (CDestination × Nat)} {dest : CDestination}
    (h : ballotAt n m = some dest) : dest ∈ m.map Prod.fst := by
  induction m generalizing n with
  | nil => cases h
  | cons p m ih =>
    obtain ⟨dest', w⟩ := p
    unfold ballotAt at h
    split_ifs at h
    · cases h
      exact List.mem_cons_self
    · exact List.mem_cons_of_mem _ (ih h)

theorem ballotLoop_mem {nWeight : Nat} {mapBallot : List (CDestination × Nat)} {bs : List UInt8}
    {nSelected nTrust : Nat} {vBallot : List CDestination}
    (h : ballotLoop nWeight mapBallot bs nSelected nTrust = some vBallot) :
    ∀ dest ∈ vBallot, dest ∈ mapBallot.map Prod.fst := by
  induction bs generalizing nSelected nTrust vBallot with
  | nil =>
    cases h
    simp
  | cons b bs ih =>
    unfold ballotLoop at h
    split_ifs at h
    · cases h
      simp
    · obtain ⟨v, hv, rfl⟩ := Option.map_eq_some_iff.mp h
      intro dest hd
      rcases List.mem_append.mp hd with hd | hd
      · exact ballotAt_mem (Option.mem_toList.mp hd)
      · exact ih hv dest hd

theorem getDelegatedBallot_mem {nAgreement nWeight : Nat} {mapBallot : List (CDestination × Nat)}
    {vBallot : List CDestination} (h : getDelegatedBallot nAgreement nWeight mapBallot = some vBallot) :
    ∀ dest ∈ vBallot, dest ∈ mapBallot.map Prod.fst := by
  unfold getDelegatedBallot at h
  dsimp only at h
  split_ifs at h
  · exact ballotLoop_mem h
  · cases h
    simp

/-- `CMPSecretShare::Reconstruct(mapSecret)` over the identities `vIdent` that
kept shares, in key order: each secret that reconstructs, with its weight. -/
def Mpvss.CMPSecretShare.reconstructAll (s : Mpvss.CMPSecretShare) (vIdent : List Nat) :
    List (Nat × Mpvss.SC25519 × Nat) :=
  vIdent.filterMap fun nIdent => (s.reconstruct nIdent).map fun r => (nIdent, r)

/-- `CMvDelegateVote::GetAgreement(nAgreement, nWeight, mapBallot)` from the
secrets `Reconstruct` gives, by identity in key order: the hash of the
secrets, the sum of their weights, and each identity's destination
`DestFromIdentUInt256` with its weight; all empty when nothing reconstructed. -/
def getAgreement (crypto : Crypto) (mapSecret : List (Nat × Mpvss.SC25519 × Nat)) :
    Nat × Nat × List (CDestination × Nat) :=
  if mapSecret.isEmpty then (0, 0, [])
  else (crypto.cryptoHash (mapSecret.flatMap fun e => encode 32 e.2.1.val),
    (mapSecret.map fun e => e.2.2).sum, mapSecret.map fun e => (CDestination.ofTemplateId e.1, e.2.2))

/-- `CConsensus::GetAgreement`: the agreement of the reconstructed secrets and
the delegates `GetDelegatedBallot` elects from it; `none` on a division by zero. -/
def getConsensusAgreement (crypto : Crypto) (s : Mpvss.CMPSecretShare) (vIdent : List Nat) :
    Option CDelegateAgreement :=
  let r := getAgreement crypto (s.reconstructAll vIdent)
  (getDelegatedBallot r.1 r.2.1 r.2.2).map fun vBallot => ⟨r.1, r.2.1, vBallot⟩

theorem getAgreement_weight (crypto : Crypto) (mapSecret : List (Nat × Mpvss.SC25519 × Nat)) :
    (getAgreement crypto mapSecret).2.1 = ((getAgreement crypto mapSecret).2.2.map Prod.snd).sum := by
  unfold getAgreement
  split_ifs
  · rfl
  · simp only [List.map_map]
    rfl

theorem getConsensusAgreement_elects_reconstructed (crypto : Crypto) (s : Mpvss.CMPSecretShare)
    (vIdent : List Nat) (hle : ((s.reconstructAll vIdent).map fun e => e.2.2).sum ≤ 50) :
    ∃ a, getConsensusAgreement crypto s vIdent = some a ∧
      ∀ dest ∈ a.vBallot, ∃ nIdent ∈ vIdent, dest = .ofTemplateId nIdent ∧ (s.reconstruct nIdent).isSome := by
  set r := getAgreement crypto (s.reconstructAll vIdent) with hr
  have hw : r.2.1 ≤ 50 := by
    rw [hr]
    unfold getAgreement
    split_ifs
    · exact Nat.zero_le _
    · exact hle
  obtain ⟨vBallot, hv⟩ : ∃ vBallot, getDelegatedBallot r.1 r.2.1 r.2.2 = some vBallot := by
    rcases getDelegatedBallot_cases r.1 r.2.2 hw with ⟨-, hnil⟩ | ⟨-, hpos, hloop⟩
    · exact ⟨[], hnil⟩
    · obtain ⟨v, hv, -⟩ := ballotLoop_spec (getAgreement_weight crypto _) hpos
        (encode 32 r.1) (xorBytes (encode 32 r.1)) r.2.1
      exact ⟨v, hloop.trans hv⟩
  refine ⟨⟨r.1, r.2.1, vBallot⟩, by simp only [getConsensusAgreement, ← hr, hv, Option.map_some],
    fun dest hd => ?_⟩
  have hkey := getDelegatedBallot_mem hv dest hd
  rw [hr] at hkey
  unfold getAgreement at hkey
  split_ifs at hkey
  · simp at hkey
  · simp only [List.map_map, List.mem_map, Function.comp_apply] at hkey
    obtain ⟨⟨nIdent, secret, w⟩, he, rfl⟩ := hkey
    simp only [Mpvss.CMPSecretShare.reconstructAll, List.mem_filterMap, Option.map_eq_some_iff,
      Prod.mk.injEq] at he
    obtain ⟨nIdent', hmem, r', hrec, rfl, -⟩ := he
    exact ⟨nIdent', hmem, rfl, by rw [hrec]; rfl⟩

end Multiverse
