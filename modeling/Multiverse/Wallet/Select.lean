import Multiverse.Wallet.Wallet
import Multiverse.Core.Validate
import Multiverse.Lib.Multimap

/-! # Coin selection

`CWallet::SelectCoins` of `src/wallet.cpp` picks the coins of a destination
on a fork that pay for a transaction. It goes once through the coin set,
skipping the coins locked at the height or later than the transaction: a coin
of the target amount is taken alone at once; the smaller ones go into
`mapValue`, a multimap by amount that keeps the `nMaxInput` largest, until
they reach the target; of the larger ones it remembers the smallest. When the
smaller coins kept reach the target, the loop on `lower_bound` of the
shortage takes them; otherwise the smallest larger coin is taken with up to
three of the smallest kept.

The set is gone through in the order of its list; the source's order is by
pointer, which is arbitrary, and every result here holds for every order.

Each round of the final loop leaves at least the shortage in `mapValue`, so
it never steps before `begin()`; and the coins kept are the largest smaller
ones, so when they fall short no `nMaxInput` selectable coins reach the
target (`selectCoinsIn_spec`). The smallest larger coin is found against
`INT64_MAX` as start, which a coin of exactly that amount does not beat.
-/

namespace Multiverse.Wallet

/-- `std::numeric_limits<int64>::max()`. -/
def INT64_MAX : Int := 2 ^ 63 - 1

namespace CWalletTxOut

/-- `IsLocked(nHeight)`: the `int32` height, compared as the `uint32` it
converts to, below the lock of the output. -/
def isLocked (heap : Heap) (out : CWalletTxOut) (nHeight : Int) : Bool :=
  decide ((nHeight % 2 ^ 32).toNat < (heap.getD out.spWalletTx CWalletTx.null).getLockUntil out.n)

/-- `GetTxTime()`. -/
def getTxTime (heap : Heap) (out : CWalletTxOut) : Int := (heap.getD out.spWalletTx CWalletTx.null).nTimeStamp

/-- A coin `SelectCoins` does not skip: unlocked at the height and not later
than the transaction. -/
def isSelectable (heap : Heap) (nForkHeight nTxTime : Int) (out : CWalletTxOut) : Bool :=
  !(out.isLocked heap nForkHeight || nTxTime < out.getTxTime heap)

end CWalletTxOut

/-- What the loop of `SelectCoins` over the coins keeps: the smallest coin
above the target with its amount, `none` for the null coin; the total of the
smaller coins kept; and these in `mapValue` by amount. -/
structure SelectScan where
  coinLowestLarger : Int × Option CWalletTxOut
  nTotalLower : Int
  mapValue : List (Int × CWalletTxOut)
  deriving DecidableEq, Repr

def SelectScan.init : SelectScan := ⟨(INT64_MAX, none), 0, []⟩

section Select

variable (heap : Heap) (nForkHeight nTxTime nTargetValue : Int) (nMaxInput : Nat)

/-- `while (mapValue.size() > nMaxInput)`: the smallest coin kept leaves
`mapValue`, and its amount the total. -/
def evictSmallest : Int → List (Int × CWalletTxOut) → Int × List (Int × CWalletTxOut)
  | nTotalLower, [] => (nTotalLower, [])
  | nTotalLower, e :: mapValue =>
    if nMaxInput < mapValue.length + 1 then evictSmallest (nTotalLower - e.1) mapValue
    else (nTotalLower, e :: mapValue)

/-- A coin below the target: into `mapValue` and the total, then out go the
smallest while too many are kept. -/
def addLower (s : SelectScan) (out : CWalletTxOut) : SelectScan :=
  let nValue := out.getAmount heap
  let r := evictSmallest nMaxInput (s.nTotalLower + nValue) (Multimap.insert Prod.fst (nValue, out) s.mapValue)
  { s with nTotalLower := r.1, mapValue := r.2 }

/-- The loop over `walletCoins.setCoins`: a coin of the target amount returns
at once (`inl`); otherwise the loop ends after the last coin, or breaks when
the smaller coins kept reach the target (`inr`). -/
def scanCoins : SelectScan → List CWalletTxOut → CWalletTxOut ⊕ SelectScan
  | s, [] => .inr s
  | s, out :: setCoins =>
    if out.isSelectable heap nForkHeight nTxTime then
      let nValue := out.getAmount heap
      if nValue = nTargetValue then .inl out
      else if nValue < nTargetValue then
        let s := addLower heap nMaxInput s out
        if nTargetValue ≤ s.nTotalLower then .inr s else scanCoins s setCoins
      else if nValue < s.coinLowestLarger.1 then
        scanCoins { s with coinLowestLarger := (nValue, some out) } setCoins
      else scanCoins s setCoins
    else scanCoins s setCoins

/-- The loop `while (nValueRet < nTargetValue)`: the first coin kept of at
least the shortage, `lower_bound`, or the last coin when there is none, goes
to `vCoins`. Each round erases a coin, so as many rounds as coins are kept
are `fuel` enough; `none` where `--it` steps before `begin()` of an empty map. -/
def takeLowerBound : Nat → List (Int × CWalletTxOut) → Int → List CWalletTxOut → Option (Int × List CWalletTxOut)
  | fuel, mapValue, nValueRet, vCoins =>
    if nValueRet < nTargetValue then
      let i := Multimap.lowerBound Prod.fst (nTargetValue - nValueRet) mapValue
      let i := if i = mapValue.length then i - 1 else i
      match fuel, mapValue[i]? with
      | fuel + 1, some e => takeLowerBound fuel (mapValue.eraseIdx i) (nValueRet + e.1) (vCoins ++ [e.2])
      | _, _ => none
    else some (nValueRet, vCoins)

/-- `SelectCoins` on the coin set `walletCoins`: the value returned and the
coins of `vCoins`; `none` where the source has no defined result. -/
def selectCoinsIn (walletCoins : CWalletCoins) : Option (Int × List CWalletTxOut) :=
  if walletCoins.nTotalValue < nTargetValue then some (0, [])
  else
    match scanCoins heap nForkHeight nTxTime nTargetValue nMaxInput SelectScan.init walletCoins.setCoins with
    | .inl out => some (out.getAmount heap, [out])
    | .inr s =>
      if nTargetValue ≤ s.nTotalLower then takeLowerBound nTargetValue s.mapValue.length s.mapValue 0 []
      else
        match s.coinLowestLarger.2 with
        | some out =>
          if out.isNull heap then some (0, [])
          else
            let vSmall := s.mapValue.take 3
            some (s.coinLowestLarger.1 + (vSmall.map Prod.fst).sum, out :: vSmall.map Prod.snd)
        | none => some (0, [])

end Select

namespace CWallet

/-- `SelectCoins(dest, hashFork, nForkHeight, nTxTime, nTargetValue,
nMaxInput, vCoins)`: the value returned and the outpoints left in `vCoins`. -/
def selectCoins (w : CWallet) (dest : CDestination) (hashFork : Nat) (nForkHeight nTxTime nTargetValue : Int)
    (nMaxInput : Nat) : Option (Int × List CTxOutPoint) :=
  (selectCoinsIn w.heap nForkHeight nTxTime nTargetValue nMaxInput ((w.unspentOf dest).getCoins hashFork)).map
    fun r => (r.1, r.2.map (CWalletTxOut.getTxOutPoint w.heap))

end CWallet

/-! ## What a selection is for -/

/-- Coins of a set, each once, that `SelectCoins` may take. -/
def CWalletCoins.Selection (heap : Heap) (nForkHeight nTxTime : Int) (c : CWalletCoins)
    (vOut : List CWalletTxOut) : Prop :=
  vOut.Nodup ∧ ∀ out ∈ vOut, out ∈ c.setCoins ∧ out.isSelectable heap nForkHeight nTxTime = true

instance (heap : Heap) (nForkHeight nTxTime : Int) (c : CWalletCoins) (vOut : List CWalletTxOut) :
    Decidable (c.Selection heap nForkHeight nTxTime vOut) :=
  inferInstanceAs (Decidable (_ ∧ _))

/-- A value and coins that pay for `nTargetValue`: coins of the set worth the
value, no more than `nMaxInput` of them when they reach the target, and a
value below it only when no `nMaxInput` coins of the set reach it. -/
structure CWalletCoins.SelectSpec (heap : Heap) (nForkHeight nTxTime nTargetValue : Int) (nMaxInput : Nat)
    (c : CWalletCoins) (nValue : Int) (vOut : List CWalletTxOut) : Prop where
  selection : c.Selection heap nForkHeight nTxTime vOut
  value : nValue = (vOut.map (CWalletTxOut.getAmount heap)).sum
  enough : nTargetValue ≤ nValue ∧ vOut.length ≤ nMaxInput ∨
    nValue < nTargetValue ∧ ∀ vSub, c.Selection heap nForkHeight nTxTime vSub → vSub.length ≤ nMaxInput →
      (vSub.map (CWalletTxOut.getAmount heap)).sum < nTargetValue

/-! ## The coins kept in `mapValue` -/

/-- A coin the loop keeps in `mapValue`: selectable and below the target. -/
def isLower (heap : Heap) (nForkHeight nTxTime nTargetValue : Int) (out : CWalletTxOut) : Bool :=
  out.isSelectable heap nForkHeight nTxTime && decide (out.getAmount heap < nTargetValue)

/-- What the loop keeps of the coins `done` it has gone through: `mapValue`
in key order, its keys the amounts and their sum the total; at most
`nMaxInput` of the smaller coins, all of them or else `nMaxInput` that none of
the dropped ones exceeds; and the smallest larger coin, which starts unset at
`INT64_MAX`. -/
structure SelectScan.Inv (heap : Heap) (nForkHeight nTxTime nTargetValue : Int) (nMaxInput : Nat)
    (done : List CWalletTxOut) (s : SelectScan) : Prop where
  sorted : Multimap.Sorted Prod.fst s.mapValue
  key : ∀ e ∈ s.mapValue, e.1 = e.2.getAmount heap
  total : s.nTotalLower = (s.mapValue.map Prod.fst).sum
  length_le : s.mapValue.length ≤ nMaxInput
  kept : ∃ dropped : List CWalletTxOut,
    (s.mapValue.map Prod.snd ++ dropped).Perm (done.filter (isLower heap nForkHeight nTxTime nTargetValue)) ∧
    (dropped = [] ∨ s.mapValue.length = nMaxInput) ∧ ∀ x ∈ dropped, ∀ e ∈ s.mapValue, x.getAmount heap ≤ e.1
  larger : ∀ out ∈ done, out.isSelectable heap nForkHeight nTxTime = true → nTargetValue ≤ out.getAmount heap →
    nTargetValue < out.getAmount heap ∧ s.coinLowestLarger.1 ≤ out.getAmount heap
  lowestLarger : ∀ out, s.coinLowestLarger.2 = some out →
    out ∈ done ∧ out.isSelectable heap nForkHeight nTxTime = true ∧ nTargetValue < out.getAmount heap ∧
      s.coinLowestLarger.1 = out.getAmount heap
  unset : s.coinLowestLarger.2 = none → s.coinLowestLarger.1 = INT64_MAX

section Scan

variable {heap : Heap} {nForkHeight nTxTime nTargetValue : Int} {nMaxInput : Nat}

theorem evictSmallest_of_length_le {t : Int} {l : List (Int × CWalletTxOut)} (h : l.length ≤ nMaxInput) :
    evictSmallest nMaxInput t l = (t, l) := by
  cases l with
  | nil => rfl
  | cons e l =>
    rw [List.length_cons] at h
    rw [evictSmallest, if_neg (by omega)]

theorem evictSmallest_cons_of_length_eq {t : Int} {e : Int × CWalletTxOut} {l : List (Int × CWalletTxOut)}
    (h : l.length = nMaxInput) : evictSmallest nMaxInput t (e :: l) = (t - e.1, l) := by
  rw [evictSmallest, if_pos (by omega), evictSmallest_of_length_le h.le]

namespace SelectScan

theorem inv_init : init.Inv heap nForkHeight nTxTime nTargetValue nMaxInput [] where
  sorted := List.Pairwise.nil
  key := fun _ h => nomatch h
  total := rfl
  length_le := Nat.zero_le _
  kept := ⟨[], List.Perm.refl _, .inl rfl, fun _ h => nomatch h⟩
  larger := fun _ h => nomatch h
  lowestLarger := fun _ h => nomatch h
  unset := fun _ => rfl

variable {done : List CWalletTxOut} {s : SelectScan} {out : CWalletTxOut}

theorem Inv.append_of_not_lower (hs : s.Inv heap nForkHeight nTxTime nTargetValue nMaxInput done)
    (hlow : isLower heap nForkHeight nTxTime nTargetValue out = false)
    (hlarger : out.isSelectable heap nForkHeight nTxTime = true → nTargetValue ≤ out.getAmount heap →
      nTargetValue < out.getAmount heap ∧ s.coinLowestLarger.1 ≤ out.getAmount heap) :
    s.Inv heap nForkHeight nTxTime nTargetValue nMaxInput (done ++ [out]) := by
  obtain ⟨dropped, hperm, hlen, hle⟩ := hs.kept
  refine { hs with kept := ⟨dropped, ?_, hlen, hle⟩, larger := ?_, lowestLarger := ?_ }
  · rwa [List.filter_append, List.filter_singleton, hlow, cond_false, List.append_nil]
  · intro o ho
    rcases List.mem_append.mp ho with ho | ho
    · exact hs.larger o ho
    · rw [List.mem_singleton.mp ho]
      exact hlarger
  · intro o ho
    obtain ⟨hmem, h⟩ := hs.lowestLarger o ho
    exact ⟨List.mem_append_left _ hmem, h⟩

theorem Inv.append_lowestLarger (hs : s.Inv heap nForkHeight nTxTime nTargetValue nMaxInput done)
    (hsel : out.isSelectable heap nForkHeight nTxTime = true) (hT : nTargetValue < out.getAmount heap) (hlt : out.getAmount heap < s.coinLowestLarger.1) :
    { s with coinLowestLarger := (out.getAmount heap, some out) }.Inv heap nForkHeight nTxTime nTargetValue
      nMaxInput (done ++ [out]) := by
  obtain ⟨dropped, hperm, hlen, hle⟩ := hs.kept
  have hlow : isLower heap nForkHeight nTxTime nTargetValue out = false := by
    simp [isLower, not_lt.mpr hT.le]
  refine { hs with kept := ⟨dropped, ?_, hlen, hle⟩, larger := ?_, lowestLarger := ?_, unset := ?_ }
  · rwa [List.filter_append, List.filter_singleton, hlow, cond_false, List.append_nil]
  · intro o ho hsel hle'
    rcases List.mem_append.mp ho with ho | ho
    · obtain ⟨hT', hlo⟩ := hs.larger o ho hsel hle'
      exact ⟨hT', by dsimp only; omega⟩
    · rw [List.mem_singleton.mp ho]
      exact ⟨hT, le_rfl⟩
  · rintro o ⟨⟩
    exact ⟨List.mem_append_right _ (List.mem_singleton_self _), hsel, hT, rfl⟩
  · rintro ⟨⟩

theorem Inv.insert (hs : s.Inv heap nForkHeight nTxTime nTargetValue nMaxInput done)
    (hlow : isLower heap nForkHeight nTxTime nTargetValue out = true) {dropped : List CWalletTxOut}
    (hperm : (s.mapValue.map Prod.snd ++ dropped).Perm (done.filter (isLower heap nForkHeight nTxTime nTargetValue))) :
    let l := Multimap.insert Prod.fst (out.getAmount heap, out) s.mapValue
    Multimap.Sorted Prod.fst l ∧ (∀ e ∈ l, e.1 = e.2.getAmount heap) ∧
      (l.map Prod.fst).sum = out.getAmount heap + (s.mapValue.map Prod.fst).sum ∧
      (l.map Prod.snd ++ dropped).Perm ((done ++ [out]).filter (isLower heap nForkHeight nTxTime nTargetValue)) := by
  have hl : (Multimap.insert Prod.fst (out.getAmount heap, out) s.mapValue).Perm ((out.getAmount heap, out) :: s.mapValue) :=
    Multimap.perm_insert _ _
  refine ⟨Multimap.sorted_insert hs.sorted, ?_, ?_, ?_⟩
  · intro e he
    rcases Multimap.mem_insert.mp he with rfl | he
    · rfl
    · exact hs.key e he
  · rw [(hl.map Prod.fst).sum_eq, List.map_cons, List.sum_cons]
  · rw [List.filter_append, List.filter_singleton, hlow, cond_true]
    exact ((hl.map Prod.snd).append_right dropped).trans
      ((List.perm_append_singleton out _).symm.trans (hperm.append_right [out]))

theorem Inv.addLower (hs : s.Inv heap nForkHeight nTxTime nTargetValue nMaxInput done)
    (hlow : isLower heap nForkHeight nTxTime nTargetValue out = true) :
    (addLower heap nMaxInput s out).Inv heap nForkHeight nTxTime nTargetValue nMaxInput (done ++ [out]) := by
  have hamt : out.getAmount heap < nTargetValue := by
    simp only [isLower, Bool.and_eq_true, decide_eq_true_eq] at hlow
    exact hlow.2
  obtain ⟨dropped, hperm, hlen, hle⟩ := hs.kept
  obtain ⟨hsorted, hkey, hsum, hperm'⟩ := hs.insert hlow hperm
  have hlength : (Multimap.insert Prod.fst (out.getAmount heap, out) s.mapValue).length = s.mapValue.length + 1 :=
    Multimap.length_insert _ _
  have hlarger : ∀ o ∈ done ++ [out], o.isSelectable heap nForkHeight nTxTime = true →
      nTargetValue ≤ o.getAmount heap → nTargetValue < o.getAmount heap ∧ s.coinLowestLarger.1 ≤ o.getAmount heap := by
    intro o ho
    rcases List.mem_append.mp ho with ho | ho
    · exact hs.larger o ho
    · rw [List.mem_singleton.mp ho]
      intro _ hT
      omega
  have hlowest : ∀ o, s.coinLowestLarger.2 = some o → o ∈ done ++ [out] ∧
      o.isSelectable heap nForkHeight nTxTime = true ∧ nTargetValue < o.getAmount heap ∧
        s.coinLowestLarger.1 = o.getAmount heap := by
    intro o ho
    obtain ⟨hmem, h⟩ := hs.lowestLarger o ho
    exact ⟨List.mem_append_left _ hmem, h⟩
  unfold Wallet.addLower
  dsimp only
  rcases Nat.lt_or_ge s.mapValue.length nMaxInput with hroom | hfull
  · -- room for the new coin: nothing leaves, and nothing was dropped before
    obtain rfl : dropped = [] := hlen.resolve_right (by omega)
    rw [evictSmallest_of_length_le (by omega)]
    refine ⟨hsorted, hkey, ?_, ?_, ⟨[], hperm', .inl rfl, fun _ h => nomatch h⟩, hlarger, hlowest, hs.unset⟩
    · dsimp only
      rw [hsum, hs.total]
      omega
    · dsimp only
      omega
  · -- full: the smallest of the coins with the new one leaves
    have hfull : s.mapValue.length = nMaxInput := le_antisymm hs.length_le hfull
    obtain ⟨h, l, hl⟩ := List.exists_cons_of_ne_nil
      (List.ne_nil_of_length_pos (by omega : 0 < (Multimap.insert Prod.fst (out.getAmount heap, out) s.mapValue).length))
    rw [hl] at hsorted hkey hsum hperm' hlength ⊢
    rw [List.length_cons] at hlength
    rw [evictSmallest_cons_of_length_eq (by omega)]
    obtain ⟨hhead, htail⟩ := List.pairwise_cons.mp hsorted
    refine ⟨htail, fun e he => hkey e (List.mem_cons_of_mem _ he), ?_, by dsimp only; omega,
      ⟨h.2 :: dropped, ?_, .inr (by dsimp only; omega), ?_⟩, hlarger, hlowest, hs.unset⟩
    · rw [List.map_cons, List.sum_cons] at hsum
      dsimp only
      rw [hs.total]
      omega
    · exact List.perm_middle.trans hperm'
    · intro x hx e he
      rcases List.mem_cons.mp hx with rfl | hx
      · rw [← hkey h List.mem_cons_self]
        exact hhead e he
      · -- a dropped coin is below every coin kept before; the new coin is
        -- kept only when it is not the smallest, so not below the dropped ones
        have he' : e ∈ Multimap.insert Prod.fst (out.getAmount heap, out) s.mapValue := by
          rw [hl]
          exact List.mem_cons_of_mem _ he
        rcases Multimap.mem_insert.mp he' with rfl | he'
        · by_contra hlt
          have hfirst : Multimap.insert Prod.fst (out.getAmount heap, out) s.mapValue =
              (out.getAmount heap, out) :: s.mapValue :=
            Multimap.insert_of_forall_lt fun b hb => lt_of_lt_of_le (not_le.mp hlt) (hle x hx b hb)
          rw [hl, List.cons.injEq] at hfirst
          rw [hfirst.2] at he
          exact hlt (hle x hx _ he)
        · exact hle x hx e he'

end SelectScan

theorem scanCoins_inl {s : SelectScan} {coins : List CWalletTxOut} {out : CWalletTxOut}
    (h : scanCoins heap nForkHeight nTxTime nTargetValue nMaxInput s coins = .inl out) :
    out ∈ coins ∧ out.isSelectable heap nForkHeight nTxTime = true ∧ out.getAmount heap = nTargetValue := by
  fun_induction scanCoins heap nForkHeight nTxTime nTargetValue nMaxInput s coins with
  | case1 => cases h
  | case2 s o coins hsel _ heq =>
    cases h
    exact ⟨List.mem_cons_self, hsel, heq⟩
  | case3 => cases h
  | case4 s o coins _ _ _ _ _ _ ih | case5 s o coins _ _ _ _ _ ih | case6 s o coins _ _ _ _ _ ih
  | case7 s o coins _ ih =>
    obtain ⟨hmem, h⟩ := ih h
    exact ⟨List.mem_cons_of_mem _ hmem, h⟩

theorem exists_prefix_cons {s' : SelectScan} {done coins : List CWalletTxOut} {o : CWalletTxOut}
    (h : ∃ pre, pre <+: coins ∧ s'.Inv heap nForkHeight nTxTime nTargetValue nMaxInput (done ++ [o] ++ pre) ∧
      (s'.nTotalLower < nTargetValue → pre = coins)) :
    ∃ pre, pre <+: o :: coins ∧ s'.Inv heap nForkHeight nTxTime nTargetValue nMaxInput (done ++ pre) ∧
      (s'.nTotalLower < nTargetValue → pre = o :: coins) := by
  obtain ⟨pre, hpre, hinv, hall⟩ := h
  refine ⟨o :: pre, List.cons_prefix_cons.mpr ⟨rfl, hpre⟩, ?_, fun hlt => by rw [hall hlt]⟩
  rwa [List.append_assoc, List.singleton_append] at hinv

theorem scanCoins_inr {s s' : SelectScan} {done coins : List CWalletTxOut}
    (hs : s.Inv heap nForkHeight nTxTime nTargetValue nMaxInput done)
    (h : scanCoins heap nForkHeight nTxTime nTargetValue nMaxInput s coins = .inr s') :
    ∃ pre, pre <+: coins ∧ s'.Inv heap nForkHeight nTxTime nTargetValue nMaxInput (done ++ pre) ∧
      (s'.nTotalLower < nTargetValue → pre = coins) := by
  fun_induction scanCoins heap nForkHeight nTxTime nTargetValue nMaxInput s coins generalizing done with
  | case1 s =>
    cases h
    exact ⟨[], List.prefix_refl _, by rwa [List.append_nil], fun _ => rfl⟩
  | case2 => cases h
  | case3 =>
    rename_i o coins hsel _ _ hlt _ hbreak
    rw [← Sum.inr.inj h]
    have hlow : isLower heap nForkHeight nTxTime nTargetValue o = true := by
      simpa [isLower, hsel] using hlt
    exact ⟨[o], List.cons_prefix_cons.mpr ⟨rfl, List.nil_prefix⟩, hs.addLower hlow,
      fun hlt' => absurd hbreak (not_le.mpr hlt')⟩
  | case4 =>
    rename_i o coins hsel _ _ hlt _ _ ih
    have hlow : isLower heap nForkHeight nTxTime nTargetValue o = true := by
      simpa [isLower, hsel] using hlt
    exact exists_prefix_cons (ih (hs.addLower hlow) h)
  | case5 =>
    rename_i o coins hsel _ hne hnlt hlt ih
    exact exists_prefix_cons (ih (hs.append_lowestLarger hsel (by omega) hlt) h)
  | case6 =>
    rename_i o coins _ _ hne hnlt hnlt' ih
    have hlow : isLower heap nForkHeight nTxTime nTargetValue o = false := by
      simp only [isLower, Bool.and_eq_false_iff, decide_eq_false_iff_not]
      exact .inr hnlt
    exact exists_prefix_cons (ih (hs.append_of_not_lower hlow fun _ _ => ⟨by omega, not_lt.mp hnlt'⟩) h)
  | case7 =>
    rename_i o coins hsel ih
    have hlow : isLower heap nForkHeight nTxTime nTargetValue o = false := by
      simp [isLower, hsel]
    exact exists_prefix_cons (ih (hs.append_of_not_lower hlow fun h' => absurd h' (by simp [hsel])) h)

/-! ## The loop on `lower_bound` -/

theorem takeLowerBound_spec {fuel : Nat} {mapValue : List (Int × CWalletTxOut)} {nValueRet : Int}
    (hfuel : mapValue.length ≤ fuel) (hsum : nTargetValue - nValueRet ≤ (mapValue.map Prod.fst).sum) :
    ∃ taken : List (Int × CWalletTxOut), taken.Subperm mapValue ∧
      nTargetValue ≤ nValueRet + (taken.map Prod.fst).sum ∧ ∀ vCoins,
        takeLowerBound nTargetValue fuel mapValue nValueRet vCoins =
          some (nValueRet + (taken.map Prod.fst).sum, vCoins ++ taken.map Prod.snd) := by
  induction fuel generalizing mapValue nValueRet with
  | zero =>
    obtain rfl : mapValue = [] := List.eq_nil_of_length_eq_zero (by omega)
    rw [List.map_nil, List.sum_nil] at hsum
    refine ⟨[], List.nil_subperm, by simp; omega, fun vCoins => ?_⟩
    rw [takeLowerBound, if_neg (by omega)]
    simp
  | succ fuel ih =>
    by_cases hlt : nValueRet < nTargetValue
    · have hne : mapValue ≠ [] := by
        rintro rfl
        rw [List.map_nil, List.sum_nil] at hsum
        omega
      have hpos : 0 < mapValue.length := List.length_pos_of_ne_nil hne
      have hle : Multimap.lowerBound Prod.fst (nTargetValue - nValueRet) mapValue ≤ mapValue.length :=
        Multimap.lowerBound_le_length _ _
      -- the coin of `lower_bound`, or the last one when `lower_bound` is `end()`
      set i := if Multimap.lowerBound Prod.fst (nTargetValue - nValueRet) mapValue = mapValue.length
        then Multimap.lowerBound Prod.fst (nTargetValue - nValueRet) mapValue - 1
        else Multimap.lowerBound Prod.fst (nTargetValue - nValueRet) mapValue with hi
      have hilt : i < mapValue.length := by
        rw [hi]
        split <;> omega
      have hperm := List.getElem_cons_eraseIdx_perm hilt
      have hrest : (mapValue.map Prod.fst).sum = mapValue[i].1 + ((mapValue.eraseIdx i).map Prod.fst).sum := by
        rw [← (hperm.map Prod.fst).sum_eq, List.map_cons, List.sum_cons]
      have hlen : (mapValue.eraseIdx i).length ≤ fuel := by
        rw [List.length_eraseIdx_of_lt hilt]
        omega
      obtain ⟨taken, hsub, hreach, heq⟩ :=
        ih hlen (by omega : nTargetValue - (nValueRet + mapValue[i].1) ≤ _)
      refine ⟨mapValue[i] :: taken, ((List.subperm_cons _).mpr hsub).trans hperm.subperm, ?_, fun vCoins => ?_⟩
      · rw [List.map_cons, List.sum_cons]
        omega
      · rw [takeLowerBound, if_pos hlt]
        simp only [← hi, List.getElem?_eq_getElem hilt, heq, List.map_cons, List.sum_cons, List.append_assoc,
          List.singleton_append, Option.some.injEq, Prod.mk.injEq, and_true]
        omega
    · refine ⟨[], List.nil_subperm, by simp; omega, fun vCoins => ?_⟩
      rw [takeLowerBound, if_neg hlt]
      simp

/-! ## What the loop leaves -/

theorem sum_fst_eq {l : List (Int × CWalletTxOut)} (h : ∀ e ∈ l, e.1 = e.2.getAmount heap) :
    (l.map Prod.fst).sum = ((l.map Prod.snd).map (CWalletTxOut.getAmount heap)).sum := by
  rw [List.map_map]
  exact congrArg List.sum (List.map_congr_left h)

namespace SelectScan

variable {done : List CWalletTxOut} {s : SelectScan}

theorem Inv.mem_kept (hs : s.Inv heap nForkHeight nTxTime nTargetValue nMaxInput done)
    {e : Int × CWalletTxOut} (he : e ∈ s.mapValue) :
    e.2 ∈ done ∧ isLower heap nForkHeight nTxTime nTargetValue e.2 = true := by
  obtain ⟨dropped, hperm, -, -⟩ := hs.kept
  exact List.mem_filter.mp (hperm.subset (List.mem_append_left _ (List.mem_map_of_mem he)))

theorem Inv.nodup_kept (hs : s.Inv heap nForkHeight nTxTime nTargetValue nMaxInput done) (hdone : done.Nodup) :
    (s.mapValue.map Prod.snd).Nodup := by
  obtain ⟨dropped, hperm, -, -⟩ := hs.kept
  exact (hperm.nodup_iff.mpr (hdone.filter _)).sublist (List.sublist_append_left _ _)

theorem Inv.sum_lt_of_unset {c : CWalletCoins} (hs : s.Inv heap nForkHeight nTxTime nTargetValue nMaxInput c.setCoins)
    (hamount : ∀ out ∈ c.setCoins, 0 < out.getAmount heap ∧ out.getAmount heap < INT64_MAX)
    (hunset : s.coinLowestLarger.2 = none) (hshort : s.nTotalLower < nTargetValue) {vSub : List CWalletTxOut}
    (hsub : c.Selection heap nForkHeight nTxTime vSub) (hlen : vSub.length ≤ nMaxInput) :
    (vSub.map (CWalletTxOut.getAmount heap)).sum < nTargetValue := by
  obtain ⟨dropped, hperm, hfull, hle⟩ := hs.kept
  have hlower : ∀ o ∈ vSub, o ∈ c.setCoins.filter (isLower heap nForkHeight nTxTime nTargetValue) := by
    intro o ho
    obtain ⟨hmem, hsel⟩ := hsub.2 o ho
    refine List.mem_filter.mpr ⟨hmem, ?_⟩
    simp only [isLower, hsel, Bool.true_and, decide_eq_true_eq]
    by_contra hge
    have hmax := (hs.larger o hmem hsel (not_lt.mp hge)).2
    rw [hs.unset hunset] at hmax
    exact absurd (hamount o hmem).2 (not_lt.mpr hmax)
  have hsp : vSub.Subperm (s.mapValue.map Prod.snd ++ dropped) := (hsub.1.subperm hlower).trans hperm.symm.subperm
  have hlen' : vSub.length ≤ (s.mapValue.map Prod.snd).length := by
    rcases hfull with rfl | hfull
    · rw [List.append_nil] at hsp
      exact hsp.length_le
    · rw [List.length_map, hfull]
      exact hlen
  have hkept : ∀ y ∈ s.mapValue.map Prod.snd, 0 ≤ y.getAmount heap := by
    intro y hy
    obtain ⟨e, he, rfl⟩ := List.mem_map.mp hy
    exact (hamount e.2 (hs.mem_kept he).1).1.le
  have hdropped : ∀ x ∈ dropped, ∀ y ∈ s.mapValue.map Prod.snd, x.getAmount heap ≤ y.getAmount heap := by
    intro x hx y hy
    obtain ⟨e, he, rfl⟩ := List.mem_map.mp hy
    rw [← hs.key e he]
    exact hle x hx e he
  calc (vSub.map (CWalletTxOut.getAmount heap)).sum
      ≤ ((s.mapValue.map Prod.snd).map (CWalletTxOut.getAmount heap)).sum :=
        Multimap.sum_le_of_subperm_append hkept hdropped hsp hlen'
    _ = s.nTotalLower := by rw [hs.total, sum_fst_eq hs.key]
    _ < nTargetValue := hshort

end SelectScan

end Scan

/-! ## What `SelectCoins` gives -/

section Spec

variable {heap : Heap} {nForkHeight nTxTime nTargetValue : Int} {nMaxInput : Nat} {c : CWalletCoins}

theorem CWalletCoins.Valued.sum_le_nTotalValue (hc : c.Valued heap)
    (hpos : ∀ out ∈ c.setCoins, 0 ≤ out.getAmount heap) {vSub : List CWalletTxOut}
    (hsub : c.Selection heap nForkHeight nTxTime vSub) :
    (vSub.map (CWalletTxOut.getAmount heap)).sum ≤ c.nTotalValue := by
  have hsp : vSub.Subperm (c.setCoins ++ []) := by
    rw [List.append_nil]
    exact hsub.1.subperm fun o ho => (hsub.2 o ho).1
  rw [hc.total]
  exact Multimap.sum_le_of_subperm_append hpos (fun _ h => absurd h List.not_mem_nil) hsp
    (by simpa using hsp.length_le)

theorem SelectScan.Inv.selectSpec_of_taken {s : SelectScan} {pre : List CWalletTxOut}
    (hs : s.Inv heap nForkHeight nTxTime nTargetValue nMaxInput pre) (hpre : pre <+: c.setCoins)
    (hc : c.Valued heap) {taken : List (Int × CWalletTxOut)} (hsub : taken.Subperm s.mapValue) :
    c.Selection heap nForkHeight nTxTime (taken.map Prod.snd) ∧
      (taken.map Prod.fst).sum = ((taken.map Prod.snd).map (CWalletTxOut.getAmount heap)).sum := by
  have hmem : ∀ e ∈ taken, e.2 ∈ c.setCoins ∧ e.2.isSelectable heap nForkHeight nTxTime = true := by
    intro e he
    obtain ⟨hdone, hlow⟩ := hs.mem_kept (hsub.subset he)
    simp only [isLower, Bool.and_eq_true] at hlow
    exact ⟨hpre.subset hdone, hlow.1⟩
  obtain ⟨l, hl, hsl⟩ := hsub
  refine ⟨⟨(hl.map Prod.snd).nodup_iff.mp ((hsl.map Prod.snd).nodup (hs.nodup_kept (hc.nodup.sublist hpre.sublist))),
    ?_⟩, sum_fst_eq fun e he => hs.key e (hsl.subset (hl.symm.subset he))⟩
  intro o ho
  obtain ⟨e, he, rfl⟩ := List.mem_map.mp ho
  exact hmem e he

/-- `SelectCoins` on a valued coin set of positive amounts below `INT64_MAX`,
with room for four inputs, has a defined result: coins of the set that pay
for the target, or a value short of it only when no `nMaxInput` selectable
coins reach it. -/
theorem selectCoinsIn_spec (hc : c.Valued heap)
    (hamount : ∀ out ∈ c.setCoins, 0 < out.getAmount heap ∧ out.getAmount heap < INT64_MAX) (hmax : 4 ≤ nMaxInput) :
    ∃ nValue vOut, selectCoinsIn heap nForkHeight nTxTime nTargetValue nMaxInput c = some (nValue, vOut) ∧
      c.SelectSpec heap nForkHeight nTxTime nTargetValue nMaxInput nValue vOut := by
  have hpos : ∀ out ∈ c.setCoins, 0 ≤ out.getAmount heap := fun out h => (hamount out h).1.le
  have hnil : c.Selection heap nForkHeight nTxTime [] := ⟨List.nodup_nil, fun _ h => absurd h List.not_mem_nil⟩
  unfold selectCoinsIn
  split_ifs with htotal
  · -- the whole set falls short of the target
    have h0 := hc.sum_le_nTotalValue hpos hnil
    rw [List.map_nil, List.sum_nil] at h0
    exact ⟨0, [], rfl, hnil, rfl,
      .inr ⟨by simpa using h0.trans_lt htotal, fun _ hsub _ => (hc.sum_le_nTotalValue hpos hsub).trans_lt htotal⟩⟩
  · cases hscan : scanCoins heap nForkHeight nTxTime nTargetValue nMaxInput SelectScan.init c.setCoins with
    | inl out =>
      obtain ⟨hmem, hsel, hamt⟩ := scanCoins_inl hscan
      refine ⟨out.getAmount heap, [out], rfl, ⟨List.nodup_singleton out, ?_⟩, by simp, .inl ⟨hamt.ge, by simp; omega⟩⟩
      intro o ho
      rw [List.mem_singleton.mp ho]
      exact ⟨hmem, hsel⟩
    | inr s =>
      obtain ⟨pre, hpre, hs, hall⟩ := scanCoins_inr SelectScan.inv_init hscan
      rw [List.nil_append] at hs
      dsimp only
      split_ifs with hreach
      · -- the coins kept reach the target: the loop on `lower_bound` takes some of them
        obtain ⟨taken, hsub, hge, heq⟩ :=
          takeLowerBound_spec (le_refl s.mapValue.length) (show nTargetValue - 0 ≤ _ by rw [← hs.total]; omega)
        obtain ⟨hsel, hval⟩ := hs.selectSpec_of_taken hpre hc hsub
        rw [heq []]
        refine ⟨_, _, rfl, hsel, by rw [zero_add, hval, List.nil_append], .inl ⟨hge, ?_⟩⟩
        rw [List.nil_append, List.length_map]
        exact hsub.length_le.trans hs.length_le
      · -- every coin was gone through
        have hshort : s.nTotalLower < nTargetValue := not_le.mp hreach
        obtain rfl := hall hshort
        cases hll : s.coinLowestLarger.2 with
        | none =>
          have h0 := hs.sum_lt_of_unset hamount hll hshort hnil (Nat.zero_le _)
          exact ⟨0, [], rfl, hnil, rfl,
            .inr ⟨by simpa using h0, fun _ hsub hlen => hs.sum_lt_of_unset hamount hll hshort hsub hlen⟩⟩
        | some out =>
          obtain ⟨hmem, hsel, hT, hval⟩ := hs.lowestLarger out hll
          have hnull := hc.nonnull out hmem
          obtain ⟨hsel3, hval3⟩ := hs.selectSpec_of_taken hpre hc (List.take_sublist 3 s.mapValue).subperm
          have hnot : out ∉ (s.mapValue.take 3).map Prod.snd := by
            intro h
            obtain ⟨e, he, rfl⟩ := List.mem_map.mp h
            have hlow := (hs.mem_kept (List.mem_of_mem_take he)).2
            simp only [isLower, Bool.and_eq_true, decide_eq_true_eq] at hlow
            omega
          have hkeys : 0 ≤ ((s.mapValue.take 3).map Prod.fst).sum := by
            rw [hval3]
            exact List.sum_nonneg fun x hx => by
              obtain ⟨o, ho, rfl⟩ := List.mem_map.mp hx
              exact hpos o (hsel3.2 o ho).1
          dsimp only
          rw [if_neg (by simp [hnull])]
          refine ⟨_, _, rfl, ⟨List.nodup_cons.mpr ⟨hnot, hsel3.1⟩, ?_⟩, ?_, .inl ⟨by omega, ?_⟩⟩
          · intro o ho
            rcases List.mem_cons.mp ho with rfl | ho
            · exact ⟨hmem, hsel⟩
            · exact hsel3.2 o ho
          · rw [List.map_cons, List.sum_cons, hval, hval3]
          · rw [List.length_cons, List.length_map]
            have := List.length_take_le 3 s.mapValue
            omega

end Spec

/-! ## `SelectCoins` of a wallet -/

/-- `SelectCoins` for a destination's coins on a fork of positive amounts
within `MAX_MONEY`, with room for four inputs, in a wallet whose coin sets are
valued, as every run keeps them: it has a defined result, distinct selectable
coins of the set worth the value returned, at most `nMaxInput` of them when
they pay for the target, and a value short of it only when no `nMaxInput`
selectable coins of the set reach it. -/
theorem CWallet.selectCoins_pays_target (w : CWallet) (hw : w.Valued) (dest : CDestination) (hashFork : Nat)
    (nForkHeight nTxTime nTargetValue : Int) (nMaxInput : Nat)
    (hamount : ∀ out ∈ ((w.unspentOf dest).getCoins hashFork).setCoins,
      0 < out.getAmount w.heap ∧ out.getAmount w.heap ≤ MAX_MONEY)
    (hmax : 4 ≤ nMaxInput) :
    ∃ nValue vOut, w.selectCoins dest hashFork nForkHeight nTxTime nTargetValue nMaxInput =
        some (nValue, vOut.map (CWalletTxOut.getTxOutPoint w.heap)) ∧
      ((w.unspentOf dest).getCoins hashFork).SelectSpec w.heap nForkHeight nTxTime nTargetValue nMaxInput nValue vOut := by
  have hmoney : MAX_MONEY < INT64_MAX := by decide
  obtain ⟨nValue, vOut, h, hspec⟩ := @selectCoinsIn_spec w.heap nForkHeight nTxTime nTargetValue nMaxInput _
    (hw dest hashFork) (fun out ho => ⟨(hamount out ho).1, (hamount out ho).2.trans_lt hmoney⟩) hmax
  exact ⟨nValue, vOut, by rw [CWallet.selectCoins, h]; rfl, hspec⟩

theorem selectCoins_pays_target_of_one_coin :
    let crypto : Crypto := ⟨fun bs => (bs.map UInt8.toNat).sum, fun _ _ _ => true, fun _ _ _ _ => none⟩
    let dest := CDestination.ofPubKey 1
    let tx : CTransaction := ⟨1, CTransaction.TX_TOKEN, 1, 0, 0, [], dest, 100, 0, [], []⟩
    let w := CWallet.empty.run crypto (· == dest)
      [.addNewFork 1 0 0 (some true), .addNewTx 1 ⟨tx, CDestination.null, 0, -1⟩]
    ∃ nValue vOut, w.selectCoins dest 1 0 1 50 4 = some (nValue, vOut.map (CWalletTxOut.getTxOutPoint w.heap)) ∧
      ((w.unspentOf dest).getCoins 1).SelectSpec w.heap 0 1 50 4 nValue vOut :=
  CWallet.selectCoins_pays_target _ (CWallet.run_valued _ _ _ CWallet.empty_valued _) _ _ _ _ _ _
    (by decide) (by decide)

/-- A coin of `INT64_MAX`, the start of the search for the smallest larger
coin, is never that coin: alone in the coin set of a wallet that a run
reached, and selectable, it pays for a target of 1, and `SelectCoins`
returns 0 with no coins. -/
theorem selectCoins_misses_coin_of_int64_max :
    let crypto : Crypto := ⟨fun bs => (bs.map UInt8.toNat).sum, fun _ _ _ => true, fun _ _ _ _ => none⟩
    let dest := CDestination.ofPubKey 1
    let tx : CTransaction := ⟨1, CTransaction.TX_TOKEN, 1, 0, 0, [], dest, INT64_MAX, 0, [], []⟩
    let w := CWallet.empty.run crypto (· == dest)
      [.addNewFork 1 0 0 (some true), .addNewTx 1 ⟨tx, CDestination.null, 0, -1⟩]
    let coins := (w.unspentOf dest).getCoins 1
    coins.setCoins.map (CWalletTxOut.getAmount w.heap) = [INT64_MAX] ∧
      coins.Selection w.heap 0 1 coins.setCoins ∧
      w.selectCoins dest 1 0 1 1 4 = some (0, []) := by
  decide

end Multiverse.Wallet
