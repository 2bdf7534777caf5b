import Mathlib.Data.List.Dedup
import Mathlib.Data.Nat.Pairing
import Multiverse.Core.Validate
import Multiverse.Lib.Merkle

/-! # The flat merkle vector of a block

`CBlock::BuildMerkleTree(vMerkleTree)` writes the whole tree into one vector:
the transaction ids, then each level after the one below, the level of
`nSize` entries starting at `j`; its last entry is the root, and zero stands
for no transactions. `ValidateBlock` checks the root against `hashMerkle`,
and duplicates by the size of the set of the first `vtx.size()` entries.

The hash of a pair, `CryptoHash(a, b)`, is the parameter `H`; a block's is
`CBlock.merkleHash crypto`. The vector holds the levels `Merkle.level H` one
after another, so its last entry is `Merkle.root H 0`, which the root of the
block model computes.
-/

namespace Multiverse

open MvErr

namespace CBlock

variable (H : Nat → Nat → Nat)

/-- The inner loop of `BuildMerkleTree` over the level of `nSize` entries from
`j` on: for `i = 0, 2, 4, ...` below `nSize`, the hash of the entries `j + i`
and `j + min (i + 1) (nSize - 1)` is appended. -/
def merkleLevelVec (j nSize : Nat) (vMerkleTree : List Nat) : List Nat :=
  (List.range ((nSize + 1) / 2)).foldl
    (fun vt k => vt ++ [H (vt.getD (j + 2 * k) 0) (vt.getD (j + min (2 * k + 1) (nSize - 1)) 0)])
    vMerkleTree

/-- The outer loop of `BuildMerkleTree`, while `nSize > 1`, with `j` the start
of the current level, with a fuel. -/
def merkleTreeVec : Nat → List Nat → Nat → Nat → List Nat
  | 0, vt, _, _ => vt
  | fuel + 1, vt, j, nSize =>
    if 1 < nSize then merkleTreeVec fuel (merkleLevelVec H j nSize vt) (j + nSize) ((nSize + 1) / 2)
    else vt

/-- `BuildMerkleTree(vMerkleTree)` over the transaction ids `vTxid`: the root,
zero for none, and the vector. A level of `n ≥ 2` entries has `(n + 1) / 2`
above it, so `n` rounds are enough. -/
def buildMerkleTreeVec (vTxid : List Nat) : Nat × List Nat :=
  let vMerkleTree := merkleTreeVec H vTxid.length vTxid 0 vTxid.length
  (vMerkleTree.getLast?.getD 0, vMerkleTree)

/-- The merkle and duplicate checks of `ValidateBlock` on a block of
transaction ids `vTxid`. -/
def validateMerkle (hashMerkle : Nat) (vTxid : List Nat) : MvErr :=
  let r := buildMerkleTreeVec H vTxid
  if hashMerkle != r.1 then MV_ERR_BLOCK_TXHASH_MISMATCH
  else if (r.2.take vTxid.length).dedup.length != vTxid.length then MV_ERR_BLOCK_DUPLICATED_TRANSACTION
  else MV_OK

variable {H}

theorem getD_append_of_lt (pre u t : List Nat) {i : Nat} (hi : i < u.length) :
    (pre ++ u ++ t).getD (pre.length + i) 0 = u.getD i 0 := by
  rw [List.getD_eq_getElem?_getD, List.getD_eq_getElem?_getD, List.append_assoc,
    List.getElem?_append_right (by omega), Nat.add_sub_cancel_left, List.getElem?_append_left hi]

theorem merkleLevelVec_append (pre u : List Nat) :
    merkleLevelVec H pre.length u.length (pre ++ u) = pre ++ u ++ Merkle.level H u := by
  have hk : ∀ k ≤ (u.length + 1) / 2, (List.range k).foldl
      (fun vt k => vt ++ [H (vt.getD (pre.length + 2 * k) 0)
        (vt.getD (pre.length + min (2 * k + 1) (u.length - 1)) 0)]) (pre ++ u) =
      pre ++ u ++ (Merkle.level H u).take k := by
    intro k
    induction k with
    | zero => simp
    | succ k ih =>
      intro hk
      rw [List.range_succ, List.foldl_append, ih (by omega), List.foldl_cons, List.foldl_nil,
        List.take_add_one, Merkle.getElem?_level 0 u (by omega), Option.toList_some,
        getD_append_of_lt _ _ _ (by omega), getD_append_of_lt _ _ _ (by omega), List.append_assoc]
  rw [merkleLevelVec, hk _ le_rfl, List.take_of_length_le (by simp)]

theorem merkleTreeVec_spec (fuel : Nat) (pre u : List Nat) (hu : u ≠ []) (hfuel : u.length ≤ fuel + 1) :
    ∃ rest, merkleTreeVec H fuel (pre ++ u) pre.length u.length = pre ++ u ++ rest ∧
      (pre ++ u ++ rest).getLast? = some (Merkle.root H 0 fuel u) := by
  induction fuel generalizing pre u with
  | zero =>
    rcases u with _ | ⟨a, _ | ⟨b, rest⟩⟩
    · exact absurd rfl hu
    · exact ⟨[], by simp [merkleTreeVec], by simp [Merkle.root]⟩
    · simp at hfuel
  | succ fuel ih =>
    rcases u with _ | ⟨a, _ | ⟨b, rest⟩⟩
    · exact absurd rfl hu
    · exact ⟨[], by simp [merkleTreeVec], by simp [Merkle.root]⟩
    · -- one round appends the next level, and the loop goes on from it
      have hne : Merkle.level H (a :: b :: rest) ≠ [] := by simp [Merkle.level]
      have hlen : (Merkle.level H (a :: b :: rest)).length ≤ fuel + 1 := by
        rw [Merkle.length_level]
        simp only [List.length_cons] at hfuel ⊢
        omega
      obtain ⟨rest', hv, hlast⟩ := ih (pre ++ a :: b :: rest) _ hne hlen
      refine ⟨Merkle.level H (a :: b :: rest) ++ rest', ?_, ?_⟩
      · have hj : pre.length + (a :: b :: rest).length = (pre ++ a :: b :: rest).length := by simp
        have hn : ((a :: b :: rest).length + 1) / 2 = (Merkle.level H (a :: b :: rest)).length := by simp
        rw [merkleTreeVec, if_pos (by simp), merkleLevelVec_append, hj, hn, hv, List.append_assoc]
      · rw [← List.append_assoc, hlast, Merkle.root]

theorem buildMerkleTreeVec_take (vTxid : List Nat) :
    (buildMerkleTreeVec H vTxid).2.take vTxid.length = vTxid := by
  match vTxid with
  | [] => rfl
  | x :: xs =>
    obtain ⟨rest, hv, -⟩ := @merkleTreeVec_spec H (x :: xs).length [] (x :: xs) (by simp) (by omega)
    rw [List.nil_append, List.length_nil] at hv
    simp only [buildMerkleTreeVec]
    rw [hv, List.take_left' rfl]

theorem buildMerkleTreeVec_fst (vTxid : List Nat) :
    (buildMerkleTreeVec H vTxid).1 = Merkle.root H 0 vTxid.length vTxid := by
  match vTxid with
  | [] => rfl
  | x :: xs =>
    obtain ⟨rest, hv, hlast⟩ := @merkleTreeVec_spec H (x :: xs).length [] (x :: xs) (by simp) (by omega)
    rw [List.nil_append, List.length_nil] at hv
    rw [List.nil_append] at hlast
    simp only [buildMerkleTreeVec]
    rw [hv, hlast]
    rfl

theorem dedup_length_eq_iff {l : List Nat} : l.dedup.length = l.length ↔ l.Nodup := by
  constructor
  · intro h
    rw [← List.dedup_eq_self]
    exact (List.dedup_sublist l).eq_of_length h
  · intro h
    rw [List.dedup_eq_self.mpr h]

theorem validateMerkle_eq (hashMerkle : Nat) (vTxid : List Nat) :
    validateMerkle H hashMerkle vTxid =
      if hashMerkle ≠ (buildMerkleTreeVec H vTxid).1 then MV_ERR_BLOCK_TXHASH_MISMATCH
      else if ¬ vTxid.Nodup then MV_ERR_BLOCK_DUPLICATED_TRANSACTION
      else MV_OK := by
  simp only [validateMerkle, bne_iff_ne, ne_eq, buildMerkleTreeVec_take, dedup_length_eq_iff]

variable (crypto : Crypto)

theorem merkleLevel_eq (l : List Nat) : merkleLevel crypto l = Merkle.level (merkleHash crypto) l := by
  fun_induction merkleLevel crypto l with
  | case1 => rfl
  | case2 a => rfl
  | case3 a b rest ih => simp only [ih, Merkle.level]

theorem merkleRoot_eq (fuel : Nat) (l : List Nat) :
    merkleRoot crypto fuel l = Merkle.root (merkleHash crypto) 0 fuel l := by
  induction fuel generalizing l with
  | zero =>
    match l with
    | [] => rfl
    | [a] => rfl
    | _ :: _ :: _ => rfl
  | succ fuel ih =>
    match l with
    | [] => rfl
    | [a] => rfl
    | a :: b :: rest =>
      show merkleRoot crypto fuel (merkleLevel crypto (a :: b :: rest)) = _
      rw [ih, merkleLevel_eq]
      rfl

theorem buildMerkleTree_eq_buildMerkleTreeVec (b : CBlock) :
    b.buildMerkleTree crypto = (buildMerkleTreeVec (merkleHash crypto) (b.vtx.map (·.getHash crypto))).1 := by
  rw [buildMerkleTree, buildMerkleTreeVec_fst, merkleRoot_eq, List.length_map]

theorem validateMerkle_merkleHash (b : CBlock) :
    validateMerkle (merkleHash crypto) b.hashMerkle (b.vtx.map (·.getHash crypto)) =
      if b.hashMerkle != b.buildMerkleTree crypto then MV_ERR_BLOCK_TXHASH_MISMATCH
      else if !(b.vtx.map (·.getHash crypto)).Nodup then MV_ERR_BLOCK_DUPLICATED_TRANSACTION
      else MV_OK := by
  rw [validateMerkle_eq, buildMerkleTree_eq_buildMerkleTreeVec]
  simp only [bne_iff_ne, ne_eq, Bool.not_eq_eq_eq_not, Bool.not_true, decide_eq_false_iff_not]

theorem validateMerkle_eq_ok {hashMerkle : Nat} {vTxid : List Nat} :
    validateMerkle H hashMerkle vTxid = MV_OK ↔ hashMerkle = (buildMerkleTreeVec H vTxid).1 ∧ vTxid.Nodup := by
  rw [validateMerkle_eq]
  split_ifs with h1 h2 <;> simp_all

theorem injective2_two_mul_pair_add_one : Function.Injective2 fun a b : Nat => 2 * Nat.pair a b + 1 := by
  intro a b c d h
  have hp : Nat.pair a c = Nat.pair b d := by
    simp only at h
    omega
  exact Nat.pair_eq_pair.mp hp

/-- The empty list and the list of the one id 0 have the same root, zero:
with a pair hash that is injective and gives odd numbers only, so never an id
when the ids are the even numbers, two different lists of ids without repeats
still share a root. -/
theorem buildMerkleTreeVec_root_of_nil_eq_of_zero :
    let H : Nat → Nat → Nat := fun a b => 2 * Nat.pair a b + 1
    Function.Injective2 H ∧ (∀ a b, ¬ H a b % 2 = 0) ∧ ([] : List Nat).Nodup ∧ [0].Nodup ∧
      (∀ x ∈ [0], x % 2 = 0) ∧
      (buildMerkleTreeVec H []).1 = (buildMerkleTreeVec H [0]).1 ∧ ([] : List Nat) ≠ [0] := by
  intro H
  refine ⟨injective2_two_mul_pair_add_one, fun a b => ?_, List.nodup_nil, List.nodup_singleton 0,
    by simp, rfl, by simp⟩
  simp only [H]
  omega

/-- With a pair hash that is injective and never gives a transaction id: two
non-empty lists of ids without repeats with the same root are the same list;
the first entries of the vector are the ids; the duplicate check rejects,
after the root check, exactly the ids with a repeat; and two non-empty lists
of ids that pass both checks with the same `hashMerkle` are the same list. -/
theorem buildMerkleTreeVec_root_injective_of_ne_nil (H : Nat → Nat → Nat) (S : Nat → Prop)
    (hH : Function.Injective2 H) (hS : ∀ a b, ¬ S (H a b)) :
    (∀ v v' : List Nat, v ≠ [] → v' ≠ [] → v.Nodup → v'.Nodup → (∀ x ∈ v, S x) → (∀ x ∈ v', S x) →
      (buildMerkleTreeVec H v).1 = (buildMerkleTreeVec H v').1 → v = v') ∧
    (∀ v : List Nat, (buildMerkleTreeVec H v).2.take v.length = v) ∧
    (∀ (hashMerkle : Nat) (v : List Nat),
      validateMerkle H hashMerkle v = MV_ERR_BLOCK_DUPLICATED_TRANSACTION ↔
        hashMerkle = (buildMerkleTreeVec H v).1 ∧ ¬ v.Nodup) ∧
    (∀ (hashMerkle : Nat) (v v' : List Nat), v ≠ [] → v' ≠ [] → (∀ x ∈ v, S x) → (∀ x ∈ v', S x) →
      validateMerkle H hashMerkle v = MV_OK → validateMerkle H hashMerkle v' = MV_OK → v = v') := by
  have hroot : ∀ v v' : List Nat, v ≠ [] → v' ≠ [] → v.Nodup → v'.Nodup → (∀ x ∈ v, S x) →
      (∀ x ∈ v', S x) → (buildMerkleTreeVec H v).1 = (buildMerkleTreeVec H v').1 → v = v' := by
    intro v v' hv hv' hn hn' hs hs' h
    rw [buildMerkleTreeVec_fst, buildMerkleTreeVec_fst] at h
    exact Merkle.root_injective hH hS 0 hv hv' hn hn' hs hs' (by omega) (by omega) h
  refine ⟨hroot, buildMerkleTreeVec_take, fun hashMerkle v => ?_, ?_⟩
  · rw [validateMerkle_eq]
    split_ifs with h1 h2 <;> simp_all
  · intro hashMerkle v v' hv hv' hs hs' hok hok'
    obtain ⟨hr, hn⟩ := validateMerkle_eq_ok.mp hok
    obtain ⟨hr', hn'⟩ := validateMerkle_eq_ok.mp hok'
    exact hroot v v' hv hv' hn hn' hs hs' (hr.symm.trans hr')

/-- The pair hash `2 * pair a b + 1`, odd, over the even ids. -/
theorem buildMerkleTreeVec_root_injective_of_ne_nil_odd_pair :
    let H : Nat → Nat → Nat := fun a b => 2 * Nat.pair a b + 1
    let S : Nat → Prop := fun x => x % 2 = 0
    (Function.Injective2 H ∧ ∀ a b, ¬ S (H a b)) ∧
    (∀ v v' : List Nat, v ≠ [] → v' ≠ [] → v.Nodup → v'.Nodup → (∀ x ∈ v, S x) → (∀ x ∈ v', S x) →
      (buildMerkleTreeVec H v).1 = (buildMerkleTreeVec H v').1 → v = v') ∧
    (∀ v : List Nat, (buildMerkleTreeVec H v).2.take v.length = v) ∧
    (∀ (hashMerkle : Nat) (v : List Nat),
      validateMerkle H hashMerkle v = MV_ERR_BLOCK_DUPLICATED_TRANSACTION ↔
        hashMerkle = (buildMerkleTreeVec H v).1 ∧ ¬ v.Nodup) ∧
    (∀ (hashMerkle : Nat) (v v' : List Nat), v ≠ [] → v' ≠ [] → (∀ x ∈ v, S x) → (∀ x ∈ v', S x) →
      validateMerkle H hashMerkle v = MV_OK → validateMerkle H hashMerkle v' = MV_OK → v = v') := by
  intro H S
  have hH : Function.Injective2 H := injective2_two_mul_pair_add_one
  have hS : ∀ a b, ¬ S (H a b) := fun a b => by
    simp only [S, H]
    omega
  exact ⟨⟨hH, hS⟩, buildMerkleTreeVec_root_injective_of_ne_nil H S hH hS⟩

end CBlock

end Multiverse
