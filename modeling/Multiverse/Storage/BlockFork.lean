import Mathlib.Data.List.Chain
import Mathlib.Data.List.Perm.Subperm
import Mathlib.Algebra.Group.Nat.Defs

/-! # The `pNext` links of a fork

`CBlockFork` of `storage/blockbase.h` keeps its origin and its last block;
the chain between them is threaded through the `pNext` field of the block
indices, which `FilterTx` and `GetForkBlockInv` of `storage/blockbase.cpp`
follow from the origin. `UpdateLast(p)` sets the last block and `UpdateNext()`
relinks: it clears `p->pNext`, then walks back from `p` while the parent does
not point to the child, and at each parent that points elsewhere it clears
the old branch along its `pNext` links before linking the parent to the child.

Pointers are values of a type `α`; `pPrev`, `IsOrigin()` and `pOrigin` of the
indices are fixed, and `pNext` is a function that the operations rewrite.
Every loop is bounded by the number of indices.

The links are *strict* for a chain when they are exactly the chain's
(`linksOf`). From strict links, `UpdateLast(p)` leaves the links strict for the
chain of `p`, unless `p` is a proper ancestor of the old last block: then the
old branch after `p` keeps its links (`updateNext_eq`). The walk from the
origin is the chain of `p` in both cases, but the links left behind make a
later `UpdateLast` stop early and `GetForkBlockInv` step off the chain.
-/

namespace Multiverse.Storage

/-- What `CBlockFork` reads of the block indices: `pPrev`, `IsOrigin()` and
`pOrigin` of each, and the indices themselves, whose number bounds the loops. -/
structure IndexLinks (α : Type) where
  pPrev : α → Option α
  isOrigin : α → Bool
  pOrigin : α → α
  blocks : List α

/-- `CBlockFork`: the origin and the last block of the fork. -/
structure CBlockFork (α : Type) where
  pIndexOrigin : α
  pIndexLast : α

variable {α : Type} [DecidableEq α]

/-- The successor of `x` on `path`: the `pNext` links of a chain. -/
def linksOf : List α → α → Option α
  | a :: b :: rest, x => if x = a then some b else linksOf (b :: rest) x
  | _, _ => none

/-- The blocks met from `p` along `pNext`, at most `fuel` of them. -/
def walkNext (pNext : α → Option α) : Nat → Option α → List α
  | 0, _ => []
  | _ + 1, none => []
  | fuel + 1, some p => p :: walkNext pNext fuel (pNext p)

/-! ## The links of a chain -/

theorem linksOf_cons_of_ne {a x : α} (l : List α) (h : x ≠ a) : linksOf (a :: l) x = linksOf l x := by
  cases l with
  | nil => rfl
  | cons b rest => rw [linksOf, if_neg h]

theorem linksOf_cons_self {a : α} (l : List α) : linksOf (a :: l) a = l.head? := by
  cases l with
  | nil => rfl
  | cons b rest => rw [linksOf, if_pos rfl, List.head?_cons]

theorem linksOf_of_not_mem {l : List α} {x : α} (h : x ∉ l) : linksOf l x = none := by
  induction l with
  | nil => rfl
  | cons a l ih =>
    have hxa : x ≠ a := fun hx => h (by simp [hx])
    rw [linksOf_cons_of_ne l hxa, ih (fun hx => h (List.mem_cons_of_mem _ hx))]

theorem mem_of_linksOf_eq_some {l : List α} {x y : α} (h : linksOf l x = some y) : y ∈ l := by
  induction l with
  | nil => cases h
  | cons a l ih =>
    by_cases hx : x = a
    · rw [hx, linksOf_cons_self] at h
      exact List.mem_cons_of_mem _ (List.mem_of_mem_head? h)
    · rw [linksOf_cons_of_ne l hx] at h
      exact List.mem_cons_of_mem _ (ih h)

theorem linksOf_append_of_not_mem {l₁ l₂ : List α} {x : α} (h : x ∉ l₁) :
    linksOf (l₁ ++ l₂) x = linksOf l₂ x := by
  induction l₁ with
  | nil => rfl
  | cons a l₁ ih =>
    have hxa : x ≠ a := fun hx => h (by simp [hx])
    rw [List.cons_append, linksOf_cons_of_ne _ hxa, ih (fun hx => h (List.mem_cons_of_mem _ hx))]

theorem linksOf_append_singleton {l : List α} (hl : l.Nodup) (x y : α) :
    linksOf (l ++ [y]) x = if l.getLast? = some x then some y else linksOf l x := by
  induction l with
  | nil => rfl
  | cons a l ih =>
    have hal : a ∉ l := (List.nodup_cons.mp hl).1
    by_cases hx : x = a
    · subst hx
      rw [List.cons_append, linksOf_cons_self, linksOf_cons_self]
      cases l with
      | nil => simp
      | cons b rest =>
        have : (b :: rest).getLast? ≠ some x := fun h => hal (List.mem_of_getLast? h)
        simp [List.getLast?_cons_cons, this]
    · rw [List.cons_append, linksOf_cons_of_ne _ hx, linksOf_cons_of_ne _ hx, ih (List.nodup_cons.mp hl).2]
      cases l with
      | nil => simp [Ne.symm hx]
      | cons b rest => rw [List.getLast?_cons_cons]

theorem linksOf_getLast {l : List α} (hl : l.Nodup) {x : α} (h : l.getLast? = some x) : linksOf l x = none := by
  obtain ⟨l', rfl⟩ := List.getLast?_eq_some_iff.mp h
  have hx : x ∉ l' := fun hx => by simp [List.nodup_append] at hl; exact hl.2 x hx rfl
  rw [linksOf_append_singleton (List.nodup_append.mp hl).1, if_neg (fun h' => hx (List.mem_of_getLast? h')),
    linksOf_of_not_mem hx]

theorem linksOf_append_of_mem {l₁ l₂ : List α} (hl : (l₁ ++ l₂).Nodup) {x : α} (hx : x ∈ l₁)
    (hlast : l₁.getLast? ≠ some x) : linksOf (l₁ ++ l₂) x = linksOf l₁ x := by
  induction l₂ using List.reverseRecOn with
  | nil => rw [List.append_nil]
  | append_singleton l₂ y ih =>
    have hl' : (l₁ ++ l₂).Nodup := (List.nodup_append.mp (by rwa [List.append_assoc])).1
    rw [← List.append_assoc, linksOf_append_singleton hl', ih hl']
    rw [if_neg]
    intro h
    rcases List.eq_nil_or_concat l₂ with rfl | ⟨l₃, z, rfl⟩
    · exact hlast (by simpa using h)
    · rw [List.concat_eq_append, ← List.append_assoc, List.getLast?_append_of_ne_nil _ (by simp)] at h
      simp only [List.getLast?_singleton, Option.some.injEq] at h
      subst h
      exact (List.nodup_append.mp hl').2.2 _ hx _ (by simp) rfl

theorem walkNext_of_links {path : List α} (hnd : path.Nodup) {pNext : α → Option α}
    (h : ∀ x ∈ path, pNext x = linksOf path x) {fuel : Nat} (hfuel : path.length ≤ fuel) :
    walkNext pNext fuel path.head? = path := by
  induction path generalizing fuel with
  | nil => cases fuel <;> rfl
  | cons a rest ih =>
    obtain ⟨fuel, rfl⟩ : ∃ n, fuel = n + 1 := ⟨fuel - 1, by simp at hfuel; omega⟩
    have hrest : ∀ x ∈ rest, pNext x = linksOf rest x := fun x hx => by
      have hxa : x ≠ a := fun hxa => (List.nodup_cons.mp hnd).1 (by rwa [← hxa])
      rw [h x (List.mem_cons_of_mem _ hx), linksOf_cons_of_ne _ hxa]
    rw [List.head?_cons, walkNext, h a List.mem_cons_self, linksOf_cons_self,
      ih (List.nodup_cons.mp hnd).2 hrest (by simp at hfuel; omega)]

namespace IndexLinks

variable (L : IndexLinks α)

/-- The inner loop of `UpdateNext()`: `p->pPrev->pNext = NULL; p = p->pNext`. -/
def clearNext : Nat → Option α → (α → Option α) → α → Option α
  | 0, _, pNext => pNext
  | _ + 1, none, pNext => pNext
  | fuel + 1, some p, pNext =>
    let pNext := (L.pPrev p).elim pNext fun q => Function.update pNext q none
    clearNext fuel (pNext p) pNext

/-- The outer loop of `UpdateNext()`, from `pIndexNext` back while its parent
does not point to it. -/
def updateNextLoop : Nat → α → (α → Option α) → α → Option α
  | 0, _, pNext => pNext
  | fuel + 1, pIndexNext, pNext =>
    if L.isOrigin pIndexNext then pNext
    else
      match L.pPrev pIndexNext with
      | none => pNext
      | some pIndex =>
        if pNext pIndex = some pIndexNext then pNext
        else
          let pNext := if (pNext pIndex).isSome then L.clearNext L.blocks.length (pNext pIndex) pNext else pNext
          updateNextLoop fuel pIndex (Function.update pNext pIndex (some pIndexNext))

/-- `UpdateNext()` with `pIndexLast`. -/
def updateNext (pIndexLast : α) (pNext : α → Option α) : α → Option α :=
  L.updateNextLoop L.blocks.length pIndexLast (Function.update pNext pIndexLast none)

/-- `UpdateLast(pIndexLastIn)`: the fork and the links it leaves. -/
def updateLast (fork : CBlockFork α) (pIndexLastIn : α) (pNext : α → Option α) :
    CBlockFork α × (α → Option α) :=
  ({ fork with pIndexLast := pIndexLastIn }, L.updateNext pIndexLastIn pNext)

/-- The blocks `FilterTx(hashFork, filter)` reads: from the origin along `pNext`. -/
def filterTxWalk (fork : CBlockFork α) (pNext : α → Option α) : List α :=
  walkNext pNext L.blocks.length (some fork.pIndexOrigin)

/-- The locator loop of `GetForkBlockInv`: the index of the last hash tried,
and whether the loop stopped at one on the chain (the last block, or one
with a `pNext`). -/
def findLocator (pNext : α → Option α) (pIndexLast : α) : List (Option α) → Option α → Option α × Bool
  | [], pIndex => (pIndex, false)
  | some p :: locator, _ =>
    if p = pIndexLast ∨ (pNext p).isSome then (some p, true) else findLocator pNext pIndexLast locator (some p)
  | none :: locator, _ => findLocator pNext pIndexLast locator none

/-- The `while` loop of `GetForkBlockInv`: the blocks along `pNext` while
there is room, and where it stopped. -/
def collectNext (pNext : α → Option α) : Nat → Option α → Nat → List α × Option α
  | 0, pIndex, _ => ([], pIndex)
  | _ + 1, none, _ => ([], none)
  | fuel + 1, some p, room =>
    if room = 0 then ([], some p)
    else
      let (vBlockHash, pIndex) := collectNext pNext fuel (pNext p) (room - 1)
      (p :: vBlockHash, pIndex)

/-- `GetForkBlockInv(hashFork, locator, vBlockHash, nMaxCount)` on the indices
`GetIndex` finds for the locator's hashes: `none` where it returns `false`.
`nMaxCount - 1` is a `size_t`. -/
def getForkBlockInv (fork : CBlockFork α) (pNext : α → Option α) (locator : List (Option α))
    (nMaxCount : Nat) : Option (List α) :=
  let (pIndex, found) := findLocator pNext fork.pIndexLast locator none
  if found ∧ pIndex.map L.pOrigin ≠ some fork.pIndexOrigin then none
  else
    let pIndex := match pIndex with
      | some p => pNext p
      | none => pNext fork.pIndexOrigin
    let (vBlockHash, pIndex) := collectNext pNext L.blocks.length pIndex ((nMaxCount + 2 ^ 64 - 1) % 2 ^ 64)
    if pIndex.isSome ∧ pIndex ≠ some fork.pIndexLast then some (vBlockHash ++ [fork.pIndexLast])
    else some vBlockHash

/-- Block `b` follows `a` on a chain: `b->pPrev` is `a`, and `b` is no origin. -/
def Follows (a b : α) : Prop := L.pPrev b = some a ∧ L.isOrigin b = false

/-- A chain of indices from an origin: each block follows the one before. -/
structure IsChain (path : List α) : Prop where
  origin : ∃ o, path.head? = some o ∧ L.isOrigin o = true
  follows : path.IsChain L.Follows
  mem : ∀ b ∈ path, b ∈ L.blocks

/-! ## Chains -/

section Chains

omit [DecidableEq α]

variable {L}

theorem IsChain.of_append_left {l₁ l₂ : List α} (h : L.IsChain (l₁ ++ l₂)) (hne : l₁ ≠ []) : L.IsChain l₁ where
  origin := by
    obtain ⟨o, ho, hor⟩ := h.origin
    exact ⟨o, by rwa [List.head?_append_of_ne_nil _ hne] at ho, hor⟩
  follows := h.follows.left_of_append
  mem b hb := h.mem b (List.mem_append_left _ hb)

theorem eq_of_backChain : ∀ {R S : List α}, R.IsChain (fun b a => L.Follows a b) →
    S.IsChain (fun b a => L.Follows a b) → (∀ o ∈ R.getLast?, L.isOrigin o = true) →
    (∀ o ∈ S.getLast?, L.isOrigin o = true) → R.head? = S.head? → R = S
  | [], [], _, _, _, _, _ => rfl
  | [], _ :: _, _, _, _, _, h => by cases h
  | _ :: _, [], _, _, _, _, h => by cases h
  | [x], [_], _, _, _, _, h => by cases h; rfl
  | [x], _ :: z :: _, _, hS, hR, _, h => by
    cases h
    have := (List.isChain_cons_cons.mp hS).1.2
    simp_all
  | _ :: y :: _, [x], hR, _, _, hS, h => by
    cases h
    have := (List.isChain_cons_cons.mp hR).1.2
    simp_all
  | x :: y :: R, _ :: z :: S, hR, hS, hRo, hSo, h => by
    cases h
    obtain ⟨⟨hy, -⟩, hR'⟩ := List.isChain_cons_cons.mp hR
    obtain ⟨⟨hz, -⟩, hS'⟩ := List.isChain_cons_cons.mp hS
    have hyz : y = z := Option.some.inj (hy.symm.trans hz)
    subst hyz
    rw [eq_of_backChain hR' hS' (by simpa using hRo) (by simpa using hSo) rfl]

theorem IsChain.eq_of_getLast {P Q : List α} (hP : L.IsChain P) (hQ : L.IsChain Q)
    (h : P.getLast? = Q.getLast?) : P = Q := by
  have back : ∀ {l : List α}, L.IsChain l → l.reverse.IsChain (fun b a => L.Follows a b) ∧
      ∀ o ∈ l.reverse.getLast?, L.isOrigin o = true := fun hl =>
    ⟨List.isChain_reverse.mpr hl.follows, by
      obtain ⟨o, ho, hor⟩ := hl.origin
      rw [List.getLast?_reverse, ho]
      simpa using hor⟩
  rw [← List.reverse_inj]
  exact eq_of_backChain (back hP).1 (back hQ).1 (back hP).2 (back hQ).2 (by simpa using h)

theorem IsChain.nodup {P : List α} (hP : L.IsChain P) : P.Nodup := by
  induction P using List.reverseRecOn with
  | nil => exact List.nodup_nil
  | append_singleton l x ih =>
    rcases List.eq_nil_or_concat l with rfl | ⟨l', y, rfl⟩
    · simp
    have hl : L.IsChain (l'.concat y) := hP.of_append_left (by simp)
    have hx : x ∉ l'.concat y := by
      intro hx
      obtain ⟨l₁, l₂, hl₁⟩ := List.append_of_mem hx
      have h₁ : L.IsChain (l₁ ++ [x]) := by
        rw [hl₁, List.append_assoc, List.cons_append] at hP
        exact (by simpa using hP : L.IsChain (l₁ ++ [x] ++ (l₂ ++ [x]))).of_append_left (by simp)
      have := congrArg List.length (h₁.eq_of_getLast hP (by simp))
      rw [hl₁] at this
      simp at this
    exact List.nodup_append.mpr ⟨ih hl, by simp, fun a ha b hb hab => hx (by simp_all)⟩

theorem IsChain.length_le {P : List α} (hP : L.IsChain P) : P.length ≤ L.blocks.length :=
  (List.subperm_of_subset hP.nodup hP.mem).length_le

theorem exists_common_split (a : α) : ∀ P Q : List α, ∃ C D E : List α, C ≠ [] ∧ a :: P = C ++ E ∧
    a :: Q = C ++ D ∧ ∀ d ∈ D.head?, ∀ e ∈ E.head?, d ≠ e
  | [], Q => ⟨[a], Q, [], by simp, rfl, rfl, by simp⟩
  | b :: P, [] => ⟨[a], [], b :: P, by simp, rfl, rfl, by simp⟩
  | b :: P, c :: Q => by
    by_cases hbc : c = b
    · subst hbc
      obtain ⟨C, D, E, hC, hP, hQ, hDE⟩ := exists_common_split c P Q
      exact ⟨a :: C, D, E, by simp, by rw [hP]; rfl, by rw [hQ]; rfl, hDE⟩
    · exact ⟨[a], c :: Q, b :: P, by simp, rfl, rfl, by simpa using hbc⟩

theorem IsChain.not_mem_past_common_split {C D E : List α} (hP : L.IsChain (C ++ E)) (hQ : L.IsChain (C ++ D))
    (hDE : ∀ d ∈ D.head?, ∀ e ∈ E.head?, d ≠ e) {d : α} (hd : d ∈ D) : d ∉ C ++ E := by
  intro hdP
  obtain ⟨D₁, D₂, rfl⟩ := List.append_of_mem hd
  obtain ⟨P₁, P₂, hP₁⟩ := List.append_of_mem hdP
  have hQd : L.IsChain (C ++ D₁ ++ [d]) :=
    (by simpa using hQ : L.IsChain (C ++ D₁ ++ [d] ++ D₂)).of_append_left (by simp)
  have hPd : L.IsChain (P₁ ++ [d]) := by
    rw [hP₁] at hP
    exact (by simpa using hP : L.IsChain (P₁ ++ [d] ++ P₂)).of_append_left (by simp)
  have hP₁C : P₁ = C ++ D₁ := List.append_cancel_right (hPd.eq_of_getLast hQd (by simp))
  rw [hP₁C, List.append_assoc] at hP₁
  have hE : E = D₁ ++ d :: P₂ := List.append_cancel_left hP₁
  subst hE
  cases D₁ <;> simp_all

end Chains

/-! ## The loops of `UpdateNext()` -/

theorem clearNext_none (fuel : Nat) (g : α → Option α) : L.clearNext fuel none g = g := by
  cases fuel <;> rfl

variable {L}

theorem clearNext_eq {q s : α} {S : List α} {g : α → Option α} {fuel : Nat}
    (hS : (q :: s :: S).IsChain L.Follows) (hnd : (q :: s :: S).Nodup)
    (hg : ∀ x ∈ s :: S, g x = linksOf (s :: S) x) (hfuel : S.length < fuel) :
    L.clearNext fuel (some s) g = fun x => if x = q ∨ x ∈ s :: S then none else g x := by
  induction S generalizing q s g fuel with
  | nil =>
    obtain ⟨fuel, rfl⟩ : ∃ n, fuel = n + 1 := ⟨fuel - 1, by simp at hfuel; omega⟩
    have hs : L.pPrev s = some q := (List.isChain_cons_cons.mp hS).1.1
    have hsq : s ≠ q := fun h => by simp [h] at hnd
    have hgs : g s = none := by rw [hg s List.mem_cons_self]; rfl
    simp only [clearNext, hs, Option.elim, Function.update_of_ne hsq, hgs, clearNext_none]
    funext x
    by_cases hxq : x = q
    · simp [hxq]
    · by_cases hxs : x = s
      · simp [hxs, hsq, hgs]
      · simp [hxq, hxs]
  | cons t S ih =>
    obtain ⟨fuel, rfl⟩ : ∃ n, fuel = n + 1 := ⟨fuel - 1, by simp at hfuel; omega⟩
    have hs : L.pPrev s = some q := (List.isChain_cons_cons.mp hS).1.1
    have hsq : s ≠ q := fun h => by simp [h] at hnd
    have hqS : q ∉ t :: S := fun h => by simp_all
    have hgs : g s = some t := by rw [hg s List.mem_cons_self, linksOf_cons_self]; rfl
    simp only [clearNext, hs, Option.elim, Function.update_of_ne hsq, hgs]
    have hg' : ∀ x ∈ t :: S, Function.update g q none x = linksOf (t :: S) x := by
      intro x hx
      have hxq : x ≠ q := fun h => hqS (h ▸ hx)
      have hxs : x ≠ s := fun h => by simp_all
      rw [Function.update_of_ne hxq, hg x (List.mem_cons_of_mem _ hx), linksOf_cons_of_ne _ hxs]
    rw [ih (List.isChain_cons_cons.mp hS).2 (List.nodup_cons.mp hnd).2 hg' (by simp at hfuel; omega)]
    funext x
    by_cases hxq : x = q
    · simp [hxq, Ne.symm hsq]
    · simp [hxq]

theorem updateNextLoop_step {fuel : Nat} {cur e : α} {g : α → Option α} (hcur : L.Follows e cur)
    (hg : g e ≠ some cur) :
    L.updateNextLoop (fuel + 1) cur g = L.updateNextLoop fuel e (Function.update
      (if (g e).isSome then L.clearNext L.blocks.length (g e) g else g) e (some cur)) := by
  simp only [updateNextLoop, hcur.1, hcur.2, hg, Bool.false_eq_true, if_false]

theorem updateNextLoop_at_last {C E : List α} {f : α} (hP : L.IsChain (C ++ E)) (hf : C.getLast? = some f)
    {g : α → Option α} (hg : ∀ x ∈ C, x ≠ f → g x = linksOf (C ++ E) x) (fuel : Nat) :
    L.updateNextLoop (fuel + 1) f g = g := by
  obtain ⟨C₀, rfl⟩ := List.getLast?_eq_some_iff.mp hf
  rcases List.eq_nil_or_concat C₀ with rfl | ⟨C₁, e, rfl⟩
  · obtain ⟨o, ho, hor⟩ := hP.origin
    simp only [List.nil_append, List.singleton_append, List.head?_cons, Option.some.injEq] at ho
    subst ho
    simp [updateNextLoop, hor]
  · have hnd := hP.nodup
    have hPe : (C₁ ++ e :: f :: E).IsChain L.Follows := by simpa using hP.follows
    have hef : L.Follows e f := (List.isChain_append_cons_cons.mp hPe).2.1
    have hnd' : (C₁ ++ [e] ++ f :: E).Nodup := by simpa using hnd
    have hne : e ≠ f := fun h => by
      have := (List.nodup_append.mp hnd').2.2 e (by simp) f List.mem_cons_self
      exact this h
    have hge : g e = some f := by
      rw [hg e (by simp) hne, List.concat_eq_append,
        @linksOf_append_of_mem _ _ (C₁ ++ [e] ++ [f]) E (by simpa using hnd) e (by simp)
          (by simpa using Ne.symm hne),
        linksOf_append_singleton (List.nodup_append.mp hnd').1, if_pos (by simp)]
    simp [updateNextLoop, hef.2, hef.1, hge]

theorem clear_at_fork {C E : List α} {f : α} (hP : L.IsChain (C ++ E)) (hf : C.getLast? = some f)
    {g : α → Option α} (hg : ∀ x ∈ C ++ E, g x = linksOf (C ++ E) x) :
    (if (g f).isSome then L.clearNext L.blocks.length (g f) g else g) =
      fun x => if x = f ∨ x ∈ E then none else g x := by
  have hnd := hP.nodup
  have hfC : f ∈ C := List.mem_of_getLast? hf
  cases E with
  | nil =>
    have hgf : g f = none := by
      rw [hg f (by simp [hfC]), linksOf_getLast hnd (by simpa using hf)]
    funext x
    by_cases hx : x = f
    · simp [hx, hgf]
    · simp [hx, hgf]
  | cons e E =>
    obtain ⟨C₀, rfl⟩ := List.getLast?_eq_some_iff.mp hf
    have hnd' : (C₀ ++ f :: e :: E).Nodup := by simpa using hnd
    have hfe : f ≠ e := by
      have := (List.nodup_append.mp hnd').2.1
      simp only [List.nodup_cons, List.mem_cons, not_or] at this
      exact this.1.1
    have hgf : g f = some e := by
      have hnd₁ : (C₀ ++ [f] ++ [e] ++ E).Nodup := by simpa using hnd
      rw [hg f (by simp), show C₀ ++ [f] ++ e :: E = C₀ ++ [f] ++ [e] ++ E by simp,
        linksOf_append_of_mem hnd₁ (by simp) (by simpa using Ne.symm hfe),
        linksOf_append_singleton (List.nodup_append.mp (List.nodup_append.mp hnd₁).1).1, if_pos (by simp)]
    simp only [hgf, Option.isSome_some, if_true]
    have hchain : (f :: e :: E).IsChain L.Follows :=
      (by simpa using hP.follows : (C₀ ++ f :: e :: E).IsChain L.Follows).right_of_append
    have hgE : ∀ x ∈ e :: E, g x = linksOf (e :: E) x := by
      intro x hx
      have hxC : x ∉ C₀ ++ [f] := fun h => (List.nodup_append.mp hnd).2.2 x h x hx rfl
      rw [hg x (by simp_all), linksOf_append_of_not_mem hxC]
    have hlen := hP.length_le
    exact clearNext_eq hchain (List.nodup_append.mp hnd').2.1 hgE (by simp at hlen; omega)

theorem updateNextLoop_fresh {C E : List α} {f : α} (hP : L.IsChain (C ++ E)) (hf : C.getLast? = some f) :
    ∀ {D0 : List α} {cur : α} {g : α → Option α} {fuel : Nat}, L.IsChain (C ++ D0 ++ [cur]) →
      (∀ d ∈ D0 ++ [cur], d ∉ C ++ E) → (∀ x ∈ C ++ E ++ D0, g x = linksOf (C ++ E) x) →
      D0.length + 2 ≤ fuel →
      L.updateNextLoop fuel cur g = fun x => if x ∈ D0 ∨ x ∈ f :: E then linksOf (C ++ D0 ++ [cur]) x else g x := by
  have hnd := hP.nodup
  have hfC : f ∈ C := List.mem_of_getLast? hf
  intro D0
  induction D0 using List.reverseRecOn with
  | nil =>
    intro cur g fuel hQ hfresh hg hfuel
    obtain ⟨fuel, rfl⟩ : ∃ n, fuel = n + 2 := ⟨fuel - 2, by simp at hfuel; omega⟩
    obtain ⟨C₀, rfl⟩ := List.getLast?_eq_some_iff.mp hf
    have hcur : cur ∉ C₀ ++ [f] ++ E := hfresh cur (by simp)
    have hfcur : L.Follows f cur :=
      (List.isChain_append_cons_cons.mp (by simpa using hQ.follows : (C₀ ++ f :: cur :: []).IsChain L.Follows)).2.1
    have hgf : g f ≠ some cur := fun h => hcur (mem_of_linksOf_eq_some ((hg f (by simp)).symm.trans h))
    rw [updateNextLoop_step hfcur hgf, clear_at_fork hP hf (fun x hx => hg x (by simpa using hx))]
    have hstop : ∀ x ∈ C₀ ++ [f], x ≠ f → Function.update (fun x => if x = f ∨ x ∈ E then none else g x) f
        (some cur) x = linksOf (C₀ ++ [f] ++ E) x := by
      intro x hx hxf
      have hxE : x ∉ E := fun h => (List.nodup_append.mp hnd).2.2 x hx x h rfl
      rw [Function.update_of_ne hxf, if_neg (by simp [hxf, hxE]),
        hg x (List.mem_append_left _ (List.mem_append_left _ hx))]
    rw [updateNextLoop_at_last hP hf hstop]
    have hlinks : ∀ y, linksOf (C₀ ++ [f] ++ [] ++ [cur]) y = if y = f then some cur else linksOf (C₀ ++ [f]) y := by
      intro y
      rw [List.append_nil, linksOf_append_singleton (List.nodup_append.mp hnd).1]
      simp [eq_comm]
    funext x
    rw [hlinks]
    by_cases hxf : x = f
    · subst hxf
      simp
    · by_cases hxE : x ∈ E
      · have hxC : x ∉ C₀ ++ [f] := fun h => (List.nodup_append.mp hnd).2.2 x h x hxE rfl
        simp [hxf, hxE, linksOf_of_not_mem hxC]
      · simp [hxf, hxE]
  | append_singleton D1 d ih =>
    intro cur g fuel hQ hfresh hg hfuel
    obtain ⟨fuel, rfl⟩ : ∃ n, fuel = n + 1 := ⟨fuel - 1, by simp at hfuel; omega⟩
    have hQnd := hQ.nodup
    have hdcur : L.Follows d cur :=
      (List.isChain_append_cons_cons.mp (by simpa using hQ.follows : (C ++ D1 ++ d :: cur :: []).IsChain L.Follows)).2.1
    have hdP : d ∉ C ++ E := hfresh d (by simp)
    have hgd : g d = none := by rw [hg d (by simp), linksOf_of_not_mem hdP]
    rw [updateNextLoop_step hdcur (by simp [hgd])]
    simp only [hgd, Option.isSome_none, Bool.false_eq_true, if_false]
    have hdD1 : d ∉ D1 := by
      have h₁ := (List.nodup_append.mp (List.nodup_append.mp hQnd).1).2.1
      exact fun h => (List.nodup_append.mp h₁).2.2 d h d (by simp) rfl
    rw [ih (hQ.of_append_left (by simp) |> fun h => by simpa using h)
      (fun x hx => hfresh x (by simp at hx ⊢; tauto))
      (fun x hx => by
        have hxd : x ≠ d := fun h => by subst h; simp_all
        rw [Function.update_of_ne hxd, hg x (by simp at hx ⊢; tauto)])
      (by simp at hfuel; omega)]
    have hlinks : ∀ x, linksOf (C ++ (D1 ++ [d]) ++ [cur]) x =
        if x = d then some cur else linksOf (C ++ D1 ++ [d]) x := by
      intro x
      rw [linksOf_append_singleton (by simpa using (List.nodup_append.mp hQnd).1)]
      simp [eq_comm]
    funext x
    rw [hlinks]
    by_cases hxd : x = d
    · subst hxd
      have hxf : x ∉ f :: E := by
        intro h
        exact hdP (by simp at h; rcases h with h | h <;> simp [h, hfC])
      simp only [hxf, hdD1, or_false, if_false, Function.update_self]
      simp
    · simp [hxd]

/-! ## `UpdateNext()` from strict links -/

/-- From the links of the chain `P`, `UpdateNext()` with the last block of a
chain `P'` from the same origin leaves the links of `P'`; when `P'` is a
proper part of `P`, it only unlinks its last block and the rest of `P` keeps
its links. -/
theorem updateNext_eq {P P' : List α} {p : α} (hP : L.IsChain P) (hP' : L.IsChain P')
    (hhead : P'.head? = P.head?) (hlast : P'.getLast? = some p) :
    L.updateNext p (linksOf P) = if P' <+: P then Function.update (linksOf P) p none else linksOf P' := by
  obtain ⟨o, ho, -⟩ := hP.origin
  obtain ⟨P₀, rfl⟩ : ∃ P₀, P = o :: P₀ := ⟨P.tail, by cases P <;> simp_all⟩
  obtain ⟨Q₀, rfl⟩ : ∃ Q₀, P' = o :: Q₀ := ⟨P'.tail, by cases P' <;> simp_all⟩
  obtain ⟨C, D, E, hC, hPCE, hQCD, hDE⟩ := exists_common_split o P₀ Q₀
  rw [hPCE] at hP ⊢
  rw [hQCD] at hP' hlast ⊢
  obtain ⟨f, hf⟩ : ∃ f, C.getLast? = some f := ⟨C.getLast hC, List.getLast?_eq_some_getLast hC⟩
  have hfresh : ∀ d ∈ D, d ∉ C ++ E := fun d hd => hP.not_mem_past_common_split hP' hDE hd
  have hnd := hP.nodup
  have hlen := hP'.length_le
  rcases List.eq_nil_or_concat D with rfl | ⟨D0, q, rfl⟩
  · -- `p` is the fork point: the loop stops at once
    rw [List.append_nil] at hlast hlen
    rw [hf, Option.some.injEq] at hlast
    subst hlast
    rw [List.append_nil, if_pos (List.prefix_append C E), updateNext]
    obtain ⟨n, hn⟩ : ∃ n, L.blocks.length = n + 1 := ⟨L.blocks.length - 1, by
      have : C.length ≠ 0 := by simpa using hC
      omega⟩
    rw [hn, updateNextLoop_at_last hP hf (fun x _ hxf => Function.update_of_ne hxf _ _)]
  · -- new blocks past the fork point: `P'` is linked and the old branch cleared
    rw [List.concat_eq_append] at *
    have hqp : q = p := by simpa using hlast
    subst hqp
    have hnotp : ¬ C ++ (D0 ++ [q]) <+: C ++ E := by
      rw [List.prefix_append_right_inj]
      intro h
      obtain ⟨F, rfl⟩ := h
      cases D0 <;> simp at hDE
    have hq : q ∉ C ++ E := hfresh q (by simp)
    have hQnd := hP'.nodup
    have hC1 : 0 < C.length := List.length_pos_of_ne_nil hC
    have hqD0 : q ∉ D0 := fun h => by
      have := (List.nodup_append.mp (List.nodup_append.mp hQnd).2.1).2.2 q h q (by simp)
      exact this rfl
    rw [if_neg hnotp, updateNext, ← List.append_assoc,
      updateNextLoop_fresh hP hf (by simpa using hP') (fun d hd => hfresh d (by simpa using hd))
        (fun x hx => Function.update_of_ne (by rintro rfl; simp_all) _ _) (by simp at hlen ⊢; omega)]
    have hlastq : linksOf (C ++ D0 ++ [q]) q = none := linksOf_getLast (by simpa using hQnd) (by simp)
    funext x
    by_cases hxq : x = q
    · subst hxq
      simp only [Function.update_self, hlastq, ite_self]
    · rw [Function.update_of_ne hxq]
      split_ifs with hx
      · rfl
      · simp only [List.mem_cons, not_or] at hx
        obtain ⟨hxD0, hxf, hxE⟩ := hx
        by_cases hxC : x ∈ C
        · have hne : C.getLast? ≠ some x := by
            rw [hf]
            simpa using Ne.symm hxf
          rw [List.append_assoc, linksOf_append_of_mem hQnd hxC hne, linksOf_append_of_mem hnd hxC hne]
        · rw [linksOf_of_not_mem (by simp [hxC, hxE]), linksOf_of_not_mem (by simp [hxC, hxD0, hxq])]

theorem updateNext_strict {P P' : List α} {p : α} (hP : L.IsChain P) (hP' : L.IsChain P')
    (hhead : P'.head? = P.head?) (hlast : P'.getLast? = some p) (hnew : ¬ P' <+: P ∨ P' = P) :
    L.updateNext p (linksOf P) = linksOf P' := by
  rw [updateNext_eq hP hP' hhead hlast]
  split_ifs with hpre
  · obtain rfl : P' = P := hnew.resolve_left (not_not.mpr hpre)
    funext x
    by_cases hxp : x = p
    · rw [hxp, Function.update_self, linksOf_getLast hP.nodup hlast]
    · rw [Function.update_of_ne hxp]
  · rfl

theorem updateNext_eq_on_chain {P P' : List α} {p : α} (hP : L.IsChain P) (hP' : L.IsChain P')
    (hhead : P'.head? = P.head?) (hlast : P'.getLast? = some p) :
    ∀ x ∈ P', L.updateNext p (linksOf P) x = linksOf P' x := by
  intro x hx
  rw [updateNext_eq hP hP' hhead hlast]
  split_ifs with hpre
  · obtain ⟨R, rfl⟩ := hpre
    by_cases hxp : x = p
    · rw [hxp, Function.update_self, linksOf_getLast hP'.nodup hlast]
    · rw [Function.update_of_ne hxp, linksOf_append_of_mem hP.nodup hx (by rw [hlast]; simpa using Ne.symm hxp)]
  · rfl

theorem foldl_updateLast_strict {R : List α} {Qs : List (List α)} {s : CBlockFork α × (α → Option α)}
    (hR : L.IsChain R) (hs : s.2 = linksOf R) (hlast : s.1.pIndexLast ∈ R)
    (hQs : ∀ Q ∈ Qs, L.IsChain Q ∧ Q.head? = R.head?)
    (hrun : (R :: Qs).IsChain fun Q R => ¬ R <+: Q ∨ R = Q) :
    (Qs.foldl (fun s Q => Q.getLast?.elim s fun q => L.updateLast s.1 q s.2) s).2 =
        linksOf ((R :: Qs).getLast (List.cons_ne_nil _ _)) ∧
      (Qs.foldl (fun s Q => Q.getLast?.elim s fun q => L.updateLast s.1 q s.2) s).1.pIndexLast ∈
        (R :: Qs).getLast (List.cons_ne_nil _ _) ∧
      (Qs.foldl (fun s Q => Q.getLast?.elim s fun q => L.updateLast s.1 q s.2) s).1.pIndexOrigin =
        s.1.pIndexOrigin := by
  induction Qs generalizing R s with
  | nil => exact ⟨hs, hlast, rfl⟩
  | cons Q Qs ih =>
    obtain ⟨hQ, hQhead⟩ := hQs Q List.mem_cons_self
    obtain ⟨hnew, hrun'⟩ := List.isChain_cons_cons.mp hrun
    obtain ⟨p, hp⟩ : ∃ p, Q.getLast? = some p := by
      obtain ⟨o, ho, -⟩ := hQ.origin
      exact ⟨Q.getLast (by rintro rfl; cases ho), List.getLast?_eq_some_getLast _⟩
    have hs' : (L.updateLast s.1 p s.2).2 = linksOf Q := by
      rw [updateLast, hs]
      exact updateNext_strict hR hQ hQhead hp hnew
    have hQs' : ∀ Q' ∈ Qs, L.IsChain Q' ∧ Q'.head? = Q.head? := fun Q' hQ' =>
      ⟨(hQs Q' (List.mem_cons_of_mem _ hQ')).1, (hQs Q' (List.mem_cons_of_mem _ hQ')).2.trans hQhead.symm⟩
    rw [List.foldl_cons, hp, Option.elim, List.getLast_cons (List.cons_ne_nil _ _)]
    exact ih hQ hs' (List.mem_of_getLast? hp) hQs' hrun'

omit [DecidableEq α] in
theorem mem_collectNext {P : List α} {pNext : α → Option α} (hnext : ∀ x y, pNext x = some y → y ∈ P) :
    ∀ {fuel : Nat} {start : Option α} {room : Nat}, (∀ y ∈ start, y ∈ P) →
      ∀ x ∈ (collectNext pNext fuel start room).1, x ∈ P
  | 0, _, _, _ => by simp [collectNext]
  | _ + 1, none, _, _ => by simp [collectNext]
  | fuel + 1, some p, room, hstart => by
    intro x hx
    by_cases hroom : room = 0
    · simp [collectNext, hroom] at hx
    · simp only [collectNext, hroom, if_false, List.mem_cons] at hx
      rcases hx with rfl | hx
      · exact hstart x rfl
      · exact mem_collectNext hnext (fun y hy => hnext p y hy) x hx

theorem mem_getForkBlockInv {fork : CBlockFork α} {P : List α} {locator : List (Option α)} {nMaxCount : Nat}
    {vBlockHash : List α} (hlast : fork.pIndexLast ∈ P)
    (h : L.getForkBlockInv fork (linksOf P) locator nMaxCount = some vBlockHash) : ∀ x ∈ vBlockHash, x ∈ P := by
  have hnext : ∀ x y, linksOf P x = some y → y ∈ P := fun _ _ h => mem_of_linksOf_eq_some h
  have hstart : ∀ q : Option α, ∀ y ∈ (match q with | some p => linksOf P p | none => linksOf P fork.pIndexOrigin),
      y ∈ P := by
    intro q y hy
    cases q <;> exact hnext _ y hy
  simp only [getForkBlockInv] at h
  split_ifs at h with hfail hend
  · simp only [Option.some.injEq] at h
    subst h
    intro x hx
    rcases List.mem_append.mp hx with hx | hx
    · exact mem_collectNext hnext (hstart _) x hx
    · simpa [List.mem_singleton.mp hx] using hlast
  · simp only [Option.some.injEq] at h
    subst h
    exact mem_collectNext hnext (hstart _)

/-- `UpdateLast(p)` from the links of the chain `P`, to the last block of the
chain `P'` from the same origin: `FilterTx` then walks `P'` and `p->pNext` is
null. Unless `p` is a proper ancestor of the old last block, the links are
exactly those of `P'`, and so they stay over every later run of such updates:
`FilterTx` walks the last chain and `GetForkBlockInv` returns only its blocks. -/
theorem updateLast_relinks_strict_chain {fork : CBlockFork α} {P P' : List α} {p : α} (hP : L.IsChain P)
    (horigin : P.head? = some fork.pIndexOrigin) (hP' : L.IsChain P') (hhead : P'.head? = P.head?)
    (hlast : P'.getLast? = some p) :
    L.filterTxWalk (L.updateLast fork p (linksOf P)).1 (L.updateLast fork p (linksOf P)).2 = P' ∧
      (L.updateLast fork p (linksOf P)).2 p = none ∧
      ((¬ P' <+: P ∨ P' = P) → (L.updateLast fork p (linksOf P)).2 = linksOf P') ∧
      ((¬ P' <+: P ∨ P' = P) → ∀ Qs : List (List α), (∀ Q ∈ Qs, L.IsChain Q ∧ Q.head? = P.head?) →
        (P' :: Qs).IsChain (fun Q R => ¬ R <+: Q ∨ R = Q) →
        let s : CBlockFork α × (α → Option α) :=
          Qs.foldl (fun s Q => Q.getLast?.elim s fun q => L.updateLast s.1 q s.2) (L.updateLast fork p (linksOf P))
        let R : List α := (P' :: Qs).getLast (List.cons_ne_nil _ _)
        s.2 = linksOf R ∧ L.filterTxWalk s.1 s.2 = R ∧
          ∀ locator nMaxCount vBlockHash, L.getForkBlockInv s.1 s.2 locator nMaxCount = some vBlockHash →
            ∀ x ∈ vBlockHash, x ∈ R) := by
  have hon := updateNext_eq_on_chain hP hP' hhead hlast
  refine ⟨?_, ?_, updateNext_strict hP hP' hhead hlast, ?_⟩
  · rw [updateLast, filterTxWalk, ← horigin, ← hhead]
    exact walkNext_of_links hP'.nodup hon hP'.length_le
  · show L.updateNext p (linksOf P) p = none
    rw [hon p (List.mem_of_getLast? hlast), linksOf_getLast hP'.nodup hlast]
  · intro hnew Qs hQs hrun s R
    obtain ⟨hlinks, hmem, horig⟩ := foldl_updateLast_strict (s := L.updateLast fork p (linksOf P)) hP'
      (updateNext_strict hP hP' hhead hlast hnew)
      (List.mem_of_getLast? hlast) (fun Q hQ => ⟨(hQs Q hQ).1, (hQs Q hQ).2.trans hhead.symm⟩) hrun
    obtain ⟨hR, hRhead⟩ : L.IsChain R ∧ R.head? = P.head? := by
      rcases List.mem_cons.mp (List.getLast_mem (List.cons_ne_nil P' Qs)) with hRP | hRQ
      · have hRP' : R = P' := hRP
        rw [hRP']
        exact ⟨hP', hhead⟩
      · exact hQs R hRQ
    refine ⟨hlinks, ?_, fun locator nMaxCount vBlockHash h => mem_getForkBlockInv hmem (hlinks ▸ h)⟩
    have horig' : s.1.pIndexOrigin = fork.pIndexOrigin := horig
    rw [filterTxWalk, hlinks, horig', ← horigin, ← hRhead]
    exact walkNext_of_links hR.nodup (fun _ _ => rfl) hR.length_le

end IndexLinks

/-- A switch from `0 → 1 → 2 → 3` to the branch `0 → 1 → 4`. -/
theorem updateLast_relinks_strict_chain_branch :
    let L : IndexLinks Nat := ⟨fun b => if b = 0 then none else if b = 4 then some 1 else some (b - 1),
      fun b => b == 0, fun _ => 0, [0, 1, 2, 3, 4]⟩
    let s₁ : CBlockFork Nat × (Nat → Option Nat) := L.updateLast ⟨0, 3⟩ 4 (linksOf [0, 1, 2, 3])
    L.IsChain [0, 1, 2, 3] ∧ L.IsChain [0, 1, 4] ∧
      L.filterTxWalk s₁.1 s₁.2 = [0, 1, 4] ∧ s₁.2 4 = none ∧
      ((¬ [0, 1, 4] <+: [0, 1, 2, 3] ∨ [0, 1, 4] = [0, 1, 2, 3]) → s₁.2 = linksOf [0, 1, 4]) ∧
      ((¬ [0, 1, 4] <+: [0, 1, 2, 3] ∨ [0, 1, 4] = [0, 1, 2, 3]) → ∀ Qs : List (List Nat),
        (∀ Q ∈ Qs, L.IsChain Q ∧ Q.head? = [0, 1, 2, 3].head?) →
        ([0, 1, 4] :: Qs).IsChain (fun Q R => ¬ R <+: Q ∨ R = Q) →
        let s : CBlockFork Nat × (Nat → Option Nat) :=
          Qs.foldl (fun s Q => Q.getLast?.elim s fun q => L.updateLast s.1 q s.2) s₁
        let R : List Nat := ([0, 1, 4] :: Qs).getLast (List.cons_ne_nil _ _)
        s.2 = linksOf R ∧ L.filterTxWalk s.1 s.2 = R ∧
          ∀ locator nMaxCount vBlockHash, L.getForkBlockInv s.1 s.2 locator nMaxCount = some vBlockHash →
            ∀ x ∈ vBlockHash, x ∈ R) := by
  intro L s₁
  have hP : L.IsChain [0, 1, 2, 3] := ⟨⟨0, rfl, rfl⟩, by simp [L, IndexLinks.Follows], by decide⟩
  have hP' : L.IsChain [0, 1, 4] := ⟨⟨0, rfl, rfl⟩, by simp [L, IndexLinks.Follows], by decide⟩
  exact ⟨hP, hP', @IndexLinks.updateLast_relinks_strict_chain Nat _ L ⟨0, 3⟩ _ _ 4 hP rfl hP' rfl rfl⟩

/-- Links left by a switch to an ancestor: from the chain `0 → 1 → 2 → 3`,
`UpdateLast(1)` leaves `2 → 3`, which `FilterTx` does not see; but then
`GetForkBlockInv` from `2` returns block 3, off the chain `0 → 1`, and a later
`UpdateLast(3)` stops at once, at `2` whose parent still points to it, so the
walk from the origin stays `0 → 1`. -/
theorem updateLast_after_ancestor_keeps_stale_links :
    let L : IndexLinks Nat := ⟨fun b => if b = 0 then none else some (b - 1), fun b => b == 0, fun _ => 0,
      [0, 1, 2, 3]⟩
    let s₁ := L.updateLast ⟨0, 3⟩ 1 (linksOf [0, 1, 2, 3])
    let s₂ := L.updateLast s₁.1 3 s₁.2
    L.IsChain [0, 1, 2, 3] ∧ L.filterTxWalk s₁.1 s₁.2 = [0, 1] ∧
      L.getForkBlockInv s₁.1 s₁.2 [some 2] 10 = some [3] ∧ L.filterTxWalk s₂.1 s₂.2 = [0, 1] := by
  intro L s₁ s₂
  refine ⟨⟨⟨0, rfl, rfl⟩, ?_, by decide⟩, by decide, by decide, by decide⟩
  simp [L, IndexLinks.Follows]

end Multiverse.Storage
