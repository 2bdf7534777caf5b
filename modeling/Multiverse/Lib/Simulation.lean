import Mathlib.Data.Option.Basic

/-! # Runs of a step function, and simulation

A component that answers calls is a step function from a call and a state to
a reply and the next state; a run answers a list of calls in turn. One
component simulates another under a relation when each call, from related
states, gets the same reply and leads to related states; then every run does
(`run_simulation`).

A call that can fail is a partial step, `Option` of the next state. Partial
steps are related by `Option.Rel`: both fail, or both succeed into related
states. The lemmas here compose such relations through a middle level and
read replies off them.
-/

namespace Simulation

variable {ω ρ σ τ : Type*}

/-- The replies of answering `ops` in turn from `s`, and the state reached. -/
def run (step : ω → σ → ρ × σ) : List ω → σ → List ρ × σ
  | [], s => ([], s)
  | o :: os, s =>
    let r := run step os (step o s).2
    ((step o s).1 :: r.1, r.2)

/-- A relation that every call keeps, with the same reply, is kept by every run. -/
theorem run_simulation {step₁ : ω → σ → ρ × σ} {step₂ : ω → τ → ρ × τ} {R : σ → τ → Prop}
    (hstep : ∀ o s t, R s t → (step₁ o s).1 = (step₂ o t).1 ∧ R (step₁ o s).2 (step₂ o t).2)
    (ops : List ω) {s : σ} {t : τ} (h : R s t) :
    (run step₁ ops s).1 = (run step₂ ops t).1 ∧ R (run step₁ ops s).2 (run step₂ ops t).2 := by
  induction ops generalizing s t with
  | nil => exact ⟨rfl, h⟩
  | cons o os ih =>
    obtain ⟨hr, hR⟩ := hstep o s t h
    obtain ⟨hrs, hR'⟩ := ih hR
    exact ⟨by simp only [run, hr, hrs], hR'⟩

variable {α β γ δ : Type*} {R : α → β → Prop} {S : β → γ → Prop} {T : α → γ → Prop}
  {x : Option α} {y : Option β} {z : Option γ}

theorem rel_comp (hT : ∀ a b c, R a b → S b c → T a c) (h : Option.Rel R x y) (h' : Option.Rel S y z) :
    Option.Rel T x z := by
  cases h with
  | none => cases h'; exact .none
  | some hab => cases h' with
    | some hbc => exact .some (hT _ _ _ hab hbc)

theorem rel_cases (h : Option.Rel R x y) : (x = none ∧ y = none) ∨ ∃ a b, x = some a ∧ y = some b ∧ R a b := by
  cases h with
  | none => exact .inl ⟨rfl, rfl⟩
  | some h => exact .inr ⟨_, _, rfl, rfl, h⟩

theorem rel_isSome_eq (h : Option.Rel R x y) : x.isSome = y.isSome := by
  cases h <;> rfl

theorem rel_getD {a : α} {b : β} (h : Option.Rel R x y) (hab : R a b) : R (x.getD a) (y.getD b) := by
  cases h with
  | none => exact hab
  | some h => exact h

theorem rel_map {f : α → γ} {g : β → δ} {S : γ → δ → Prop} (hf : ∀ a b, R a b → S (f a) (g b))
    (h : Option.Rel R x y) : Option.Rel S (x.map f) (y.map g) := by
  cases h with
  | none => exact .none
  | some h => exact .some (hf _ _ h)

theorem rel_eq {x y : Option α} (h : Option.Rel Eq x y) : x = y := by
  cases h with
  | none => rfl
  | some h => rw [h]

end Simulation
