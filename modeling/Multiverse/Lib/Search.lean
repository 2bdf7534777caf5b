import Mathlib.Logic.Relation
import Mathlib.Data.List.Nodup

/-! # Breadth-first search through ports

A graph whose nodes own ports: `outs a` lists the ports of node `a`, and a
port leads to at most one node, `next o`. The search keeps a queue of ports
and the nodes visited, in the order of their visit. It takes the port at the
head of the queue: when the port leads to a node not yet visited, the node is
visited and those of its ports that lead to a node not yet visited are queued
behind the others; otherwise the port is dropped.

From a queue of start ports, with fuel for the queue and for every node of a
finite set that the ports lead into, the nodes visited are exactly the nodes
reached from the start ports (`mem_bfs_iff`), each once (`nodup_bfs`).
Soundness holds of every run (`mem_bfs`); completeness comes from the
covering invariant (`Covered`: every edge out of a visited node leads to a
visited node or to a queued port), which a run with enough fuel ends with an
empty queue (`bfs_closed`).
-/

namespace Search

variable {α β : Type*} (next : β → Option α) (outs : α → List β)

/-- `b` is reached from `a` through one of its ports. -/
def Edge (a b : α) : Prop := ∃ o ∈ outs a, next o = some b

/-- `b` is reached from one of the ports `q`. -/
def Reached (q : List β) (b : α) : Prop :=
  ∃ o ∈ q, ∃ a, next o = some a ∧ Relation.ReflTransGen (Edge next outs) a b

/-- Every edge out of a visited node leads to a visited node or to a queued port. -/
def Covered (R : List α) (q : List β) : Prop :=
  ∀ a ∈ R, ∀ b, Edge next outs a b → b ∈ R ∨ ∃ o ∈ q, next o = some b

theorem Reached.cons {next outs} {o : β} {q : List β} {b : α} (h : Reached next outs q b) :
    Reached next outs (o :: q) b := by
  obtain ⟨o', ho', a, ha, hab⟩ := h
  exact ⟨o', List.mem_cons_of_mem o ho', a, ha, hab⟩

theorem Reached.trans {next outs} {q : List β} {b c : α} (h : Reached next outs q b)
    (hbc : Relation.ReflTransGen (Edge next outs) b c) : Reached next outs q c := by
  obtain ⟨o, ho, a, ha, hab⟩ := h
  exact ⟨o, ho, a, ha, hab.trans hbc⟩

theorem Reached.exists_next {next outs} {q : List β} {t : α} (h : Reached next outs q t) :
    ∃ o, next o = some t := by
  obtain ⟨o, -, a, ha, hpath⟩ := h
  cases hpath with
  | refl => exact ⟨o, ha⟩
  | tail _ hbc =>
    obtain ⟨o', -, ho'⟩ := hbc
    exact ⟨o', ho'⟩

variable {next outs} in
theorem edge_filter {p : α → Bool} {a b : α} :
    Edge (fun o => (next o).filter p) outs a b ↔ Edge next outs a b ∧ p b = true := by
  constructor
  · rintro ⟨o, ho, h⟩
    obtain ⟨hnext, hp⟩ := Option.filter_eq_some_iff.mp h
    exact ⟨⟨o, ho, hnext⟩, hp⟩
  · rintro ⟨⟨o, ho, hnext⟩, hp⟩
    exact ⟨o, ho, Option.filter_eq_some_iff.mpr ⟨hnext, hp⟩⟩

/-! ## Paths around a set of nodes -/

section Paths

variable {γ : Type*} {r : γ → γ → Prop}

theorem reflTransGen_avoid {S : γ → Prop} (hS : ∀ x y, S x → r x y → S y) {a t : γ}
    (h : Relation.ReflTransGen r a t) : S t ∨ Relation.ReflTransGen (fun x y => r x y ∧ ¬ S y) a t := by
  induction h with
  | refl => exact .inr .refl
  | @tail b c _ hbc ih =>
    rcases ih with hb | hpath
    · exact .inl (hS b c hb hbc)
    · by_cases hc : S c
      · exact .inl hc
      · exact .inr (.tail hpath ⟨hbc, hc⟩)

theorem reflTransGen_cases_source {a t : γ} (h : Relation.ReflTransGen r a t) :
    t = a ∨ ∃ b, r a b ∧ b ≠ a ∧ Relation.ReflTransGen (fun x y => r x y ∧ y ≠ a) b t := by
  induction h with
  | refl => exact .inl rfl
  | @tail b c _ hbc ih =>
    by_cases hc : c = a
    · exact .inl hc
    rcases ih with rfl | ⟨d, had, hda, hpath⟩
    · exact .inr ⟨c, hbc, hc, .refl⟩
    · exact .inr ⟨d, had, hda, .tail hpath ⟨hbc, hc⟩⟩

end Paths

/-! ## Reaching with nodes taken out -/

variable {next outs} in
theorem reflTransGen_edge_iff [DecidableEq α] (a t : α) :
    Relation.ReflTransGen (Edge next outs) a t ↔
      t = a ∨ Reached (fun o => (next o).filter fun b => decide (b ≠ a)) outs (outs a) t := by
  constructor
  · intro h
    rcases reflTransGen_cases_source h with rfl | ⟨b, ⟨o, ho, hb⟩, hba, hpath⟩
    · exact .inl rfl
    · refine .inr ⟨o, ho, b, Option.filter_eq_some_iff.mpr ⟨hb, decide_eq_true hba⟩, ?_⟩
      exact Relation.ReflTransGen.mono (p := Edge _ outs)
        (fun x y hxy => edge_filter.mpr ⟨hxy.1, decide_eq_true hxy.2⟩) _ _ hpath
  · rintro (rfl | ⟨o, ho, b, hb, hpath⟩)
    · exact .refl
    · have hpath' := Relation.ReflTransGen.mono (fun x y hxy => (edge_filter.mp hxy).1) _ _ hpath
      exact .head ⟨o, ho, (Option.filter_eq_some_iff.mp hb).1⟩ hpath'

variable {next outs} in
theorem reached_append_iff [DecidableEq α] {q₁ : List β} {R : List α}
    (hR : ∀ b, b ∈ R ↔ Reached next outs q₁ b) (q₂ : List β) (t : α) :
    Reached next outs (q₁ ++ q₂) t ↔
      t ∈ R ∨ Reached (fun o => (next o).filter fun b => decide (b ∉ R)) outs q₂ t := by
  have hclosed : ∀ x y, x ∈ R → Edge next outs x y → y ∈ R :=
    fun x y hx hxy => (hR y).mpr (((hR x).mp hx).trans (.single hxy))
  constructor
  · rintro ⟨o, ho, a, ha, hpath⟩
    rcases List.mem_append.mp ho with ho | ho
    · exact .inl ((hR t).mpr ⟨o, ho, a, ha, hpath⟩)
    by_cases haR : a ∈ R
    · exact .inl ((hR t).mpr (((hR a).mp haR).trans hpath))
    rcases reflTransGen_avoid hclosed hpath with ht | hpath'
    · exact .inl ht
    · refine .inr ⟨o, ho, a, Option.filter_eq_some_iff.mpr ⟨ha, decide_eq_true haR⟩, ?_⟩
      exact Relation.ReflTransGen.mono (p := Edge _ outs)
        (fun x y hxy => edge_filter.mpr ⟨hxy.1, decide_eq_true hxy.2⟩) _ _ hpath'
  · rintro (ht | ⟨o, ho, a, ha, hpath⟩)
    · obtain ⟨o, ho, a, ha, hpath⟩ := (hR t).mp ht
      exact ⟨o, List.mem_append_left _ ho, a, ha, hpath⟩
    · have hpath' := Relation.ReflTransGen.mono (fun x y hxy => (edge_filter.mp hxy).1) _ _ hpath
      exact ⟨o, List.mem_append_right _ ho, a, (Option.filter_eq_some_iff.mp ha).1, hpath'⟩

variable [DecidableEq α]

/-- Port `o` leads to a node not in `R`. -/
def fresh (R : List α) (o : β) : Bool :=
  match next o with
  | some b => decide (b ∉ R)
  | none => false

/-- The search with `fuel` rounds from the queue `q`, having visited `R`. -/
def bfs : Nat → List β → List α → List α
  | 0, _, R => R
  | _ + 1, [], R => R
  | n + 1, o :: q, R =>
    match next o with
    | none => bfs n q R
    | some a => if a ∈ R then bfs n q R else bfs n (q ++ (outs a).filter (fresh next (R ++ [a]))) (R ++ [a])

theorem fresh_eq_true_iff {next} {R : List α} {o : β} : fresh next R o = true ↔ ∃ b, next o = some b ∧ b ∉ R := by
  unfold fresh
  split <;> simp_all

/-! ## What a run visits -/

theorem mem_bfs_of_mem {t : α} (n : Nat) (q : List β) {R : List α} (ht : t ∈ R) : t ∈ bfs next outs n q R := by
  induction n generalizing q R with
  | zero => exact ht
  | succ n ih =>
    cases q with
    | nil => exact ht
    | cons o q =>
      unfold bfs
      split
      · exact ih q ht
      · split
        · exact ih q ht
        · exact ih _ (List.mem_append_left _ ht)

/-- A run visits each node at most once. -/
theorem nodup_bfs (n : Nat) (q : List β) {R : List α} (hR : R.Nodup) : (bfs next outs n q R).Nodup := by
  induction n generalizing q R with
  | zero => exact hR
  | succ n ih =>
    cases q with
    | nil => exact hR
    | cons o q =>
      unfold bfs
      split
      · exact ih q hR
      · split
        · exact ih q hR
        · next a _ ha => exact ih _ (List.concat_eq_append ▸ hR.concat ha)

/-- A run visits only nodes reached from its queue. -/
theorem mem_bfs {t : α} (n : Nat) (q : List β) {R : List α} (ht : t ∈ bfs next outs n q R) :
    t ∈ R ∨ Reached next outs q t := by
  induction n generalizing q R with
  | zero => exact .inl ht
  | succ n ih =>
    cases q with
    | nil => exact .inl ht
    | cons o q =>
      unfold bfs at ht
      split at ht
      · exact (ih q ht).imp_right Reached.cons
      · split at ht
        · exact (ih q ht).imp_right Reached.cons
        · next a hnext _ =>
          rcases ih _ ht with ht | ⟨o', ho', a', ha', hpath⟩
          · rcases List.mem_append.mp ht with ht | ht
            · exact .inl ht
            · exact .inr ⟨o, List.mem_cons_self, a, hnext, by rw [List.mem_singleton.mp ht]⟩
          rcases List.mem_append.mp ho' with ho' | ho'
          · exact .inr ⟨o', List.mem_cons_of_mem o ho', a', ha', hpath⟩
          have hedge : Edge next outs a a' := ⟨o', (List.mem_filter.mp ho').1, ha'⟩
          exact .inr ⟨o, List.mem_cons_self, a, hnext, .head hedge hpath⟩

/-! ## Enough fuel -/

theorem length_filter_not_mem_lt {U R : List α} {a : α} (ha : a ∈ U) (hR : a ∉ R) :
    (U.filter fun x => decide (x ∉ R ++ [a])).length < (U.filter fun x => decide (x ∉ R)).length := by
  have hsplit : (U.filter fun x => decide (x ∉ R ++ [a])) =
      (U.filter fun x => decide (x ∉ R)).filter fun x => decide (x ≠ a) := by
    rw [List.filter_filter]
    congr
    funext x
    simp [and_comm]
  rw [hsplit, List.length_filter_lt_length_iff_exists]
  exact ⟨a, List.mem_filter.mpr ⟨ha, by simpa using hR⟩, by simp⟩

section Fuel

variable {U : List α} {k : Nat} (hU : ∀ o b, next o = some b → b ∈ U) (hk : ∀ a, (outs a).length ≤ k)
include hU hk

/-- With fuel for the queue and for `k` ports of every node of `U` not yet
visited, a covered run ends covered with nothing queued: what it visits is
closed under edges, and holds every node a start port leads to. -/
theorem bfs_closed (n : Nat) (q : List β) (R : List α) (hfuel : q.length + k * (U.filter fun x => decide (x ∉ R)).length ≤ n)
    (hcov : Covered next outs R q) :
    Covered next outs (bfs next outs n q R) [] ∧ ∀ o ∈ q, ∀ b, next o = some b → b ∈ bfs next outs n q R := by
  induction n generalizing q R with
  | zero =>
    obtain rfl : q = [] := List.eq_nil_of_length_eq_zero (by omega)
    exact ⟨hcov, fun _ ho => absurd ho List.not_mem_nil⟩
  | succ n ih =>
    cases q with
    | nil => exact ⟨hcov, fun _ ho => absurd ho List.not_mem_nil⟩
    | cons o q =>
      simp only [List.length_cons] at hfuel
      unfold bfs
      split
      · next hnone =>
        -- a port that leads nowhere covers nothing
        have hcov' : Covered next outs R q := by
          intro a ha b hab
          rcases hcov a ha b hab with hb | ⟨o', ho', hb⟩
          · exact .inl hb
          rcases List.mem_cons.mp ho' with rfl | ho'
          · rw [hnone] at hb
            cases hb
          · exact .inr ⟨o', ho', hb⟩
        obtain ⟨hclosed, hstart⟩ := ih q R (by omega) hcov'
        refine ⟨hclosed, fun o' ho' b hb => ?_⟩
        rcases List.mem_cons.mp ho' with rfl | ho'
        · rw [hnone] at hb
          cases hb
        · exact hstart o' ho' b hb
      · next a hnext =>
        split
        · next haR =>
          -- a port to a visited node covers nothing new
          have hcov' : Covered next outs R q := by
            intro x hx b hxb
            rcases hcov x hx b hxb with hb | ⟨o', ho', hb⟩
            · exact .inl hb
            rcases List.mem_cons.mp ho' with rfl | ho'
            · rw [hnext, Option.some.injEq] at hb
              exact .inl (hb ▸ haR)
            · exact .inr ⟨o', ho', hb⟩
          obtain ⟨hclosed, hstart⟩ := ih q R (by omega) hcov'
          refine ⟨hclosed, fun o' ho' b hb => ?_⟩
          rcases List.mem_cons.mp ho' with rfl | ho'
          · rw [hnext, Option.some.injEq] at hb
            exact mem_bfs_of_mem next outs n q (hb ▸ haR)
          · exact hstart o' ho' b hb
        · next haR =>
          have hlt := length_filter_not_mem_lt (hU o a hnext) haR
          have hlen := List.length_filter_le (fresh next (R ++ [a])) (outs a)
          have hka := hk a
          have hfuel' : (q ++ (outs a).filter (fresh next (R ++ [a]))).length +
              k * (U.filter fun x => decide (x ∉ R ++ [a])).length ≤ n := by
            rw [List.length_append]
            have := Nat.mul_le_mul_left k (Nat.succ_le_of_lt hlt)
            rw [Nat.mul_succ] at this
            omega
          have hcov' : Covered next outs (R ++ [a]) (q ++ (outs a).filter (fresh next (R ++ [a]))) := by
            intro x hx b hxb
            by_cases hb : b ∈ R ++ [a]
            · exact .inl hb
            rcases List.mem_append.mp hx with hx | hx
            · rcases hcov x hx b hxb with hb' | ⟨o', ho', hb'⟩
              · exact .inl (List.mem_append_left _ hb')
              rcases List.mem_cons.mp ho' with rfl | ho'
              · rw [hnext, Option.some.injEq] at hb'
                exact .inl (hb' ▸ List.mem_append_right _ (List.mem_singleton_self a))
              · exact .inr ⟨o', List.mem_append_left _ ho', hb'⟩
            · obtain ⟨o', ho', hb'⟩ := hxb
              rw [List.mem_singleton.mp hx] at ho'
              refine .inr ⟨o', List.mem_append_right _ (List.mem_filter.mpr ⟨ho', ?_⟩), hb'⟩
              exact fresh_eq_true_iff.mpr ⟨b, hb', hb⟩
          obtain ⟨hclosed, hstart⟩ := ih _ _ hfuel' hcov'
          refine ⟨hclosed, fun o' ho' b hb => ?_⟩
          rcases List.mem_cons.mp ho' with rfl | ho'
          · rw [hnext, Option.some.injEq] at hb
            exact mem_bfs_of_mem next outs n _ (hb ▸ List.mem_append_right _ (List.mem_singleton_self a))
          · exact hstart o' (List.mem_append_left _ ho') b hb

/-- From a queue of start ports and nothing visited, with enough fuel, the
search visits exactly the nodes reached from the start ports. -/
theorem mem_bfs_iff (n : Nat) (q : List β) (hfuel : q.length + k * U.length ≤ n) (t : α) :
    t ∈ bfs next outs n q [] ↔ Reached next outs q t := by
  constructor
  · intro ht
    rcases mem_bfs next outs n q ht with ht | ht
    · exact absurd ht List.not_mem_nil
    · exact ht
  · rintro ⟨o, ho, a, ha, hpath⟩
    have hcov : Covered next outs [] q := fun _ hx => absurd hx List.not_mem_nil
    obtain ⟨hclosed, hstart⟩ := bfs_closed next outs hU hk n q [] (by simpa using hfuel) hcov
    induction hpath with
    | refl => exact hstart o ho a ha
    | tail _ hbc ih =>
      rcases hclosed _ ih _ hbc with hc | ⟨_, ho', _⟩
      · exact hc
      · exact absurd ho' List.not_mem_nil

end Fuel

end Search
