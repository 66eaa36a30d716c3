import Mathlib.Order.Basic

/-!
# Loops

A `while (1)` loop as its body: a round goes on with a new state, or leaves the loop with a result. `loop` runs at most
`fuel` rounds, and `Yields` says what a computation with fuel gives once there is enough of it. `loop_yields` is the rule of
a loop that ends: an invariant, a measure that every round lowers, and what holds when the loop is left. `loop_eq_none` is
the rule of one that does not.
-/

namespace Lib

variable {σ ο : Type}

inductive Round (σ ο : Type) where
  | next (s : σ)
  | done (o : ο)

/-- The rule of one round: what holds if the loop goes on, and what if it is left. -/
def Round.Meets (next : σ → Prop) (done : ο → Prop) : Round σ ο → Prop
  | .next s => next s
  | .done o => done o

@[simp] theorem Round.meets_next {next : σ → Prop} {done : ο → Prop} {s : σ} : (Round.next s).Meets next done ↔ next s := Iff.rfl

@[simp] theorem Round.meets_done {next : σ → Prop} {done : ο → Prop} {o : ο} : (Round.done o).Meets next done ↔ done o := Iff.rfl

theorem Round.Meets.imp {next next' : σ → Prop} {done done' : ο → Prop} {r : Round σ ο} (h : r.Meets next done)
    (hnext : ∀ s, next s → next' s) (hdone : ∀ o, done o → done' o) : r.Meets next' done' := by
  cases r with
  | next s => exact hnext s h
  | done o => exact hdone o h

/-- `none` if the loop has not been left after `fuel` rounds. -/
def loop (body : σ → Round σ ο) : Nat → σ → Option ο
  | 0, _ => none
  | fuel + 1, s =>
    match body s with
    | .next s => loop body fuel s
    | .done o => some o

variable {body : σ → Round σ ο}

theorem loop_next {s s' : σ} (h : body s = .next s') (fuel : Nat) : loop body (fuel + 1) s = loop body fuel s' := by
  rw [loop, h]

theorem loop_done {s : σ} {o : ο} (h : body s = .done o) (fuel : Nat) : loop body (fuel + 1) s = some o := by
  rw [loop, h]

/-! ## Enough fuel -/

def Yields (f : Nat → Option ο) (o : ο) : Prop := ∃ enough, ∀ fuel, enough ≤ fuel → f fuel = some o

namespace Yields

variable {f : Nat → Option ο} {o o' : ο}

theorem unique (h : Yields f o) (h' : Yields f o') : o = o' := by
  obtain ⟨enough, hf⟩ := h
  obtain ⟨enough', hf'⟩ := h'
  have heq := hf (max enough enough') (Nat.le_max_left ..)
  rw [hf' _ (Nat.le_max_right ..)] at heq
  exact (Option.some.inj heq).symm

theorem pure (o : ο) : Yields (fun _ => some o) o := ⟨0, fun _ _ => rfl⟩

/-- One computation after another, with the same fuel. -/
theorem bind {α : Type} {f : Nat → Option α} {g : α → Nat → Option ο} {a : α} (hf : Yields f a) (hg : Yields (g a) o) :
    Yields (fun fuel => (f fuel).bind fun a => g a fuel) o := by
  obtain ⟨enough, hf⟩ := hf
  obtain ⟨enough', hg⟩ := hg
  refine ⟨max enough enough', fun fuel hfuel => ?_⟩
  show (f fuel).bind _ = some o
  rw [hf fuel (Nat.le_trans (Nat.le_max_left ..) hfuel)]
  exact hg fuel (Nat.le_trans (Nat.le_max_right ..) hfuel)

theorem map {α : Type} {f : Nat → Option α} {a : α} (hf : Yields f a) (g : α → ο) : Yields (fun fuel => (f fuel).map g) (g a) := by
  obtain ⟨enough, hf⟩ := hf
  exact ⟨enough, fun fuel hfuel => congrArg (Option.map g) (hf fuel hfuel)⟩

end Yields

/-- **A loop that ends**: what every round keeps, and lowers. -/
theorem loop_yields {I : σ → Prop} {μ : σ → Nat} {Q : ο → Prop} (hround : ∀ s, I s → (body s).Meets (fun s' => I s' ∧ μ s' < μ s) Q)
    {s : σ} (hI : I s) : ∃ o, Q o ∧ Yields (loop body · s) o := by
  induction hn : μ s using Nat.strongRecOn generalizing s with
  | _ n ih =>
    have h := hround s hI
    cases hs : body s with
    | done o =>
      rw [hs] at h
      refine ⟨o, h, 1, fun fuel hfuel => ?_⟩
      obtain ⟨fuel, rfl⟩ : ∃ k, fuel = k + 1 := ⟨fuel - 1, by omega⟩
      exact loop_done hs fuel
    | next s' =>
      rw [hs] at h
      obtain ⟨hI', hlt⟩ := h
      obtain ⟨o, hQ, enough, ho⟩ := ih (μ s') (by omega) hI' rfl
      refine ⟨o, hQ, enough + 1, fun fuel hfuel => ?_⟩
      obtain ⟨fuel, rfl⟩ : ∃ k, fuel = k + 1 := ⟨fuel - 1, by omega⟩
      exact (loop_next hs fuel).trans (ho fuel (by omega))

/-- A loop ends if every round lowers a measure. -/
theorem loop_total {μ : σ → Nat} (hround : ∀ s, (body s).Meets (fun s' => μ s' < μ s) fun _ => True) (s : σ) :
    ∃ o, Yields (loop body · s) o := by
  obtain ⟨o, -, hyields⟩ := loop_yields (I := fun _ => True) (Q := fun _ => True) (s := s)
    (fun s _ => (hround s).imp (fun _ hlt => ⟨trivial, hlt⟩) fun _ => id) trivial
  exact ⟨o, hyields⟩

/-- **A loop that never ends**: from such a state every round leads to such a state. -/
theorem loop_eq_none {J : σ → Prop} (hnext : ∀ s, J s → ∃ s', body s = .next s' ∧ J s') :
    ∀ {fuel : Nat} {s : σ}, J s → loop body fuel s = none
  | 0, _, _ => rfl
  | fuel + 1, s, hJ => by
    obtain ⟨s', hs, hJ'⟩ := hnext s hJ
    rw [loop_next hs]
    exact loop_eq_none hnext hJ'

end Lib
