import Mathlib.Data.List.Basic

/-!
# Runs of a machine

A machine answers every event and moves to a new state; what the environment chooses (an order of
steps, a reply, a clock reading) is part of the event. A `Line` of a trace is one step of a run: the
state before it, the event and the answer. Safety claims are "every line of every trace is good":
`Machine.lines_of_inv` reduces one to an invariant plus a fact about single steps.
-/

namespace Lib

structure Machine (σ ε ο : Type) where
  step : σ → ε → σ × ο

/-- One step of a run: the state before it, the event, the answer. -/
structure Line (σ ε ο : Type) where
  pre : σ
  ev : ε
  out : ο

namespace Machine

variable {σ ε ο : Type} (m : Machine σ ε ο)

def run : σ → List ε → σ
  | s, [] => s
  | s, e :: es => run (m.step s e).1 es

def trace : σ → List ε → List (Line σ ε ο)
  | _, [] => []
  | s, e :: es => ⟨s, e, (m.step s e).2⟩ :: trace (m.step s e).1 es

def outs (s : σ) (es : List ε) : List ο := (m.trace s es).map Line.out

theorem run_cons (s : σ) (e : ε) (es : List ε) : m.run s (e :: es) = m.run (m.step s e).1 es := rfl

theorem outs_cons (s : σ) (e : ε) (es : List ε) :
    m.outs s (e :: es) = (m.step s e).2 :: m.outs (m.step s e).1 es := rfl

theorem run_append (s : σ) (es es' : List ε) : m.run s (es ++ es') = m.run (m.run s es) es' := by
  induction es generalizing s with
  | nil => rfl
  | cons e es ih => exact ih _

theorem trace_append (s : σ) (es es' : List ε) :
    m.trace s (es ++ es') = m.trace s es ++ m.trace (m.run s es) es' := by
  induction es generalizing s with
  | nil => rfl
  | cons e es ih => simp [trace, run, ih]

/-- A line of a trace is a step taken after some prefix of the run. -/
theorem mem_trace {s : σ} {es : List ε} {l : Line σ ε ο} :
    l ∈ m.trace s es ↔ ∃ es₁ es₂, es = es₁ ++ l.ev :: es₂ ∧ l.pre = m.run s es₁ ∧
      l.out = (m.step l.pre l.ev).2 := by
  induction es generalizing s with
  | nil => simp [trace]
  | cons e es ih =>
    simp only [trace, List.mem_cons, ih]
    constructor
    · rintro (rfl | ⟨es₁, es₂, rfl, hp, ho⟩)
      · exact ⟨[], es, rfl, rfl, rfl⟩
      · exact ⟨e :: es₁, es₂, rfl, hp, ho⟩
    · rintro ⟨_ | ⟨e', es₁⟩, es₂, he, hp, ho⟩
      · obtain ⟨rfl, rfl⟩ := List.cons.inj he
        cases l
        simp_all [run]
      · obtain ⟨rfl, rfl⟩ := List.cons.inj he
        exact Or.inr ⟨es₁, es₂, rfl, hp, ho⟩

/-- The step rule and the run rule: what every step preserves holds after every run. -/
theorem run_inv {Inv : σ → Prop} (hstep : ∀ s e, Inv s → Inv (m.step s e).1) {s : σ} (hs : Inv s)
    (es : List ε) : Inv (m.run s es) := by
  induction es generalizing s with
  | nil => exact hs
  | cons e es ih => exact ih (hstep s e hs)

/-- What every step taken under `C` preserves holds after every run all of whose lines meet `C`. -/
theorem run_inv_of {Inv : σ → Prop} {C : Line σ ε ο → Prop}
    (hstep : ∀ s e, Inv s → C ⟨s, e, (m.step s e).2⟩ → Inv (m.step s e).1) {s : σ} (hs : Inv s)
    {es : List ε} (hC : ∀ l ∈ m.trace s es, C l) : Inv (m.run s es) := by
  induction es generalizing s with
  | nil => exact hs
  | cons e es ih =>
    exact ih (hstep s e hs (hC _ (by simp [trace]))) fun l hl => hC l (by simp [trace, hl])

/-- Every line of every trace starts in a state that satisfies the invariant. -/
theorem lines_of_inv {Inv : σ → Prop} (hstep : ∀ s e, Inv s → Inv (m.step s e).1) {s : σ} (hs : Inv s)
    {es : List ε} {l : Line σ ε ο} (hl : l ∈ m.trace s es) :
    Inv l.pre ∧ l.out = (m.step l.pre l.ev).2 := by
  obtain ⟨es₁, es₂, -, hp, ho⟩ := m.mem_trace.1 hl
  exact ⟨hp ▸ m.run_inv hstep hs es₁, ho⟩

/-- The same for an invariant that only steps under `C` preserve. -/
theorem lines_of_inv_of {Inv : σ → Prop} {C : Line σ ε ο → Prop}
    (hstep : ∀ s e, Inv s → C ⟨s, e, (m.step s e).2⟩ → Inv (m.step s e).1) {s : σ} (hs : Inv s)
    {es : List ε} (hC : ∀ l ∈ m.trace s es, C l) {l : Line σ ε ο} (hl : l ∈ m.trace s es) :
    Inv l.pre ∧ l.out = (m.step l.pre l.ev).2 := by
  obtain ⟨es₁, es₂, rfl, hp, ho⟩ := m.mem_trace.1 hl
  rw [trace_append] at hC
  exact ⟨hp ▸ m.run_inv_of hstep hs fun l hl => hC l (List.mem_append_left _ hl), ho⟩

/-- A relation between the lines of a run, in their order, from what one step does to all later lines. -/
theorem pairwise_trace {Inv : σ → Prop} {R : Line σ ε ο → Line σ ε ο → Prop}
    (hstep : ∀ s e, Inv s → Inv (m.step s e).1)
    (hR : ∀ s e, Inv s → ∀ es, ∀ l ∈ m.trace (m.step s e).1 es, R ⟨s, e, (m.step s e).2⟩ l) {s : σ} (hs : Inv s)
    (es : List ε) : (m.trace s es).Pairwise R := by
  induction es generalizing s with
  | nil => exact .nil
  | cons e es ih => exact .cons (hR s e hs es) (ih (hstep s e hs))

end Machine

end Lib
