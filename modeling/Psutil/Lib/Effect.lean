import Mathlib.Logic.Basic

/-!
# Code with state and exceptions

A computation keeps the changes it made before it raised. `Moves R x` says how `x` changes the state, `Triple P x Q`
what holds of its outcome and of the state after it. The rules follow how a computation is built.
-/

namespace Lib

/-- A computation that may raise `ε`, over a state `σ`. -/
abbrev Eff (ε σ α : Type) := ExceptT ε (StateM σ) α

namespace Eff

variable {ε σ α β : Type}

theorem bind_run (x : Eff ε σ α) (f : α → Eff ε σ β) (s : σ) :
    (x >>= f) s = match x s with | (.ok a, s') => f a s' | (.error e, s') => (.error e, s') := by
  change (ExceptT.bind x f) s = _
  simp only [ExceptT.bind, ExceptT.mk, bind, StateT.bind, ExceptT.bindCont]
  rcases x s with ⟨r, s'⟩
  cases r <;> rfl

/-- What follows `get` runs on the state it has read. -/
theorem get_bind_run (f : σ → Eff ε σ α) (s : σ) : (get >>= f) s = f s s := rfl

theorem tryCatch_run (x : Eff ε σ α) (f : ε → Eff ε σ α) (s : σ) :
    (tryCatch x f) s = match x s with | (.ok a, s') => (.ok a, s') | (.error e, s') => f e s' := by
  change (ExceptT.tryCatch x f) s = _
  simp only [ExceptT.tryCatch, ExceptT.mk, bind, StateT.bind]
  rcases x s with ⟨r, s'⟩
  cases r <;> rfl

/-! ## What every run does to the state -/

/-- Every run of `x` takes the state along `R`. -/
def Moves (R : σ → σ → Prop) (x : Eff ε σ α) : Prop := ∀ s, R s (x s).2

section
variable {R : σ → σ → Prop}

theorem Moves.pure (refl : ∀ s, R s s) (a : α) : Moves R (Pure.pure a : Eff ε σ α) := fun s => refl s

theorem Moves.throw (refl : ∀ s, R s s) (e : ε) : Moves R (throw e : Eff ε σ α) := fun s => refl s

theorem Moves.get (refl : ∀ s, R s s) : Moves R (get : Eff ε σ σ) := fun s => refl s

theorem Moves.modify {f : σ → σ} (h : ∀ s, R s (f s)) : Moves R (modify f : Eff ε σ PUnit) := fun s => h s

variable (trans : ∀ s s' s'', R s s' → R s' s'' → R s s'')
include trans

theorem Moves.bind {x : Eff ε σ α} {f : α → Eff ε σ β} (hx : Moves R x) (hf : ∀ a, Moves R (f a)) :
    Moves R (x >>= f) := by
  intro s
  have h := hx s
  rw [bind_run]
  rcases hr : x s with ⟨r, s'⟩
  rw [hr] at h
  cases r with
  | ok a => exact trans _ _ _ h (hf a s')
  | error e => exact h

theorem Moves.tryCatch {x : Eff ε σ α} {f : ε → Eff ε σ α} (hx : Moves R x) (hf : ∀ e, Moves R (f e)) :
    Moves R (tryCatch x f) := by
  intro s
  have h := hx s
  rw [tryCatch_run]
  rcases hr : x s with ⟨r, s'⟩
  rw [hr] at h
  cases r with
  | ok a => exact h
  | error e => exact trans _ _ _ h (hf e s')

end

/-! ## Pre- and postconditions -/

/-- From any state where `P` holds, the outcome of `x` and the state after it are as `Q` says. -/
def Triple (P : σ → Prop) (x : Eff ε σ α) (Q : Except ε α → σ → Prop) : Prop := ∀ s, P s → Q (x s).1 (x s).2

section
variable {P P' : σ → Prop} {Q Q' M : Except ε α → σ → Prop} {N : Except ε β → σ → Prop}

theorem Triple.mono {x : Eff ε σ α} (h : Triple P x Q) (hP : ∀ s, P' s → P s) (hQ : ∀ r s, Q r s → Q' r s) :
    Triple P' x Q' := fun s hs => hQ _ _ (h s (hP s hs))

/-- A computation is what it does in each state. -/
theorem Triple.get_bind {f : σ → Eff ε σ α} (h : ∀ s, P s → Q ((f s) s).1 ((f s) s).2) :
    Triple P (get >>= f) Q := by
  intro s hs
  rw [bind_run]
  exact h s hs

theorem Triple.bind {x : Eff ε σ β} {f : β → Eff ε σ α} (hx : Triple P x N) (hok : ∀ b, Triple (N (.ok b)) (f b) Q)
    (herr : ∀ e s, N (.error e) s → Q (.error e) s) : Triple P (x >>= f) Q := by
  intro s hs
  have h := hx s hs
  rw [bind_run]
  rcases hr : x s with ⟨r, s'⟩
  rw [hr] at h
  cases r with
  | ok b => exact hok b s' h
  | error e => exact herr e s' h

theorem Triple.tryCatch {x : Eff ε σ α} {f : ε → Eff ε σ α} (hx : Triple P x M) (hok : ∀ a s, M (.ok a) s → Q (.ok a) s)
    (herr : ∀ e, Triple (M (.error e)) (f e) Q) : Triple P (tryCatch x f) Q := by
  intro s hs
  have h := hx s hs
  rw [tryCatch_run]
  rcases hr : x s with ⟨r, s'⟩
  rw [hr] at h
  cases r with
  | ok a => exact hok a s' h
  | error e => exact herr e s' h

/-- What every run of `x` does to the state, as a postcondition. -/
theorem Moves.triple {R : σ → σ → Prop} {x : Eff ε σ α} (hx : Moves R x) (h : ∀ s s' r, P s → R s s' → Q r s') :
    Triple P x Q := fun s hs => h s _ _ hs (hx s)

end

/-! ## Computations that raise -/

/-- The outcome of code that does not touch the state. -/
def lift (r : Except ε α) : Eff ε σ α := fun s => (r, s)

theorem lift_bind_run (r : Except ε α) (f : α → Eff ε σ β) (s : σ) :
    (lift r >>= f) s = match r with | .ok a => f a s | .error e => (.error e, s) := by
  rw [bind_run]
  cases r <;> rfl

/-- `x` raises, and leaves the state as it is. -/
def Raises (x : Eff ε σ α) : Prop := ∀ s, ∃ e, x s = (.error e, s)

theorem Raises.throw (e : ε) : Raises (throw e : Eff ε σ α) := fun _ => ⟨e, rfl⟩

theorem Raises.lift_bind (r : Except ε α) {f : α → Eff ε σ β} (hf : ∀ a, Raises (f a)) : Raises (lift r >>= f) := by
  intro s
  rw [lift_bind_run]
  cases r with
  | ok a => exact hf a s
  | error e => exact ⟨e, rfl⟩

theorem Raises.tryCatch {x : Eff ε σ α} {f : ε → Eff ε σ α} (hx : Raises x) (hf : ∀ e, Raises (f e)) :
    Raises (tryCatch x f) := by
  intro s
  obtain ⟨e, he⟩ := hx s
  rw [tryCatch_run, he]
  exact hf e s

end Eff

end Lib
