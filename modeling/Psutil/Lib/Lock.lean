import Mathlib.Logic.Function.Basic

/-!
# One lock

Each thread is somewhere in a call, or nowhere, and some places are inside a section that a lock guards. `Guards` says that the
holder of the lock is the thread that is inside; the rules are the ways in which a thread can move.
-/

namespace Lib

variable {κ : Type} {inside : κ → Bool}

def Guards (inside : κ → Bool) (lock : Option Nat) (calls : Nat → Option κ) : Prop :=
  ∀ t, lock = some t ↔ ∃ c, calls t = some c ∧ inside c

namespace Guards

variable {lock : Option Nat} {calls : Nat → Option κ} {t u : Nat} {c d : κ}

theorem unique (h : Guards inside lock calls) (hc : calls t = some c) (hd : calls u = some d) (hcin : inside c) (hdin : inside d) : u = t :=
  Option.some.inj (((h u).2 ⟨d, hd, hdin⟩).symm.trans ((h t).2 ⟨c, hc, hcin⟩))

/-- A thread that stays inside, or stays outside. -/
theorem keep (h : Guards inside lock calls) (c' : Option κ)
    (hsame : (∃ d, c' = some d ∧ inside d) ↔ ∃ c, calls t = some c ∧ inside c) : Guards inside lock (Function.update calls t c') := by
  intro u
  rcases eq_or_ne u t with rfl | hne
  · rw [Function.update_self, hsame]
    exact h u
  · rw [Function.update_of_ne hne]
    exact h u

theorem stay (h : Guards inside lock calls) (hc : calls t = some c) (hcin : inside c) (hdin : inside d) :
    Guards inside lock (Function.update calls t (some d)) :=
  h.keep (some d) ⟨fun _ => ⟨c, hc, hcin⟩, fun _ => ⟨d, rfl, hdin⟩⟩

theorem take (h : Guards inside none calls) (hcin : inside c) : Guards inside (some t) (Function.update calls t (some c)) := by
  intro u
  rcases eq_or_ne u t with rfl | hne
  · rw [Function.update_self]
    exact ⟨fun _ => ⟨c, rfl, hcin⟩, fun _ => rfl⟩
  · rw [Function.update_of_ne hne, ← h u]
    constructor
    · intro heq
      exact absurd (Option.some.inj heq).symm hne
    · intro heq
      cases heq

theorem release (h : Guards inside lock calls) (hc : calls t = some c) (hcin : inside c) :
    Guards inside none (Function.update calls t none) := by
  intro u
  rcases eq_or_ne u t with rfl | hne
  · rw [Function.update_self]
    constructor
    · intro heq
      cases heq
    · rintro ⟨d, hd, -⟩
      cases hd
  · rw [Function.update_of_ne hne]
    constructor
    · intro heq
      cases heq
    · rintro ⟨d, hd, hdin⟩
      exact absurd (h.unique hc hd hcin hdin) hne

/-- When the thread that is inside moves, what is inside then is that thread. -/
theorem mover (h : Guards inside lock calls) (hc : calls t = some c) (hcin : inside c) {c' : Option κ}
    (hd : Function.update calls t c' u = some d) (hdin : inside d) : u = t ∧ c' = some d := by
  rcases eq_or_ne u t with rfl | hne
  · rw [Function.update_self] at hd
    exact ⟨rfl, hd⟩
  · rw [Function.update_of_ne hne] at hd
    exact absurd (h.unique hc hd hcin hdin) hne

end Guards

end Lib
