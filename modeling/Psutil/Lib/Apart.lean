import Psutil.Lib.Run

/-!
# Users of a machine that do not meet

`Apart` says that one user sees of the machine what a machine of its own would show it: its own events do the same to both, and
those of the others leave its view alone, if they are events that `ok` allows. In a run of such events it can then not tell that
it is not alone (`Apart.outs`).
-/

namespace Lib

namespace Machine

variable {σ τ ε ο : Type}

/-- `own` picks the events of the user, and `view` what it has in the state. -/
structure Apart (m : Machine σ ε ο) (alone : Machine τ ε ο) (own : ε → Bool) (ok : ε → Prop) (view : σ → τ) : Prop where
  mine : ∀ s e, own e = true → view (m.step s e).1 = (alone.step (view s) e).1 ∧ (m.step s e).2 = (alone.step (view s) e).2
  other : ∀ s e, own e = false → ok e → view (m.step s e).1 = view s

variable {m : Machine σ ε ο} {alone : Machine τ ε ο} {own : ε → Bool} {ok : ε → Prop} {view : σ → τ}

/-- **The answers the user gets** are those it would get alone. -/
theorem Apart.outs (h : Apart m alone own ok view) (s : σ) {es : List ε} (hes : ∀ e ∈ es, ok e) :
    ((m.trace s es).filter fun l => own l.ev).map Line.out = alone.outs (view s) (es.filter own) := by
  induction es generalizing s with
  | nil => rfl
  | cons e es ih =>
    obtain ⟨hok, hes⟩ := List.forall_mem_cons.1 hes
    have ih := ih (m.step s e).1 hes
    cases he : own e with
    | true =>
      rw [List.filter_cons_of_pos he, outs_cons, ← (h.mine s e he).1, ← (h.mine s e he).2, ← ih]
      simp [trace, he]
    | false =>
      rw [List.filter_cons_of_neg (by simp [he]), ← h.other s e he hok, ← ih]
      simp [trace, he]

end Machine

end Lib
