import Mathlib.Algebra.Ring.Nat
import Psutil.Lib.Run

/-!
# Progress of one party

One party of a machine moves in some events (`mine`) and waits in the others. While it is at work, `left` is how many of its own
moves it may still need; every one of them lowers that, and any other event raises it by at most what that event costs. `outs_of_left`:
the party has answered once it has made more moves than were left and all costs together.
-/

namespace Lib.Machine

variable {σ ε ο : Type} {m : Machine σ ε ο} {allowed : ε → Prop} {mine : ε → Bool} {cost : ε → Nat} {working : σ → Prop} {left : σ → Nat}
  {answer : ο → Prop}

theorem outs_of_left
    (hmine : ∀ s e, working s → allowed e → mine e = true → answer (m.step s e).2 ∨ working (m.step s e).1 ∧ left (m.step s e).1 < left s)
    (hother : ∀ s e, working s → allowed e → mine e = false → working (m.step s e).1 ∧ left (m.step s e).1 ≤ left s + cost e)
    (hpos : ∀ s, working s → 0 < left s) {s : σ} (hs : working s) {es : List ε} (hes : ∀ e ∈ es, allowed e)
    (hmany : left s + (es.map cost).sum ≤ es.countP mine) : ∃ o ∈ m.outs s es, answer o := by
  induction es generalizing s with
  | nil =>
    have := hpos s hs
    simp only [List.map_nil, List.sum_nil, List.countP_nil] at hmany
    omega
  | cons e es ih =>
    obtain ⟨he, hes⟩ := List.forall_mem_cons.1 hes
    rw [List.map_cons, List.sum_cons] at hmany
    cases hme : mine e with
    | true =>
      rw [List.countP_cons_of_pos hme] at hmany
      rcases hmine s e hs he hme with hans | ⟨hs', hlt⟩
      · exact ⟨_, List.mem_cons_self, hans⟩
      · obtain ⟨o, ho, hans⟩ := ih hs' hes (by omega)
        exact ⟨o, List.mem_cons_of_mem _ ho, hans⟩
    | false =>
      rw [List.countP_cons_of_neg (by rw [hme]; exact Bool.false_ne_true)] at hmany
      obtain ⟨hs', hle⟩ := hother s e hs he hme
      obtain ⟨o, ho, hans⟩ := ih hs' hes (by omega)
      exact ⟨o, List.mem_cons_of_mem _ ho, hans⟩

end Lib.Machine
