import Mathlib.Logic.Function.Basic
import Mathlib.Data.List.Basic

/-!
# Threads beside something that changes

After one thread has moved, a thread is that one or is where it was (`moved`). What the thing has been is the list of its versions; the
last one is what it is, and a thread remembers the number of the version from which on it looks.
-/

namespace Lib

theorem moved {κ : Type} {calls : Nat → Option κ} {t u : Nat} {c : Option κ} {d : κ} (h : Function.update calls t c u = some d) :
    u = t ∧ c = some d ∨ u ≠ t ∧ calls u = some d := by
  rcases eq_or_ne u t with hut | hne
  · rw [hut, Function.update_self] at h
    exact Or.inl ⟨hut, h⟩
  · rw [Function.update_of_ne hne] at h
    exact Or.inr ⟨hne, h⟩

namespace Versions

variable {α : Type} {versions : List α} {since : Nat} {v : α}

/-- A later version takes none away. -/
theorem mem_drop_append (h : v ∈ versions.drop since) (later : List α) : v ∈ (versions ++ later).drop since := by
  rw [List.drop_append]
  exact List.mem_append_left _ h

theorem length_pos (h : versions.getLast? = some v) : 0 < versions.length := List.length_pos_iff.2 fun hnil => by
  rw [hnil] at h
  cases h

/-- What the thing is now is among the versions since then. -/
theorem current_mem_drop (h : versions.getLast? = some v) (hsince : since < versions.length) : v ∈ versions.drop since := by
  have hlast := List.getLast?_drop (l := versions) (i := since)
  rw [if_neg (Nat.not_le.2 hsince), h] at hlast
  exact List.mem_of_getLast? hlast

end Versions

end Lib
