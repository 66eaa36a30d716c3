import Mathlib.Algebra.BigOperators.Intervals
import Mathlib.Algebra.Order.BigOperators.Group.Finset
import Mathlib.Algebra.Order.Monoid.Defs

/-!
# Unwrapping a counter that restarts from zero

A counter is read from time to time. A reading below the previous one means that the counter
restarted in between, and the previous reading is carried over from then on. Nothing is known of a
counter that was absent when it should have been read: the next reading starts afresh.

`observe` is the one-step rule, `stretch` the readings since the counter was last absent and `drops`
the total carried over inside such a stretch; `observe_summary` says the rule computes exactly these.
-/

namespace Lib.Unwrap

variable {α : Type}

/-- What is known of a counter: the last reading and what earlier restarts add to it. -/
structure Seen (α : Type) where
  last : α
  carry : α

/-- The readings since the last absence. -/
def stretch (rs : List (Option α)) : List α :=
  rs.foldl (fun xs r => match r with | none => [] | some x => xs ++ [x]) []

@[simp] theorem stretch_nil : stretch ([] : List (Option α)) = [] := rfl

@[simp] theorem stretch_append_none (rs : List (Option α)) : stretch (rs ++ [none]) = [] := by
  simp [stretch]

@[simp] theorem stretch_append_some (rs : List (Option α)) (x : α) :
    stretch (rs ++ [some x]) = stretch rs ++ [x] := by
  simp [stretch]

theorem stretch_append_somes (rs : List (Option α)) (xs : List α) :
    stretch (rs ++ xs.map some) = stretch rs ++ xs := by
  induction xs using List.reverseRecOn with
  | nil => simp
  | append_singleton xs x ih => rw [List.map_append, ← List.append_assoc, List.map_singleton, stretch_append_some, ih,
      List.append_assoc]

/-- What happened before an absence does not matter. -/
theorem stretch_append_none_append (rs rs' : List (Option α)) : stretch (rs ++ none :: rs') = stretch rs' := by
  simp [stretch]

theorem mem_of_mem_stretch {rs : List (Option α)} {x : α} (h : x ∈ stretch rs) : some x ∈ rs := by
  induction rs using List.reverseRecOn with
  | nil => cases h
  | append_singleton rs r ih =>
    cases r with
    | none => simp at h
    | some y =>
      rw [stretch_append_some, List.mem_append, List.mem_singleton] at h
      rcases h with h | rfl
      · simp [ih h]
      · simp

/-- Readings `x m, …, x n` after an absence (or from the start) form one stretch. -/
theorem stretch_range {rs : ℕ → Option α} {x : ℕ → α} {m n : ℕ} (hmn : m ≤ n)
    (h0 : m = 0 ∨ rs (m - 1) = none) (h : ∀ j, m ≤ j → j ≤ n → rs j = some (x j)) :
    stretch ((List.range (n + 1)).map rs) = (List.range' m (n - m + 1)).map x := by
  induction n, hmn using Nat.le_induction with
  | base =>
    have hm : stretch ((List.range m).map rs) = [] := by
      cases m with
      | zero => rfl
      | succ k =>
        have hk : rs k = none := by simpa using h0
        simp [List.range_succ, hk]
    simp [List.range_succ, h m le_rfl le_rfl, hm]
  | succ n hmn ih =>
    have hn := h (n + 1) (by omega) le_rfl
    have hr : List.range' m (n + 1 - m + 1) = List.range' m (n - m + 1) ++ [n + 1] := by
      rw [show n + 1 - m + 1 = (n - m + 1) + 1 by omega, List.range'_1_concat]
      simp; omega
    rw [List.range_succ, List.map_append, List.map_singleton, hn, stretch_append_some,
      ih fun j h1 h2 => h j h1 (by omega), hr, List.map_append]
    rfl

variable [AddCommMonoid α] [LinearOrder α]

/-- One reading (`some r`) or one absence of the counter. -/
def observe : Option (Seen α) → Option α → Option (Seen α)
  | _, none => none
  | none, some r => some ⟨r, 0⟩
  | some s, some r => some ⟨r, if r < s.last then s.carry + s.last else s.carry⟩

/-- The sum of the readings from which the counter restarted. -/
def drops : List α → α
  | x :: y :: l => (if y < x then x else 0) + drops (y :: l)
  | _ => 0

@[simp] theorem drops_nil : drops ([] : List α) = 0 := rfl

@[simp] theorem drops_singleton (x : α) : drops [x] = 0 := rfl

theorem drops_append_pair : ∀ (l : List α) (x y : α),
    drops (l ++ [x, y]) = drops (l ++ [x]) + if y < x then x else 0
  | [], x, y => by simp [drops]
  | [z], x, y => by simp [drops]
  | z :: w :: l, x, y => by
    have ih := drops_append_pair (w :: l) x y
    simp only [List.cons_append, drops] at ih ⊢
    rw [ih, add_assoc]

/-- A stretch read as a `Seen`: nothing is known before the first reading. -/
def summary (xs : List α) : Option (Seen α) := xs.getLast?.map fun x => ⟨x, drops xs⟩

@[simp] theorem summary_nil : summary ([] : List α) = none := rfl

@[simp] theorem summary_concat (xs : List α) (x : α) :
    summary (xs ++ [x]) = some ⟨x, drops (xs ++ [x])⟩ := by simp [summary]

/-- **The rule computes the stretch**: one more reading extends it, and what is known is the last reading
together with the drops so far. -/
theorem observe_summary (xs : List α) (r : α) :
    observe (summary xs) (some r) = summary (xs ++ [r]) := by
  induction xs using List.reverseRecOn with
  | nil => simp [summary, observe]
  | append_singleton xs x =>
    rw [summary_concat, summary_concat, List.append_assoc, List.singleton_append, drops_append_pair]
    simp only [observe]
    split <;> simp

theorem drops_range' (x : ℕ → α) (m k : ℕ) : drops ((List.range' m (k + 1)).map x) =
    ∑ j ∈ Finset.Ioc m (m + k), if x j < x (j - 1) then x (j - 1) else 0 := by
  induction k with
  | zero => simp
  | succ k ih =>
    rw [← add_assoc, Finset.sum_Ioc_succ_top (by omega), ← ih, List.range'_1_concat,
      List.range'_1_concat, List.append_assoc, List.map_append, List.map_append]
    simp only [List.map_append, List.map_singleton, List.singleton_append]
    rw [drops_append_pair]
    simp [add_assoc]

variable [IsOrderedAddMonoid α]

theorem drops_nonneg : ∀ {xs : List α}, (∀ x ∈ xs, 0 ≤ x) → 0 ≤ drops xs
  | [], _ => le_rfl
  | [_], _ => le_rfl
  | x :: y :: l, h => by
    have ih : 0 ≤ drops (y :: l) := drops_nonneg fun z hz => h z (List.mem_cons_of_mem _ hz)
    have hx := h x (by simp)
    simp only [drops]
    split <;> simp [add_nonneg, hx, ih]

/-- Nothing is carried over exactly when the counter never went down. -/
theorem drops_eq_zero_iff : ∀ {xs : List α}, (∀ x ∈ xs, 0 ≤ x) →
    (drops xs = 0 ↔ xs.IsChain (· ≤ ·))
  | [], _ => by simp
  | [_], _ => by simp
  | x :: y :: l, h => by
    have h' : ∀ z ∈ y :: l, 0 ≤ z := fun z hz => h z (List.mem_cons_of_mem _ hz)
    have ih := drops_eq_zero_iff h'
    have hy := h' y (by simp)
    rw [List.isChain_cons_cons, ← ih]
    simp only [drops]
    by_cases hyx : y < x
    · have hx : x ≠ 0 := (lt_of_le_of_lt hy hyx).ne'
      have := drops_nonneg h'
      simp only [hyx, if_true, not_le.2 hyx, false_and, iff_false]
      intro h0
      exact hx (le_antisymm (h0 ▸ le_add_of_nonneg_right this) (hy.trans hyx.le))
    · simp [hyx, not_lt.1 hyx]

/-- **An unwrapped reading never decreases** while the counter stays present. -/
theorem last_add_drops_le_succ (xs : List α) (x : α) {y : α} (hy : 0 ≤ y) :
    x + drops (xs ++ [x]) ≤ y + drops (xs ++ [x, y]) := by
  rw [drops_append_pair]
  by_cases hlt : y < x
  · rw [if_pos hlt, add_comm x]
    exact le_add_of_nonneg_left hy
  · rw [if_neg hlt, add_zero]
    gcongr
    exact not_lt.1 hlt

theorem last_add_drops_le {y : α} (hy : 0 ≤ y) : ∀ {ys : List α} (xs : List α) (x : α), (∀ z ∈ ys, 0 ≤ z) →
    x + drops (xs ++ [x]) ≤ y + drops (xs ++ x :: (ys ++ [y]))
  | [], xs, x, _ => last_add_drops_le_succ xs x hy
  | z :: ys, xs, x, h => by
    have hz := last_add_drops_le_succ xs x (h z List.mem_cons_self)
    have hys := last_add_drops_le hy (xs ++ [x]) z fun w hw => h w (List.mem_cons_of_mem _ hw)
    simp only [List.append_assoc, List.singleton_append] at hys
    exact hz.trans hys

end Lib.Unwrap
