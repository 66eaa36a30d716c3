import Mathlib.Algebra.Order.Archimedean.Basic
import Mathlib.Algebra.BigOperators.Group.Finset.Basic
import Mathlib.Algebra.Order.BigOperators.Group.Finset
import Mathlib.Algebra.Order.Field.Basic
import Mathlib.Tactic.Linarith

/-!
# Polling with sleeps that double up to a cap

A poller checks, sleeps, checks again, and so on; each sleep is twice the one before, up to a cap. Time is any
linearly ordered field. `Backoff.poll_eq`: the poller answers at the first check that has an answer, and
`Backoff.elapsed_le_of_first`: it overshoots a deadline by one interval at most.
-/

namespace Lib

/-- The first sleep and the largest one. -/
structure Backoff (α : Type) [Zero α] [LE α] [LT α] where
  first : α
  cap : α
  first_pos : 0 < first
  first_le_cap : first ≤ cap

namespace Backoff

variable {α β : Type} [Field α] [LinearOrder α] (b : Backoff α)

/-- The length of the `k`-th sleep. -/
def interval : ℕ → α
  | 0 => b.first
  | k + 1 => min (interval k * 2) b.cap

/-- The time slept after `k` sleeps. -/
def elapsed (k : ℕ) : α := ∑ j ∈ Finset.range k, b.interval j

theorem cap_nonneg : 0 ≤ b.cap := b.first_pos.le.trans b.first_le_cap

theorem interval_le_cap (k : ℕ) : b.interval k ≤ b.cap := by
  cases k with
  | zero => exact b.first_le_cap
  | succ k => exact min_le_right _ _

@[simp] theorem elapsed_zero : b.elapsed 0 = 0 := Finset.sum_range_zero _

theorem elapsed_succ (k : ℕ) : b.elapsed (k + 1) = b.elapsed k + b.interval k := Finset.sum_range_succ _ _

/-! ## The poller -/

/-- A poller that started at time `t` and has slept `k` times; `check` is what a check at a given time finds. -/
def poll (check : α → Option β) (t : α) : ℕ → ℕ → Option (β × α)
  | 0, _ => none
  | fuel + 1, k => match check (t + b.elapsed k) with
    | some r => some (r, t + b.elapsed k)
    | none => poll check t fuel (k + 1)

/-- **The poller answers at the first check that finds something.** -/
theorem poll_eq {check : α → Option β} {t : α} {r : β} {k : ℕ} : ∀ (fuel : ℕ) {j : ℕ}, j ≤ k →
    (∀ i, j ≤ i → i < k → check (t + b.elapsed i) = none) → check (t + b.elapsed k) = some r → k < j + fuel →
    b.poll check t fuel j = some (r, t + b.elapsed k)
  | 0, j, hj, _, _, hf => by omega
  | fuel + 1, j, hj, hnone, hr, hf => by
    unfold poll
    rcases hj.eq_or_lt with rfl | hlt
    · rw [hr]
    · rw [hnone j le_rfl hlt]
      exact poll_eq fuel hlt (fun i hi => hnone i (j.le_succ.trans hi)) hr (by omega)

/-- The poller answers what one of its checks found. -/
theorem poll_some {check : α → Option β} {t t' : α} {r : β} : ∀ (fuel j : ℕ), b.poll check t fuel j = some (r, t') →
    ∃ k, check (t + b.elapsed k) = some r
  | 0, _, h => by cases h
  | fuel + 1, j, h => by
    unfold poll at h
    split at h
    · rename_i r' hr
      cases h
      exact ⟨j, hr⟩
    · exact poll_some fuel (j + 1) h

/-- Some check is the first one that finds something. -/
theorem exists_first {check : α → Option β} {t : α} (h : ∃ k, (check (t + b.elapsed k)).isSome = true) :
    ∃ k r, check (t + b.elapsed k) = some r ∧ ∀ i < k, check (t + b.elapsed i) = none := by
  classical
  obtain ⟨r, hr⟩ := Option.isSome_iff_exists.1 (Nat.find_spec h)
  refine ⟨Nat.find h, r, hr, fun i hi => ?_⟩
  have hno := Nat.find_min h hi
  simpa using hno

/-! ## Deadlines -/

variable [IsStrictOrderedRing α]

theorem first_le_interval (k : ℕ) : b.first ≤ b.interval k := by
  induction k with
  | zero => exact le_rfl
  | succ k ih =>
    have hpos := b.first_pos
    exact le_min (by linarith) b.first_le_cap

theorem interval_pos (k : ℕ) : 0 < b.interval k := b.first_pos.trans_le (b.first_le_interval k)

theorem elapsed_strictMono : StrictMono b.elapsed :=
  strictMono_nat_of_lt_succ fun k => by
    rw [elapsed_succ]
    exact lt_add_of_pos_right _ (b.interval_pos k)

/-- The sleeps add up to any amount of time. -/
theorem exists_le_elapsed [Archimedean α] (d : α) : ∃ k, d ≤ b.elapsed k := by
  obtain ⟨k, hk⟩ := Archimedean.arch d b.first_pos
  refine ⟨k, hk.trans ?_⟩
  have hle : ∑ _j ∈ Finset.range k, b.first ≤ b.elapsed k := Finset.sum_le_sum fun j _ => b.first_le_interval j
  rwa [Finset.sum_const, Finset.card_range] at hle

/-- The first check after `d` comes within one interval. -/
theorem elapsed_le_of_first {d : α} (hd : 0 ≤ d) {k : ℕ} (h : ∀ i < k, b.elapsed i < d) : b.elapsed k ≤ d + b.cap := by
  cases k with
  | zero =>
    rw [elapsed_zero]
    exact add_nonneg hd b.cap_nonneg
  | succ k =>
    rw [elapsed_succ]
    exact add_le_add (h k k.lt_succ_self).le (b.interval_le_cap k)

end Backoff

end Lib
