import Mathlib.Algebra.Order.Field.Basic
import Mathlib.Data.List.Induction
import Mathlib.Tactic.Ring
import Mathlib.Tactic.Linarith

/-!
# Exponentially weighted moving averages

`average f xs` starts at zero and takes in one sample after the other, the old value weighted with `f`. It stays between zero and the
largest sample, and while the samples rise an average with a smaller factor is ahead of one with a larger factor.
-/

namespace Lib

variable {K : Type*} [Field K]

def smooth (f a x : K) : K := a * f + x * (1 - f)

def average (f : K) (xs : List K) : K := xs.foldl (smooth f) 0

theorem average_concat (f : K) (xs : List K) (x : K) : average f (xs ++ [x]) = smooth f (average f xs) x := by
  rw [average, List.foldl_append]
  rfl

/-- The new value as the sample less what is left of the distance to it. -/
theorem smooth_eq_sub (f a x : K) : smooth f a x = x - f * (x - a) := by
  rw [smooth]
  ring

theorem smooth_self (f a : K) : smooth f a a = a := by
  rw [smooth]
  ring

variable [LinearOrder K] [IsStrictOrderedRing K]

theorem smooth_mono {f a a' x x' : K} (hf : 0 ≤ f) (hf' : f ≤ 1) (ha : a ≤ a') (hx : x ≤ x') : smooth f a x ≤ smooth f a' x' :=
  add_le_add (mul_le_mul_of_nonneg_right ha hf) (mul_le_mul_of_nonneg_right hx (sub_nonneg.2 hf'))

theorem average_nonneg {f : K} (hf : 0 ≤ f) (hf' : f ≤ 1) {xs : List K} (h : ∀ x ∈ xs, 0 ≤ x) : 0 ≤ average f xs := by
  induction xs using List.reverseRecOn with
  | nil => exact le_rfl
  | append_singleton xs x ih =>
    rw [average_concat, ← smooth_self f 0]
    exact smooth_mono hf hf' (ih fun y hy => h y (List.mem_append_left _ hy)) (h x (by simp))

theorem average_le {f m : K} (hf : 0 ≤ f) (hf' : f ≤ 1) (hm : 0 ≤ m) {xs : List K} (h : ∀ x ∈ xs, x ≤ m) : average f xs ≤ m := by
  induction xs using List.reverseRecOn with
  | nil => exact hm
  | append_singleton xs x ih =>
    rw [average_concat, ← smooth_self f m]
    exact smooth_mono hf hf' (ih fun y hy => h y (List.mem_append_left _ hy)) (h x (by simp))

/-- While the samples rise, what reacts faster is ahead. -/
theorem average_anti {f g : K} (hg : 0 ≤ g) (hgf : g ≤ f) (hf : f ≤ 1) {xs : List K} (hnonneg : ∀ x ∈ xs, 0 ≤ x)
    (hrise : xs.Pairwise (· ≤ ·)) : average f xs ≤ average g xs := by
  induction xs using List.reverseRecOn with
  | nil => exact le_rfl
  | append_singleton xs x ih =>
    have hrise := List.pairwise_append.1 hrise
    have ih := ih (fun y hy => hnonneg y (List.mem_append_left _ hy)) hrise.1
    have hahead : average g xs ≤ x := average_le hg (hgf.trans hf) (hnonneg x (by simp)) fun y hy => hrise.2.2 y hy x (by simp)
    rw [average_concat, average_concat, smooth_eq_sub, smooth_eq_sub]
    have hmul : g * (x - average g xs) ≤ f * (x - average f xs) :=
      mul_le_mul hgf (by linarith) (by linarith) (hg.trans hgf)
    linarith

end Lib
