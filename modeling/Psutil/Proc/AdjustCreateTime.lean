import Mathlib.Algebra.Order.Ring.Rat
import Mathlib.Algebra.Order.Group.Abs
import Mathlib.Tactic.Linarith
import Mathlib.Tactic.Ring

/-!
# `adjust_proc_create_time` on macOS and NetBSD (`_psosx.py:255`, `_psbsd.py:347`)

The two functions are the same; `Process.create_time` passes the time of the kernel through them. Numbers are exact; `init` is
`INIT_BOOT_TIME`, and `boot` what `boot_time()` returns now. `adjustProcCreateTime_eq`: the time of a process goes up by the size of
the update, whatever its direction. `adjustProcCreateTime_follows_iff`: that is right exactly when the clock has gone forward.
-/

namespace Psutil

def adjustProcCreateTime (init boot ctime : ℚ) : ℚ :=
  if init = 0 then ctime
  else
    let diff := init - boot
    if diff = 0 ∨ |diff| < 1 then ctime
    else if diff < 0 then ctime - diff
    else ctime + diff

/-- The update changes neither the distance from the boot nor the order of two processes. -/
structure FollowsClock (init boot : ℚ) : Prop where
  distance : ∀ c, adjustProcCreateTime init boot c - boot = c - init
  order : ∀ c d, adjustProcCreateTime init boot c ≤ adjustProcCreateTime init boot d ↔ c ≤ d

/-- What is added to every time. -/
def adjustment (init boot : ℚ) : ℚ := if init = 0 ∨ |init - boot| < 1 then 0 else |init - boot|

theorem adjustProcCreateTime_eq (init boot c : ℚ) : adjustProcCreateTime init boot c = c + adjustment init boot := by
  unfold adjustProcCreateTime adjustment
  by_cases hinit : init = 0
  · simp [hinit]
  by_cases hsmall : |init - boot| < 1
  · simp [hinit, hsmall]
  · have hne : init - boot ≠ 0 := by
      intro h
      simp [h] at hsmall
    simp only [hinit, hne, hsmall, or_self, if_false]
    split_ifs with hneg
    · rw [abs_of_neg hneg]
      ring
    · rw [abs_of_nonneg (not_lt.1 hneg)]

/-- Whatever is added, it is the same for all processes. -/
theorem adjustProcCreateTime_le_iff (init boot c d : ℚ) :
    adjustProcCreateTime init boot c ≤ adjustProcCreateTime init boot d ↔ c ≤ d := by
  rw [adjustProcCreateTime_eq, adjustProcCreateTime_eq, add_le_add_iff_right]

/-- After a step back the process moves away from the boot, by twice the step. -/
theorem distance_of_back {init boot : ℚ} (hinit : init ≠ 0) (hback : 1 ≤ init - boot) (c : ℚ) :
    adjustProcCreateTime init boot c - boot = c - init + 2 * (init - boot) := by
  have habs : |init - boot| = init - boot := abs_of_nonneg (by linarith)
  rw [adjustProcCreateTime_eq, adjustment, habs, if_neg (by rw [not_or, not_lt]; exact ⟨hinit, hback⟩)]
  ring

theorem distance_of_forward {init boot : ℚ} (hinit : init ≠ 0) (hforward : 1 ≤ boot - init) (c : ℚ) :
    adjustProcCreateTime init boot c - boot = c - init := by
  have habs : |init - boot| = boot - init := by
    rw [abs_of_nonpos (by linarith)]
    ring
  rw [adjustProcCreateTime_eq, adjustment, habs, if_neg (by rw [not_or, not_lt]; exact ⟨hinit, hforward⟩)]
  ring

/-- **The adjustment follows the clock exactly when** the clock has gone forward. -/
theorem adjustProcCreateTime_follows_iff {init boot : ℚ} (hinit : init ≠ 0) (hstep : 1 ≤ |init - boot|) :
    FollowsClock init boot ↔ init < boot := by
  constructor
  · intro h
    by_contra hback
    have hnonneg : 0 ≤ init - boot := by linarith
    rw [abs_of_nonneg hnonneg] at hstep
    have hdistance := h.distance 0
    rw [distance_of_back hinit hstep] at hdistance
    linarith
  · intro h
    rw [abs_of_neg (by linarith)] at hstep
    exact ⟨distance_of_forward hinit (by linarith), adjustProcCreateTime_le_iff init boot⟩

/-- The clock is set back by an hour, and the processes seem two hours younger. -/
theorem adjustProcCreateTime_back : ¬∀ init boot : ℚ, init ≠ 0 → 1 ≤ |init - boot| → FollowsClock init boot := by
  intro h
  have hinit : (1700003600 : ℚ) ≠ 0 := by norm_num
  have hstep : (1 : ℚ) ≤ |1700003600 - 1700000000| := by
    rw [abs_of_nonneg (by norm_num)]
    norm_num
  have hdistance := (h _ _ hinit hstep).distance 0
  rw [distance_of_back hinit (by norm_num)] at hdistance
  norm_num at hdistance

/-- The clock is set forward by an hour. -/
theorem adjustProcCreateTime_forward : FollowsClock 1700000000 1700003600 := by
  have hstep : (1 : ℚ) ≤ |1700000000 - 1700003600| := by
    rw [abs_of_nonpos (by norm_num)]
    norm_num
  exact (adjustProcCreateTime_follows_iff (by norm_num) hstep).2 (by norm_num)

end Psutil
