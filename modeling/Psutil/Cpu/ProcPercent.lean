import Mathlib.Algebra.Order.Ring.Rat
import Mathlib.Tactic.FieldSimp
import Mathlib.Tactic.Linarith
import Mathlib.Tactic.Ring
import Psutil.Lib.Run
import Psutil.Linux.ProcFiles

/-!
# `Process.cpu_percent()` without an interval (`__init__.py:1236-1292`)

| here | there |
| --- | --- |
| `PercentState` | `_last_sys_cpu_times` and `_last_proc_cpu_times` |
| `PercentCall` | what a call reads: `_timer()`, `cpu_count()` and `self._proc.cpu_times()` |
| `PercentState.call` | the call; `round` is the `round(x, 1)` of the code |

The state keeps the time of the clock times the number of CPUs. `cpuPercent_correct_iff`: that number cancels exactly when it
is the one of the call before, or when there is nothing to scale.
-/

namespace Psutil

open Lib

structure PercentState where
  lastSysCpuTimes : Option ℚ
  lastProcCpuTimes : Option CpuTimes
  deriving DecidableEq

structure PercentCall where
  timer : ℚ
  cpuCount : Option Nat
  times : CpuTimes
  deriving DecidableEq

/-- `cpu_count() or 1`. -/
def PercentCall.numCpus (c : PercentCall) : Nat :=
  match c.cpuCount with
  | some (n + 1) => n + 1
  | _ => 1

/-- The process time between two calls. -/
def PercentCall.used (c1 c2 : PercentCall) : ℚ :=
  (c2.times.user - c1.times.user) + (c2.times.system - c1.times.system)

/-- A new object. -/
def PercentState.init : PercentState := ⟨none, none⟩

def PercentState.call (round : ℚ → ℚ) (s : PercentState) (c : PercentCall) : PercentState × ℚ :=
  let st2 := c.timer * c.numCpus
  let pt2 := c.times
  match s.lastSysCpuTimes, s.lastProcCpuTimes with
  | some st1, some pt1 =>
    let deltaProc := (pt2.user - pt1.user) + (pt2.system - pt1.system)
    let deltaTime := st2 - st1
    -- `ZeroDivisionError`
    (⟨some st2, some pt2⟩, if deltaTime = 0 then 0 else round (deltaProc / deltaTime * 100 * c.numCpus))
  | _, _ => (⟨some st2, some pt2⟩, 0)

/-- The calls on one object. -/
def cpuPercent (round : ℚ → ℚ) : Machine PercentState PercentCall ℚ := ⟨PercentState.call round⟩

/-! ## One call -/

/-- A call keeps what it has read, whatever was there. -/
theorem PercentState.call_fst (round : ℚ → ℚ) (s : PercentState) (c : PercentCall) :
    (s.call round c).1 = ⟨some (c.timer * c.numCpus), some c.times⟩ := by
  obtain ⟨_ | st1, _ | pt1⟩ := s <;> rfl

/-- What a call returns that comes after another one. -/
def percentAfter (round : ℚ → ℚ) (c1 c2 : PercentCall) : ℚ :=
  if c2.timer * c2.numCpus - c1.timer * c1.numCpus = 0 then 0
  else round (c1.used c2 / (c2.timer * c2.numCpus - c1.timer * c1.numCpus) * 100 * c2.numCpus)

theorem PercentCall.numCpus_pos (c : PercentCall) : 0 < c.numCpus := by
  unfold numCpus
  split <;> omega

/-- A percentage of the scaled time is one of the wall clock time exactly when the scale is that of the time. -/
theorem scaled_percent_eq_iff {used deltaTime wall n : ℚ} (hwall : wall ≠ 0) (hn : n ≠ 0) :
    (if deltaTime = 0 then 0 else used / deltaTime * 100 * n) = 100 * used / wall ↔ used = 0 ∨ deltaTime = wall * n := by
  have hscale : wall * n ≠ 0 := mul_ne_zero hwall hn
  by_cases h0 : deltaTime = 0
  · rw [if_pos h0, h0, eq_comm, div_eq_zero_iff]
    simp [hwall, hscale.symm]
  · rw [if_neg h0, show used / deltaTime * 100 * n = used * 100 * n / deltaTime by ring, div_eq_div_iff h0 hwall]
    constructor
    · intro h
      have hprod : used * (deltaTime - wall * n) = 0 := by linarith
      exact (mul_eq_zero.1 hprod).imp_right sub_eq_zero.1
    · rintro (h | h)
      · simp [h]
      · rw [h]
        ring

/-- The number of CPUs cancels when it has not changed, and else only where it has no effect. -/
theorem percentAfter_eq_iff {c1 c2 : PercentCall} (h : c1.timer < c2.timer) :
    percentAfter id c1 c2 = 100 * c1.used c2 / (c2.timer - c1.timer) ↔
      c1.used c2 = 0 ∨ c1.timer = 0 ∨ c1.numCpus = c2.numCpus := by
  have hwall : c2.timer - c1.timer ≠ 0 := by linarith
  have hn2 : (c2.numCpus : ℚ) ≠ 0 := Nat.cast_ne_zero.2 c2.numCpus_pos.ne'
  have hscale : c2.timer * c2.numCpus - c1.timer * c1.numCpus = (c2.timer - c1.timer) * c2.numCpus ↔
      c1.timer = 0 ∨ c1.numCpus = c2.numCpus := by
    rw [← Nat.cast_inj (R := ℚ), ← sub_eq_zero (b := (c2.numCpus : ℚ)), ← mul_eq_zero]
    constructor <;> intro heq <;> linarith
  rw [percentAfter, ← hscale]
  exact scaled_percent_eq_iff hwall hn2

/-! ## All calls -/

/-- A call depends on the one before it, and on no other. -/
theorem outs_getElem? (round : ℚ → ℚ) {c1 c2 : PercentCall} : ∀ {i : Nat} {calls : List PercentCall} (s : PercentState),
    calls[i]? = some c1 → calls[i + 1]? = some c2 →
    ((cpuPercent round).outs s calls)[i + 1]? = some (percentAfter round c1 c2)
  | 0, [], s, h1, _ => by cases h1
  | 0, [a], s, _, h2 => by cases h2
  | 0, a :: b :: calls, s, h1, h2 => by
    obtain rfl : a = c1 := Option.some.inj h1
    obtain rfl : b = c2 := Option.some.inj h2
    have hkept : ((cpuPercent round).step s a).1 = ⟨some (a.timer * a.numCpus), some a.times⟩ := s.call_fst round a
    rw [Machine.outs_cons, Machine.outs_cons, hkept]
    rfl
  | i + 1, [], s, h1, _ => by cases h1
  | i + 1, a :: calls, s, h1, h2 => by
    rw [Machine.outs_cons]
    exact outs_getElem? round _ h1 h2

/-- Every call after the first one returns the share of the wall clock time, before rounding. -/
def PercentCorrect (calls : List PercentCall) : Prop :=
  ∀ (i : Nat) (c1 c2 : PercentCall), calls[i]? = some c1 → calls[i + 1]? = some c2 →
    ((cpuPercent id).outs .init calls)[i + 1]? = some (100 * c1.used c2 / (c2.timer - c1.timer))

/-- **The number of CPUs cancels over a sequence of calls exactly when** any two calls in a row have read the same number, or
the process has used no time between them, or the clock stood at zero. -/
theorem cpuPercent_correct_iff {calls : List PercentCall} (h : calls.Pairwise (·.timer < ·.timer)) :
    PercentCorrect calls ↔ ∀ (i : Nat) (c1 c2 : PercentCall), calls[i]? = some c1 → calls[i + 1]? = some c2 →
      c1.used c2 = 0 ∨ c1.timer = 0 ∨ c1.numCpus = c2.numCpus := by
  refine forall_congr' fun i => forall_congr' fun c1 => forall_congr' fun c2 => forall_congr' fun h1 => forall_congr' fun h2 => ?_
  have hlt : c1.timer < c2.timer := by
    obtain ⟨hi, rfl⟩ := List.getElem?_eq_some_iff.1 h1
    obtain ⟨hj, rfl⟩ := List.getElem?_eq_some_iff.1 h2
    exact List.pairwise_iff_getElem.1 h i (i + 1) hi hj (Nat.lt_succ_self i)
  rw [outs_getElem? id .init h1 h2, Option.some.injEq, percentAfter_eq_iff hlt]

/-- A process that is always busy, on a machine whose fourth CPU comes online between the calls. -/
def busyCalls : List PercentCall := [⟨1000, some 3, ⟨10, 0, 0, 0, 0⟩⟩, ⟨1001, some 4, ⟨11, 0, 0, 0, 0⟩⟩]

/-- The busy process shows less than one percent. -/
theorem cpuPercent_wrong : ¬∀ calls : List PercentCall, calls.Pairwise (·.timer < ·.timer) → PercentCorrect calls := by
  intro h
  have hcall := h busyCalls (by decide +kernel) 0 _ _ rfl rfl
  exact absurd hcall (by decide +kernel)

theorem cpuPercent_correct_steady : PercentCorrect [⟨1000, some 4, ⟨10, 0, 0, 0, 0⟩⟩, ⟨1001, some 4, ⟨11, 0, 0, 0, 0⟩⟩] := by
  refine (cpuPercent_correct_iff (by decide +kernel)).2 fun i c1 c2 h1 h2 => Or.inr (Or.inr ?_)
  cases i with
  | zero =>
    cases h1
    cases h2
    rfl
  | succ i => cases h2

end Psutil
