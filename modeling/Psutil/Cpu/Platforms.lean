import Mathlib.Algebra.Order.BigOperators.Group.List
import Mathlib.Algebra.Order.Field.Basic
import Psutil.Cpu.Times

/-!
# `cpu_percent()` on every platform (`__init__.py:2044-2150`)

| here | there |
| --- | --- |
| `CpuPlatform.fields` | `scputimes._fields` (`_ntuples.py:135`) |
| `cpuTotTime`, `cpuBusyTime`, `cpuTimesDeltas`, `calculate` | the functions of the same names |

`calculate_linux`: on Linux this is `percent`, of `Times`. `calculate_value`: a value from 0 to 100 on every platform, whatever
the counters do. The fields of the guests are not part of the total, so that they alone make no percentage.
-/

namespace Psutil

inductive CpuPlatform where
  | linux | macos | bsd | sunos | aix | windows
  deriving DecidableEq

/-- The fields of `scputimes` on one platform or another. -/
inductive CpuField where
  | user | system | idle | nice | iowait | irq | softirq | steal | guest | guestNice | dpc
  deriving DecidableEq

/-- The attributes of a named tuple; those that the platform has not are never read. -/
abbrev CpuTuple := CpuField → ℚ

namespace CpuPlatform

open CpuField

def fields : CpuPlatform → List CpuField
  | linux => [user, system, idle, nice, iowait, irq, softirq, steal, guest, guestNice]
  | macos => [user, system, idle, nice]
  | bsd => [user, system, idle, nice, irq]
  | sunos => [user, system, idle, iowait]
  | aix => [user, system, idle, iowait]
  | windows => [user, system, idle, irq, dpc]

variable (p : CpuPlatform)

def cpuTotTime (times : CpuTuple) : ℚ :=
  let tot := (p.fields.map times).sum
  if p = linux then tot - times guest - times guestNice else tot

/-- `getattr(times, field, 0)`. -/
def getattr (times : CpuTuple) (field : CpuField) : ℚ := if field ∈ p.fields then times field else 0

def cpuBusyTime (times : CpuTuple) : ℚ := p.cpuTotTime times - times idle - p.getattr times iowait

def cpuTimesDeltas (t1 t2 : CpuTuple) : CpuTuple := fun field => max 0 (t2 field - t1 field)

/-- `a / b`; `none` is a `ZeroDivisionError`. -/
def divide (a b : ℚ) : Option ℚ := if b = 0 then none else some (a / b)

def calculate (round : ℚ → ℚ) (t1 t2 : CpuTuple) : ℚ :=
  let timesDelta := cpuTimesDeltas t1 t2
  let allDelta := p.cpuTotTime timesDelta
  let busyDelta := p.cpuBusyTime timesDelta
  match divide busyDelta allDelta with
  | none => 0
  | some q => round (q * 100)

/-! ## What is to be returned -/

/-- The fields that are part of the total. -/
def counted : List CpuField := p.fields.filter fun f => f ≠ guest && f ≠ guestNice

def isIdle (f : CpuField) : Bool := f = idle || f = iowait

/-- The time of these fields. -/
def timeOf (times : CpuTuple) (fields : List CpuField) : ℚ := (fields.map times).sum

/-- The share of the time that was not idle. -/
def busyPercent (t1 t2 : CpuTuple) : ℚ :=
  100 * (1 - (cpuTimesDeltas t1 t2 idle + p.getattr (cpuTimesDeltas t1 t2) iowait) / timeOf (cpuTimesDeltas t1 t2) p.counted)

/-! ## The sums -/

theorem cpuTotTime_eq (times : CpuTuple) : p.cpuTotTime times = timeOf times p.counted := by
  cases p <;> simp [cpuTotTime, timeOf, counted, fields]
  ring

theorem idle_eq (times : CpuTuple) : times idle + p.getattr times iowait = timeOf times (p.counted.filter isIdle) := by
  cases p <;> simp [getattr, timeOf, counted, fields, isIdle]

theorem deltas_nonneg (t1 t2 : CpuTuple) (f : CpuField) : 0 ≤ cpuTimesDeltas t1 t2 f := le_max_left _ _

theorem timeOf_deltas_nonneg (t1 t2 : CpuTuple) (fields : List CpuField) : 0 ≤ timeOf (cpuTimesDeltas t1 t2) fields :=
  List.sum_nonneg fun x hx => by
    obtain ⟨f, -, rfl⟩ := List.mem_map.1 hx
    exact deltas_nonneg t1 t2 f

/-- A part of the fields takes no more than all of them. -/
theorem timeOf_sublist_le (t1 t2 : CpuTuple) {part fields : List CpuField} (h : part.Sublist fields) :
    timeOf (cpuTimesDeltas t1 t2) part ≤ timeOf (cpuTimesDeltas t1 t2) fields :=
  (h.map _).sum_le_sum fun x hx => by
    obtain ⟨f, -, rfl⟩ := List.mem_map.1 hx
    exact deltas_nonneg t1 t2 f

theorem cpuBusyTime_eq (times : CpuTuple) : p.cpuBusyTime times = timeOf times p.counted - timeOf times (p.counted.filter isIdle) := by
  rw [cpuBusyTime, cpuTotTime_eq, ← idle_eq]
  ring

/-! ## The value -/

/-- No counter of the total has increased, and the total is nothing. -/
theorem total_eq_zero {t1 t2 : CpuTuple} (h : ∀ f ∈ p.counted, t2 f ≤ t1 f) : timeOf (cpuTimesDeltas t1 t2) p.counted = 0 := by
  refine List.sum_eq_zero fun x hx => ?_
  obtain ⟨f, hf, rfl⟩ := List.mem_map.1 hx
  exact max_eq_left (by linarith [h f hf])

theorem total_pos {t1 t2 : CpuTuple} (h : ∃ f ∈ p.counted, t1 f < t2 f) : 0 < timeOf (cpuTimesDeltas t1 t2) p.counted := by
  obtain ⟨f, hf, hlt⟩ := h
  have hone : timeOf (cpuTimesDeltas t1 t2) [f] ≤ timeOf (cpuTimesDeltas t1 t2) p.counted :=
    timeOf_sublist_le t1 t2 (List.singleton_sublist.2 hf)
  have hdelta : timeOf (cpuTimesDeltas t1 t2) [f] = t2 f - t1 f := by
    rw [timeOf, List.map_singleton, List.sum_singleton]
    exact max_eq_right (by linarith)
  linarith

theorem calculate_of_zero {t1 t2 : CpuTuple} (h : timeOf (cpuTimesDeltas t1 t2) p.counted = 0) (round : ℚ → ℚ) :
    p.calculate round t1 t2 = 0 := by
  simp only [calculate, cpuTotTime_eq, h, divide, if_true]

theorem calculate_of_pos {t1 t2 : CpuTuple} (h : 0 < timeOf (cpuTimesDeltas t1 t2) p.counted) :
    p.calculate id t1 t2 = p.busyPercent t1 t2 := by
  rw [busyPercent, idle_eq]
  simp only [calculate, cpuTotTime_eq, cpuBusyTime_eq, divide, if_neg h.ne', id]
  field_simp

theorem busyPercent_bounds {t1 t2 : CpuTuple} (h : 0 < timeOf (cpuTimesDeltas t1 t2) p.counted) :
    0 ≤ p.busyPercent t1 t2 ∧ p.busyPercent t1 t2 ≤ 100 := by
  have hidle := timeOf_deltas_nonneg t1 t2 (p.counted.filter isIdle)
  have hle := timeOf_sublist_le t1 t2 (List.filter_sublist (p := isIdle) (l := p.counted))
  have hshare : 0 ≤ timeOf (cpuTimesDeltas t1 t2) (p.counted.filter isIdle) / timeOf (cpuTimesDeltas t1 t2) p.counted ∧
      timeOf (cpuTimesDeltas t1 t2) (p.counted.filter isIdle) / timeOf (cpuTimesDeltas t1 t2) p.counted ≤ 1 :=
    ⟨div_nonneg hidle h.le, (div_le_one h).2 hle⟩
  rw [busyPercent, idle_eq]
  constructor <;> linarith [hshare.1, hshare.2]

/-- **A value from 0 to 100**: 0 if no counter of the total has increased, and else the share of the time that was not idle. -/
theorem calculate_value (t1 t2 : CpuTuple) :
    (0 ≤ p.calculate id t1 t2 ∧ p.calculate id t1 t2 ≤ 100) ∧
    ((∀ f ∈ p.counted, t2 f ≤ t1 f) → p.calculate id t1 t2 = 0) ∧
    ((∃ f ∈ p.counted, t1 f < t2 f) →
      0 < timeOf (cpuTimesDeltas t1 t2) p.counted ∧ p.calculate id t1 t2 = p.busyPercent t1 t2) := by
  refine ⟨?_, fun h => p.calculate_of_zero (p.total_eq_zero h) id, fun h => ⟨p.total_pos h, p.calculate_of_pos (p.total_pos h)⟩⟩
  rcases (timeOf_deltas_nonneg t1 t2 p.counted).eq_or_lt with hzero | hpos
  · rw [p.calculate_of_zero hzero.symm]
    norm_num
  · rw [p.calculate_of_pos hpos]
    exact p.busyPercent_bounds hpos

end CpuPlatform

/-! ## On Linux -/

/-- The named tuple of Linux. -/
def Scputimes.attr (t : Scputimes) : CpuTuple
  | .user => t.user
  | .system => t.system
  | .idle => t.idle
  | .nice => t.nice
  | .iowait => t.iowait
  | .irq => t.irq
  | .softirq => t.softirq
  | .steal => t.steal
  | .guest => t.guest
  | .guestNice => t.guestNice
  | .dpc => 0

theorem attr_deltas (t1 t2 : Scputimes) : CpuPlatform.cpuTimesDeltas t1.attr t2.attr = (cpuTimesDeltas t1 t2).attr := by
  funext f
  cases f <;> simp [CpuPlatform.cpuTimesDeltas, Scputimes.attr, cpuTimesDeltas, Scputimes.zipWith]

theorem cpuTotTime_attr (t : Scputimes) : CpuPlatform.linux.cpuTotTime t.attr = cpuTotTime t := rfl

/-- The function of `cpu_percent()` on Linux. -/
theorem calculate_linux (round : ℚ → ℚ) (t1 t2 : Scputimes) : CpuPlatform.linux.calculate round t1.attr t2.attr = percent round t1 t2 := by
  have hbusy : ∀ t : Scputimes, CpuPlatform.linux.cpuBusyTime t.attr = cpuBusyTime t := fun _ => rfl
  simp only [CpuPlatform.calculate, attr_deltas, cpuTotTime_attr, hbusy, percent, CpuPlatform.divide]
  split_ifs <;> rfl

/-- The counter of the guests alone has increased: there is no total to divide by, and the value is 0. -/
theorem calculate_guest : ¬∀ (p : CpuPlatform) (t1 t2 : CpuTuple), (∀ f, 0 ≤ t1 f ∧ 0 ≤ t2 f) →
    (0 ≤ p.calculate id t1 t2 ∧ p.calculate id t1 t2 ≤ 100) ∧
    ((∀ f ∈ p.fields, t2 f ≤ t1 f) → p.calculate id t1 t2 = 0) ∧
    ((∃ f ∈ p.fields, t1 f < t2 f) →
      0 < CpuPlatform.timeOf (CpuPlatform.cpuTimesDeltas t1 t2) p.counted ∧ p.calculate id t1 t2 = p.busyPercent t1 t2) := by
  intro h
  have hnonneg : ∀ f : CpuField, (0 : ℚ) ≤ 0 ∧ (0 : ℚ) ≤ if f = .guest then 1 else 0 := by
    intro f
    split_ifs <;> norm_num
  obtain ⟨-, -, hother⟩ := h .linux (fun _ => 0) (fun f => if f = .guest then 1 else 0) hnonneg
  have hvalue := hother ⟨.guest, by decide, by norm_num⟩
  exact absurd hvalue.1 (by decide +kernel)

end Psutil
