import Mathlib.Algebra.Order.Ring.Rat
import Mathlib.Tactic.FieldSimp
import Mathlib.Tactic.Linarith
import Mathlib.Tactic.Ring
import Psutil.Linux.Affinity
import Psutil.Linux.Text

/-!
# `cpu_percent()` and `cpu_times_percent()`

| here | there |
| --- | --- |
| `cpuTimesIn`, `cpuTimes` | `cpu_times` of `_pslinux.py:446`, with any rounding and with none |
| `cpuTotTime`, `cpuBusyTime`, `cpuTimesDeltas` | `_cpu_tot_time`, `_cpu_busy_time`, `_cpu_times_deltas` (`__init__.py:2044-2094`) |
| `percent` | `calculate` of `cpu_percent` (`:2139`) |
| `timesPercent` | `calculate` of `cpu_times_percent` (`:2203`) |

The percentages are computed with exact numbers, and `round` is the `round(x, 1)` of the code. `timesPercent_agrees_iff`: without rounding the two functions
agree exactly from a total of one second on, since the scale takes a smaller one for a second.
-/

namespace Psutil

open Bytes

/-- `scputimes`, as it is on Linux. -/
structure Scputimes where
  user : ℚ
  system : ℚ
  idle : ℚ
  nice : ℚ
  iowait : ℚ
  irq : ℚ
  softirq : ℚ
  steal : ℚ
  guest : ℚ
  guestNice : ℚ
  deriving DecidableEq

namespace Scputimes

def toList (t : Scputimes) : List ℚ :=
  [t.user, t.system, t.idle, t.nice, t.iowait, t.irq, t.softirq, t.steal, t.guest, t.guestNice]

def map (f : ℚ → ℚ) (t : Scputimes) : Scputimes :=
  ⟨f t.user, f t.system, f t.idle, f t.nice, f t.iowait, f t.irq, f t.softirq, f t.steal, f t.guest, f t.guestNice⟩

def zipWith (f : ℚ → ℚ → ℚ) (t1 t2 : Scputimes) : Scputimes :=
  ⟨f t1.user t2.user, f t1.system t2.system, f t1.idle t2.idle, f t1.nice t2.nice, f t1.iowait t2.iowait, f t1.irq t2.irq,
    f t1.softirq t2.softirq, f t1.steal t2.steal, f t1.guest t2.guest, f t1.guestNice t2.guestNice⟩

end Scputimes

/-! ## The first line of `/proc/stat` -/

/-- `lsget(lst, idx, field_name)`. -/
def lsget (lst : List ℚ) (idx : Nat) : ℚ := lst.getD idx 0

def cpuTimesIn (rnd : ℚ → ℚ) (clockTicks : Nat) (stat : Except Errno Bytes) : Except Exc Scputimes :=
  match stat with
  | .error errno => .error (.osError errno)
  | .ok data => do
    let values := split (data.takeWhile (· ≠ 10))
    let raw ← ((values.drop 1).take scputimesFields.length).mapM (seconds rnd clockTicks)
    match raw with
    | user :: nice :: system :: idle :: _ =>
      return ⟨user, system, idle, nice, lsget raw 4, lsget raw 5, lsget raw 6, lsget raw 7, lsget raw 8, lsget raw 9⟩
    | _ => .error (.valueError ("not enough values to unpack (expected 4, got " ++ toString raw.length ++ ")"))

/-- With exact numbers. -/
def cpuTimes : Nat → Except Errno Bytes → Except Exc Scputimes := cpuTimesIn id

/-- The counters of the kernel, in its order. -/
structure CpuTicks where
  user : Nat
  nice : Nat
  system : Nat
  idle : Nat
  iowait : Nat
  irq : Nat
  softirq : Nat
  steal : Nat
  guest : Nat
  guestNice : Nat

namespace CpuTicks

def toList (c : CpuTicks) : List Nat :=
  [c.user, c.nice, c.system, c.idle, c.iowait, c.irq, c.softirq, c.steal, c.guest, c.guestNice]

/-- In seconds, as floats. -/
def timesIn (rnd : ℚ → ℚ) (clockTicks : Nat) (c : CpuTicks) : Scputimes :=
  let t (n : Nat) : ℚ := rnd (rnd n / clockTicks)
  ⟨t c.user, t c.system, t c.idle, t c.nice, t c.iowait, t c.irq, t c.softirq, t c.steal, t c.guest, t c.guestNice⟩

/-- In seconds. -/
def times (clockTicks : Nat) (c : CpuTicks) : Scputimes :=
  ⟨c.user / clockTicks, c.system / clockTicks, c.idle / clockTicks, c.nice / clockTicks, c.iowait / clockTicks,
    c.irq / clockTicks, c.softirq / clockTicks, c.steal / clockTicks, c.guest / clockTicks, c.guestNice / clockTicks⟩

/-- The counters as they stand in a line. -/
def words (c : CpuTicks) : List Bytes := c.toList.map decimal

end CpuTicks

/-! ## The percentages -/

def cpuTotTime (times : Scputimes) : ℚ := times.toList.sum - times.guest - times.guestNice

def cpuBusyTime (times : Scputimes) : ℚ := cpuTotTime times - times.idle - times.iowait

def cpuTimesDeltas (t1 t2 : Scputimes) : Scputimes := Scputimes.zipWith (fun x1 x2 => max 0 (x2 - x1)) t1 t2

def percent (round : ℚ → ℚ) (t1 t2 : Scputimes) : ℚ :=
  let timesDelta := cpuTimesDeltas t1 t2
  let allDelta := cpuTotTime timesDelta
  let busyDelta := cpuBusyTime timesDelta
  -- `ZeroDivisionError`
  if allDelta = 0 then 0 else round (busyDelta / allDelta * 100)

def timesPercent (round : ℚ → ℚ) (t1 t2 : Scputimes) : Scputimes :=
  let timesDelta := cpuTimesDeltas t1 t2
  let allDelta := cpuTotTime timesDelta
  let scale := 100 / max 1 allDelta
  timesDelta.map fun fieldDelta => min (max 0 (round (fieldDelta * scale))) 100

/-- The share of `fieldDelta` in `allDelta`, as a percentage. -/
def share (allDelta fieldDelta : ℚ) : ℚ := min (max 0 (100 * fieldDelta / allDelta)) 100

namespace Scputimes

/-- All time, with that of the guests in `user` and `nice`. -/
def total (t : Scputimes) : ℚ := t.user + t.system + t.idle + t.nice + t.iowait + t.irq + t.softirq + t.steal

def busy (t : Scputimes) : ℚ := t.user + t.system + t.nice + t.irq + t.softirq + t.steal

end Scputimes

/-- What the two functions return, before rounding, is one account of the time that has passed. -/
structure Agrees (t1 t2 : Scputimes) : Prop where
  fields : timesPercent id t1 t2 = (cpuTimesDeltas t1 t2).map (share (cpuTotTime (cpuTimesDeltas t1 t2)))
  total : (timesPercent id t1 t2).total = 100
  busy : percent id t1 t2 = (timesPercent id t1 t2).busy

/-! ## The reader -/

/-- The line of a CPU, or of all of them, is read field by field. -/
theorem mapM_seconds (rnd : ℚ → ℚ) (clockTicks : Nat) : ∀ l : List Nat,
    (l.map decimal).mapM (seconds rnd clockTicks) = .ok (l.map fun n : Nat => rnd (rnd n / clockTicks))
  | [] => rfl
  | n :: l => by
    rw [List.map_cons, List.mapM_cons, mapM_seconds rnd clockTicks l, seconds, float_decimal]
    rfl

theorem CpuTicks.isWord_words (c : CpuTicks) : ∀ x ∈ c.words, IsWord x := isWord_map_decimal c.toList

/-- The words of the first line. -/
theorem split_firstLine (ns : List Nat) (rest : Bytes) :
    split ((ascii "cpu  " ++ (blanks (ns.map decimal) ++ 10 :: rest)).takeWhile (· ≠ 10)) = ascii "cpu" :: ns.map decimal := by
  have hline : ∀ x ∈ ascii "cpu  " ++ blanks (ns.map decimal), (decide (x ≠ 10)) = true := by
    intro x hx
    rw [decide_eq_true_eq]
    rintro rfl
    rcases List.mem_append.1 hx with h | h
    · exact absurd h (by decide)
    · exact newline_notMem_blanks (isWord_map_decimal ns) h
  have htake : (ascii "cpu  " ++ (blanks (ns.map decimal) ++ 10 :: rest)).takeWhile (· ≠ 10) = ascii "cpu  " ++ blanks (ns.map decimal) := by
    rw [← List.append_assoc, List.takeWhile_append_of_pos hline]
    simp
  rw [htake, show ascii "cpu  " ++ blanks (ns.map decimal) = ascii "cpu" ++ 32 :: 32 :: blanks (ns.map decimal) from rfl,
    split_append (by decide), split_space (by decide), split_blanks (isWord_map_decimal ns)]
  rfl

/-- `cpu_times()` returns the counters of the first line. -/
theorem cpuTimes_line (clockTicks : Nat) (c : CpuTicks) (rest : Bytes) :
    cpuTimes clockTicks (.ok (ascii "cpu  " ++ (blanks c.words ++ 10 :: rest))) = .ok (c.times clockTicks) := by
  have hread := mapM_seconds id clockTicks c.toList
  simp only [cpuTimes, cpuTimesIn, CpuTicks.words, split_firstLine, List.drop_one, List.tail_cons]
  rw [List.take_of_length_le (by simp [CpuTicks.toList, scputimesFields]), hread]
  rfl

/-! ## One account -/

theorem cpuTotTime_eq (t : Scputimes) : cpuTotTime t = t.total := by
  simp only [cpuTotTime, Scputimes.toList, Scputimes.total, List.sum_cons, List.sum_nil]
  ring

theorem cpuBusyTime_eq (t : Scputimes) : cpuBusyTime t = t.busy := by
  rw [cpuBusyTime, cpuTotTime_eq, Scputimes.total, Scputimes.busy]
  ring

/-- Times that have not gone down. -/
structure Scputimes.Nonneg (t : Scputimes) : Prop where
  user : 0 ≤ t.user
  system : 0 ≤ t.system
  idle : 0 ≤ t.idle
  nice : 0 ≤ t.nice
  iowait : 0 ≤ t.iowait
  irq : 0 ≤ t.irq
  softirq : 0 ≤ t.softirq
  steal : 0 ≤ t.steal

theorem nonneg_deltas (t1 t2 : Scputimes) : (cpuTimesDeltas t1 t2).Nonneg := by
  constructor <;> exact le_max_left _ _

/-- A part of the total needs no cap. -/
theorem share_eq {allDelta x : ℚ} (hpos : 0 < allDelta) (h0 : 0 ≤ x) (hle : x ≤ allDelta) : share allDelta x = 100 * x / allDelta := by
  have hnonneg : 0 ≤ 100 * x / allDelta := div_nonneg (by linarith) hpos.le
  have hcap : 100 * x / allDelta ≤ 100 := by
    rw [div_le_iff₀ hpos]
    linarith
  rw [share, max_eq_right hnonneg, min_eq_left hcap]

theorem total_map_share {d : Scputimes} (hd : d.Nonneg) (hpos : 0 < d.total) :
    (d.map (share d.total)).total = 100 ∧ (d.map (share d.total)).busy = 100 * d.busy / d.total := by
  obtain ⟨h1, h2, h3, h4, h5, h6, h7, h8⟩ := hd
  have hshare : ∀ x, 0 ≤ x → x ≤ d.total → share d.total x = 100 * x / d.total := fun x => share_eq hpos
  have hsum : d.total = d.user + d.system + d.idle + d.nice + d.iowait + d.irq + d.softirq + d.steal := rfl
  have hne : d.total ≠ 0 := hpos.ne'
  have e1 := hshare d.user h1 (by linarith)
  have e2 := hshare d.system h2 (by linarith)
  have e3 := hshare d.idle h3 (by linarith)
  have e4 := hshare d.nice h4 (by linarith)
  have e5 := hshare d.iowait h5 (by linarith)
  have e6 := hshare d.irq h6 (by linarith)
  have e7 := hshare d.softirq h7 (by linarith)
  have e8 := hshare d.steal h8 (by linarith)
  constructor
  · calc (d.map (share d.total)).total
        = 100 * (d.user + d.system + d.idle + d.nice + d.iowait + d.irq + d.softirq + d.steal) / d.total := by
          simp only [Scputimes.map, Scputimes.total] at e1 e2 e3 e4 e5 e6 e7 e8 ⊢
          rw [e1, e2, e3, e4, e5, e6, e7, e8]
          ring
      _ = 100 := by
          rw [← hsum]
          field_simp
  · simp only [Scputimes.map, Scputimes.busy, e1, e2, e4, e6, e7, e8]
    ring

/-- From one second on the scale is that of the total. -/
theorem timesPercent_eq_share {t1 t2 : Scputimes} (h : 1 ≤ cpuTotTime (cpuTimesDeltas t1 t2)) :
    timesPercent id t1 t2 = (cpuTimesDeltas t1 t2).map (share (cpuTotTime (cpuTimesDeltas t1 t2))) := by
  have hscale : ∀ x, min (max 0 (id (x * (100 / max 1 (cpuTotTime (cpuTimesDeltas t1 t2)))))) 100 =
      share (cpuTotTime (cpuTimesDeltas t1 t2)) x := by
    intro x
    rw [max_eq_right h, id, share]
    congr 2
    ring
  simp only [timesPercent, hscale]

theorem total_map_le {d : Scputimes} (hd : d.Nonneg) {f : ℚ → ℚ} (hf : ∀ x, 0 ≤ x → f x ≤ 100 * x) :
    (d.map f).total ≤ 100 * d.total := by
  obtain ⟨h1, h2, h3, h4, h5, h6, h7, h8⟩ := hd
  simp only [Scputimes.map, Scputimes.total]
  linarith [hf _ h1, hf _ h2, hf _ h3, hf _ h4, hf _ h5, hf _ h6, hf _ h7, hf _ h8]

/-- Below it, the scale is that of a second. -/
theorem total_timesPercent_le {t1 t2 : Scputimes} (h : cpuTotTime (cpuTimesDeltas t1 t2) < 1) :
    (timesPercent id t1 t2).total ≤ 100 * cpuTotTime (cpuTimesDeltas t1 t2) := by
  have hfield : ∀ x : ℚ, 0 ≤ x → min (max 0 (id (x * (100 / 1)))) 100 ≤ 100 * x := by
    intro x hx
    rw [id, max_eq_right (by linarith), div_one, mul_comm]
    exact min_le_left _ _
  have hle := total_map_le (nonneg_deltas t1 t2) hfield
  rw [← cpuTotTime_eq (cpuTimesDeltas t1 t2)] at hle
  simpa only [timesPercent, max_eq_left h.le] using hle

/-- **The two functions agree exactly from a total of one second on.** -/
theorem timesPercent_agrees_iff {t1 t2 : Scputimes} (hpos : 0 < cpuTotTime (cpuTimesDeltas t1 t2)) :
    Agrees t1 t2 ↔ 1 ≤ cpuTotTime (cpuTimesDeltas t1 t2) := by
  constructor
  · intro hagrees
    by_contra hlt
    have hle := total_timesPercent_le (not_le.1 hlt)
    rw [hagrees.total] at hle
    linarith
  · intro hone
    have hfields := timesPercent_eq_share hone
    have hshares := @total_map_share (cpuTimesDeltas t1 t2) (nonneg_deltas t1 t2) (by rwa [← cpuTotTime_eq])
    rw [← cpuTotTime_eq (cpuTimesDeltas t1 t2)] at hshares
    refine ⟨hfields, ?_, ?_⟩
    · rw [hfields]
      exact hshares.1
    · rw [hfields, hshares.2, percent, if_neg hpos.ne', cpuBusyTime_eq, id]
      ring

/-- Ten milliseconds of user time are one percent for `cpu_times_percent`, and all of the time for `cpu_percent`. -/
theorem timesPercent_short : ¬∀ (clockTicks : Nat), 0 < clockTicks → ∀ c1 c2 : CpuTicks,
    0 < cpuTotTime (cpuTimesDeltas (c1.times clockTicks) (c2.times clockTicks)) →
    Agrees (c1.times clockTicks) (c2.times clockTicks) := by
  intro h
  have hpos : (0 : ℚ) < cpuTotTime (cpuTimesDeltas (CpuTicks.times 100 ⟨0, 0, 0, 0, 0, 0, 0, 0, 0, 0⟩)
      (CpuTicks.times 100 ⟨1, 0, 0, 0, 0, 0, 0, 0, 0, 0⟩)) := by decide +kernel
  have htotal := (h 100 (by decide) _ _ hpos).total
  exact absurd htotal (by decide +kernel)

theorem timesPercent_agrees_hour : Agrees (CpuTicks.times 100 ⟨0, 0, 0, 0, 0, 0, 0, 0, 0, 0⟩)
    (CpuTicks.times 100 ⟨90000, 0, 0, 270000, 0, 0, 0, 0, 0, 0⟩) :=
  (timesPercent_agrees_iff (by decide +kernel)).2 (by decide +kernel)

end Psutil
