import Psutil.Cpu.Times
import Psutil.Lib.Dict
import Psutil.Lib.Fold

/-!
# `cpu_percent(percpu=True)` and `cpu_times_percent(percpu=True)`

| here | there |
| --- | --- |
| `perCpuScputimesIn`, `perCpuScputimes` | `cpu_times` of `__init__.py:2000`, with `percpu=True` |
| `percpuCall` | the per-CPU branch of `cpu_percent` and `cpu_times_percent` (`__init__.py:2161-2172`, `:2229-2240`), without an interval |

The lines of the two readings are paired by their place. `percpu_sameCpu_iff`: whatever the times are, a CPU is compared with
itself exactly when the online CPUs of one reading are the first ones of the other.
-/

namespace Psutil

open Lib Bytes

/-- `round(x, 1)`: a tie goes to the even digit. -/
def round1 (x : ℚ) : ℚ :=
  let n := (10 * x).floor
  let rest := 10 * x - n
  (if rest < 1 / 2 then n else if 1 / 2 < rest then n + 1 else if n % 2 = 0 then n else n + 1 : Int) / 10

example : [round1 (33333 / 1000), round1 (25 / 100), round1 (35 / 100)] = [333 / 10, 2 / 10, 4 / 10] := by decide +kernel

/-- The named tuple of ten numbers. -/
def Scputimes.ofList : List ℚ → Option Scputimes
  | [user, system, idle, nice, iowait, irq, softirq, steal, guest, guestNice] =>
    some ⟨user, system, idle, nice, iowait, irq, softirq, steal, guest, guestNice⟩
  | _ => none

/-- `cpu_times(percpu=True)`; `per_cpu_times` builds no other named tuples. -/
def perCpuScputimesIn (rnd : ℚ → ℚ) (clockTicks : Nat) (stat : Except Errno Bytes) : Except Exc (List Scputimes) :=
  (perCpuTimesIn rnd clockTicks stat).map (List.filterMap Scputimes.ofList)

/-- With exact numbers. -/
def perCpuScputimes : Nat → Except Errno Bytes → Except Exc (List Scputimes) := perCpuScputimesIn id

/-- `_last_per_cpu_times.get(tid) or cpu_times(percpu=True)`. -/
def lastTimes (clockTicks tid : Nat) (last : Dict Nat (List Scputimes)) (stat : Except Errno Bytes) : Except Exc (List Scputimes) :=
  match last.get? tid with
  | some (t :: tot) => .ok (t :: tot)
  | _ => perCpuScputimes clockTicks stat

/-- A call of the thread `tid`. `last` is `_last_per_cpu_times`, or the other one; `stat1` and `stat2` are what the file shows
when the code reads it for `tot1`, if it does, and for the new reading. -/
def percpuCall {β : Type} (calculate : Scputimes → Scputimes → β) (clockTicks tid : Nat) (last : Dict Nat (List Scputimes))
    (stat1 stat2 : Except Errno Bytes) : Except Exc (List β × Dict Nat (List Scputimes)) := do
  let tot1 ← lastTimes clockTicks tid last stat1
  let tot2 ← perCpuScputimes clockTicks stat2
  return ((tot1.zip tot2).map fun (t1, t2) => calculate t1 t2, last.set tid tot2)

/-! ## The file -/

/-- The CPUs that are online, one at least. -/
structure Online where
  cpus : List Nat
  increasing : cpus.Pairwise (· < ·)
  ne_nil : cpus ≠ []

/-- `/proc/stat` at one moment. -/
structure CpuStat where
  all : CpuTicks
  online : Online
  ticks : Nat → CpuTicks
  /-- The lines after those of the CPUs. -/
  rest : List Bytes
  rest_ok : ∀ l ∈ rest, 10 ∉ l ∧ l.startsWith (ascii "cpu") = false

/-! ## Lines of a CPU -/

theorem isWord_cpuLine (cpu : Nat) (ns : List Nat) : ∀ x ∈ (ascii "cpu" ++ decimal cpu) :: ns.map decimal, IsWord x := by
  have hlabel : (ascii "cpu").all (!isSpace ·) = true := by decide
  rw [List.forall_mem_cons]
  refine ⟨⟨by simp, fun c hc => ?_⟩, isWord_map_decimal ns⟩
  rcases List.mem_append.1 hc with h | h
  · simpa using List.all_eq_true.1 hlabel c h
  · exact isSpace_of_mem_decimal h

theorem startsWith_cpuLine (cpu : Nat) (ns : List Nat) :
    startsWith (blanks ((ascii "cpu" ++ decimal cpu) :: ns.map decimal)) (ascii "cpu") = true := by
  rw [startsWith, List.isPrefixOf_iff_prefix]
  cases ns with
  | nil => exact ⟨decimal cpu, by simp [blanks]⟩
  | cons n ns =>
    rw [List.map_cons, blanks_cons, List.append_assoc]
    exact List.prefix_append _ _

/-- The loop reads the lines of the CPUs, behind the first one. -/
theorem filter_cpuLines {first : Bytes} {lines rest : List Bytes} (hnewline : ∀ l ∈ first :: (lines ++ rest), 10 ∉ l)
    (hlines : ∀ l ∈ lines, startsWith l (ascii "cpu") = true) (hrest : ∀ l ∈ rest, startsWith l (ascii "cpu") = false) :
    (((unlines (first :: (lines ++ rest))).splitOn 10).drop 1).filter (startsWith · (ascii "cpu")) = lines := by
  have hnone : rest.filter (startsWith · (ascii "cpu")) = [] := by
    rw [List.filter_eq_nil_iff]
    intro l hl
    simp [hrest l hl]
  rw [splitOn_unlines hnewline, List.drop_one, List.cons_append, List.tail_cons, List.filter_append, List.filter_append,
    List.filter_eq_self.2 hlines, hnone, List.append_nil]
  exact List.append_nil _

namespace CpuStat

variable (s : CpuStat)

/-- The line of one CPU. -/
def line (cpu : Nat) : Bytes := blanks ((ascii "cpu" ++ decimal cpu) :: (s.ticks cpu).words)

def lines : List Bytes := (ascii "cpu  " ++ blanks s.all.words) :: (s.online.cpus.map s.line ++ s.rest)

def text : Bytes := unlines s.lines

/-- The times of one CPU. -/
def times (clockTicks cpu : Nat) : Scputimes := (s.ticks cpu).times clockTicks

/-! ## What is read -/

theorem newline_notMem : ∀ l ∈ s.lines, 10 ∉ l := by
  intro l hl
  rcases List.mem_cons.1 hl with rfl | hl
  · rw [List.mem_append, not_or]
    exact ⟨by decide, newline_notMem_blanks s.all.isWord_words⟩
  · rcases List.mem_append.1 hl with h | h
    · obtain ⟨cpu, -, rfl⟩ := List.mem_map.1 h
      exact newline_notMem_blanks (isWord_cpuLine cpu _)
    · exact (s.rest_ok l h).1

/-- The lines that the loop reads. -/
theorem filter_lines : (((s.text.splitOn 10).drop 1).filter (startsWith · (ascii "cpu"))) = s.online.cpus.map s.line := by
  refine filter_cpuLines s.newline_notMem (fun l hl => ?_) fun l hl => (s.rest_ok l hl).2
  obtain ⟨cpu, -, rfl⟩ := List.mem_map.1 hl
  exact startsWith_cpuLine cpu _

theorem cpuLine_line (clockTicks cpu : Nat) : cpuLine id clockTicks (s.line cpu) = .ok (s.times clockTicks cpu).toList := by
  have hread := mapM_seconds id clockTicks (s.ticks cpu).toList
  rw [cpuLine, line, CpuTicks.words, split_blanks (isWord_cpuLine cpu _), List.drop_one, List.tail_cons]
  rw [List.take_of_length_le (by simp [CpuTicks.toList, scputimesFields]), hread]
  rfl

/-- The CPUs are read in their order, and without their numbers. -/
theorem perCpuScputimes_text (clockTicks : Nat) :
    perCpuScputimes clockTicks (.ok s.text) = .ok (s.online.cpus.map (s.times clockTicks)) := by
  have hlines : (s.online.cpus.map s.line).mapM (cpuLine id clockTicks) =
      .ok (s.online.cpus.map fun cpu => (s.times clockTicks cpu).toList) := by
    rw [List.mapM_map]
    exact mapM_ok fun cpu _ => s.cpuLine_line clockTicks cpu
  have htuples : (s.online.cpus.map fun cpu => (s.times clockTicks cpu).toList).filterMap Scputimes.ofList =
      s.online.cpus.map (s.times clockTicks) := by
    rw [List.filterMap_map, ← List.filterMap_eq_map]
    rfl
  rw [perCpuScputimes, perCpuScputimesIn, perCpuTimesIn, s.filter_lines, hlines, Except.map, htuples]

end CpuStat

/-! ## Two calls -/

section

variable {β : Type} (calculate : Scputimes → Scputimes → β)

/-- A call that finds times of the thread compares them with what it reads, and keeps what it has read. -/
theorem percpuCall_of_last {clockTicks tid : Nat} {last : Dict Nat (List Scputimes)} {t : Scputimes} {tot1 : List Scputimes}
    (h : last.get? tid = some (t :: tot1)) (stat1 : Except Errno Bytes) (s : CpuStat) :
    percpuCall calculate clockTicks tid last stat1 (.ok s.text) =
      .ok (((t :: tot1).zip (s.online.cpus.map (s.times clockTicks))).map fun (t1, t2) => calculate t1 t2,
        last.set tid (s.online.cpus.map (s.times clockTicks))) := by
  simp only [percpuCall, lastTimes, h, s.perCpuScputimes_text]
  rfl

/-- What a call keeps for the next one. -/
theorem get?_of_percpuCall {clockTicks tid : Nat} {last last' : Dict Nat (List Scputimes)} {stat1 : Except Errno Bytes}
    {s : CpuStat} {ret : List β} (h : percpuCall calculate clockTicks tid last stat1 (.ok s.text) = .ok (ret, last')) :
    last'.get? tid = some (s.online.cpus.map (s.times clockTicks)) := by
  rw [percpuCall, s.perCpuScputimes_text] at h
  cases htot : lastTimes clockTicks tid last stat1 with
  | error e =>
    rw [htot] at h
    cases h
  | ok tot1 =>
    rw [htot] at h
    cases h
    exact Dict.get?_set_self _ _ _

/-- The second of two calls of a thread. -/
theorem percpuCall_after {clockTicks tid : Nat} {last last' : Dict Nat (List Scputimes)} {stat1 stat2 : Except Errno Bytes}
    {s1 s2 : CpuStat} {ret : List β} (h : percpuCall calculate clockTicks tid last stat1 (.ok s1.text) = .ok (ret, last')) :
    percpuCall calculate clockTicks tid last' stat2 (.ok s2.text) =
      .ok ((s1.online.cpus.zip s2.online.cpus).map fun (cpu1, cpu2) =>
        calculate (s1.times clockTicks cpu1) (s2.times clockTicks cpu2), last'.set tid (s2.online.cpus.map (s2.times clockTicks))) := by
  have hget := get?_of_percpuCall calculate h
  obtain ⟨cpu, cpus, hcpus⟩ := List.exists_cons_of_ne_nil s1.online.ne_nil
  rw [hcpus, List.map_cons] at hget
  rw [percpuCall_of_last calculate hget, ← List.map_cons, ← hcpus, List.zip_map, List.map_map]
  rfl

/-- Whatever the times are, the second of two calls returns percentages of one CPU each, the one of its place. -/
def ComparesSameCpu (online1 online2 : Online) : Prop :=
  ∀ (clockTicks tid : Nat) (last last' : Dict Nat (List Scputimes)) (stat1 stat2 : Except Errno Bytes) (s1 s2 : CpuStat)
    (ret : List β), 0 < clockTicks → s1.online = online1 → s2.online = online2 →
    percpuCall calculate clockTicks tid last stat1 (.ok s1.text) = .ok (ret, last') →
    ∃ percents last'', percpuCall calculate clockTicks tid last' stat2 (.ok s2.text) = .ok (percents, last'') ∧
      ∀ (i : Nat) (perc : β), percents[i]? = some perc → ∃ cpu, online2.cpus[i]? = some cpu ∧ cpu ∈ online1.cpus ∧
        perc = calculate (s1.times clockTicks cpu) (s2.times clockTicks cpu)

end

/-- Lists that agree wherever both have an item. -/
theorem prefix_or_prefix_iff {α : Type} : ∀ {l l' : List α},
    (l <+: l' ∨ l' <+: l) ↔ ∀ (i : Nat) (a b : α), l[i]? = some a → l'[i]? = some b → a = b
  | [], l' => by simp
  | a :: l, [] => by simp
  | a :: l, b :: l' => by
    have ih := @prefix_or_prefix_iff α l l'
    rw [List.cons_prefix_cons, List.cons_prefix_cons, eq_comm (a := b), ← and_or_left, ih]
    constructor
    · rintro ⟨rfl, h⟩ i x y hx hy
      cases i with
      | zero => exact Option.some.inj (hx.symm.trans hy)
      | succ i => exact h i x y hx hy
    · exact fun h => ⟨h 0 a b rfl rfl, fun i x y hx hy => h (i + 1) x y hx hy⟩

section

variable {β : Type} {calculate : Scputimes → Scputimes → β}

theorem comparesSameCpu_of_prefix {online1 online2 : Online}
    (h : online1.cpus <+: online2.cpus ∨ online2.cpus <+: online1.cpus) : ComparesSameCpu calculate online1 online2 := by
  rintro clockTicks tid last last' stat1 stat2 s1 s2 ret - rfl rfl hcall
  refine ⟨_, _, percpuCall_after calculate hcall, fun i perc hperc => ?_⟩
  rw [List.getElem?_map, Option.map_eq_some_iff] at hperc
  obtain ⟨⟨cpu1, cpu2⟩, hpair, rfl⟩ := hperc
  obtain ⟨h1, h2⟩ := List.getElem?_zip_eq_some.1 hpair
  obtain rfl := prefix_or_prefix_iff.1 h i cpu1 cpu2 h1 h2
  exact ⟨cpu1, h2, List.mem_of_getElem? h1, rfl⟩

/-- `calculate` tells some times of the first reading apart. -/
theorem prefix_of_comparesSameCpu {c1 c1' c2 : CpuTicks} (hne : calculate (c1.times 1) (c2.times 1) ≠ calculate (c1'.times 1) (c2.times 1))
    {online1 online2 : Online} (h : ComparesSameCpu calculate online1 online2) :
    online1.cpus <+: online2.cpus ∨ online2.cpus <+: online1.cpus := by
  rw [prefix_or_prefix_iff]
  intro i cpu1 cpu2 h1 h2
  by_contra hcpu
  -- the first reading tells `cpu2` from all others
  let s1 : CpuStat := ⟨c1, online1, fun cpu => if cpu = cpu2 then c1' else c1, [], by simp⟩
  let s2 : CpuStat := ⟨c2, online2, fun _ => c2, [], by simp⟩
  have hfirst : percpuCall calculate 1 0 (Dict.set ∅ 0 [c1.times 1]) (.error .enoent) (.ok s1.text) = .ok (_, _) :=
    percpuCall_of_last calculate (Dict.get?_set_self _ _ _) _ s1
  obtain ⟨percents, last'', hsecond, hsame⟩ := h 1 0 _ _ _ (.error .enoent) s1 s2 _ Nat.one_pos rfl rfl hfirst
  rw [percpuCall_after calculate hfirst, Except.ok.injEq, Prod.mk.injEq] at hsecond
  obtain ⟨rfl, -⟩ := hsecond
  have hpair : (s1.online.cpus.zip s2.online.cpus)[i]? = some (cpu1, cpu2) := List.getElem?_zip_eq_some.2 ⟨h1, h2⟩
  have hperc : ((s1.online.cpus.zip s2.online.cpus).map fun (cpu1, cpu2) => calculate (s1.times 1 cpu1) (s2.times 1 cpu2))[i]? =
      some (calculate (s1.times 1 cpu1) (s2.times 1 cpu2)) := by
    rw [List.getElem?_map, hpair]
    rfl
  obtain ⟨cpu, hcpu2, -, heq⟩ := hsame i _ hperc
  obtain rfl : cpu2 = cpu := Option.some.inj (h2.symm.trans hcpu2)
  simp only [CpuStat.times, s1, s2, if_neg hcpu, if_pos] at heq
  exact hne heq

end

/-- **A CPU is compared with itself exactly when the online CPUs of one reading are the first ones of the other**, in
`cpu_percent` and in `cpu_times_percent`. -/
theorem percpu_sameCpu_iff (online1 online2 : Online) :
    (ComparesSameCpu (percent round1) online1 online2 ↔ online1.cpus <+: online2.cpus ∨ online2.cpus <+: online1.cpus) ∧
    (ComparesSameCpu (timesPercent round1) online1 online2 ↔
      online1.cpus <+: online2.cpus ∨ online2.cpus <+: online1.cpus) := by
  -- half of the time is idle, or all of it
  have hpercent : percent round1 (CpuTicks.times 1 ⟨0, 0, 0, 0, 0, 0, 0, 0, 0, 0⟩) (CpuTicks.times 1 ⟨1, 0, 0, 1, 0, 0, 0, 0, 0, 0⟩) ≠
      percent round1 (CpuTicks.times 1 ⟨1, 0, 0, 0, 0, 0, 0, 0, 0, 0⟩) (CpuTicks.times 1 ⟨1, 0, 0, 1, 0, 0, 0, 0, 0, 0⟩) := by
    decide +kernel
  have htimes : timesPercent round1 (CpuTicks.times 1 ⟨0, 0, 0, 0, 0, 0, 0, 0, 0, 0⟩)
      (CpuTicks.times 1 ⟨1, 0, 0, 1, 0, 0, 0, 0, 0, 0⟩) ≠
      timesPercent round1 (CpuTicks.times 1 ⟨1, 0, 0, 0, 0, 0, 0, 0, 0, 0⟩) (CpuTicks.times 1 ⟨1, 0, 0, 1, 0, 0, 0, 0, 0, 0⟩) := by
    decide +kernel
  constructor
  · exact ⟨prefix_of_comparesSameCpu hpercent, comparesSameCpu_of_prefix⟩
  · exact ⟨prefix_of_comparesSameCpu htimes, comparesSameCpu_of_prefix⟩

/-- CPU 1 goes offline, and the times of CPU 2 are compared with those of CPU 1. -/
theorem percpu_mixes_cpus : ¬∀ online1 online2 : Online,
    ComparesSameCpu (percent round1) online1 online2 ∧ ComparesSameCpu (timesPercent round1) online1 online2 := by
  intro h
  have hsame := (h ⟨[0, 1, 2], by decide, by decide⟩ ⟨[0, 2], by decide, by decide⟩).1
  have hne : percent round1 (CpuTicks.times 1 ⟨0, 0, 0, 0, 0, 0, 0, 0, 0, 0⟩) (CpuTicks.times 1 ⟨1, 0, 0, 1, 0, 0, 0, 0, 0, 0⟩) ≠
      percent round1 (CpuTicks.times 1 ⟨1, 0, 0, 0, 0, 0, 0, 0, 0, 0⟩) (CpuTicks.times 1 ⟨1, 0, 0, 1, 0, 0, 0, 0, 0, 0⟩) := by
    decide +kernel
  exact absurd (prefix_of_comparesSameCpu hne hsame) (by decide)

end Psutil
