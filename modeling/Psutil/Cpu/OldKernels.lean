import Psutil.Cpu.PerCpu
import Psutil.Lib.Double

/-!
# `/proc/stat` of kernels with fewer counters (`_pslinux.py:446-493`)

`cpuTimesIn`, of `Times`, and `perCpuScputimesIn`, of `PerCpu`, in double precision, on lines of `k` numbers. The first one sets a
counter that is not there to 0, the second one passes on what there is and lets the named tuple complain. `readers_agree`: with
all ten counters, or without a line of a CPU, both read the same columns, and the times of all CPUs are the sums of those of the
CPUs up to rounding; `acceptSame_fails`: the sums are not exact, and fewer counters are too few for the named tuple.
-/

namespace Psutil

open Lib Bytes

/-- `/proc/stat`, with `k` numbers in the lines of the CPUs. -/
structure StatColumns (k : Nat) where
  all : List Nat
  /-- The CPUs, each with its numbers. -/
  cpus : List (Nat × List Nat)
  rest : List Bytes
  all_length : all.length = k
  cpus_length : ∀ c ∈ cpus, c.2.length = k
  rest_ok : ∀ l ∈ rest, 10 ∉ l ∧ l.startsWith (ascii "cpu") = false

/-- The counters of a line, in the order of the kernel; one that it has not is 0. -/
def columnTicks (ns : List Nat) : CpuTicks :=
  ⟨ns.getD 0 0, ns.getD 1 0, ns.getD 2 0, ns.getD 3 0, ns.getD 4 0, ns.getD 5 0, ns.getD 6 0, ns.getD 7 0, ns.getD 8 0, ns.getD 9 0⟩

namespace StatColumns

variable {k : Nat} (s : StatColumns k)

def line (c : Nat × List Nat) : Bytes := blanks ((ascii "cpu" ++ decimal c.1) :: c.2.map decimal)

def lines : List Bytes := (ascii "cpu  " ++ blanks (s.all.map decimal)) :: (s.cpus.map line ++ s.rest)

def text : Bytes := unlines s.lines

/-- The line of all CPUs is the sum of theirs. -/
def Summed : Prop := ∀ j, s.all.getD j 0 = (s.cpus.map fun c => c.2.getD j 0).sum

/-- The times of all CPUs, and those of each of them. -/
def allTimes (clockTicks : Nat) : Scputimes := (columnTicks s.all).timesIn double clockTicks

def cpusTimes (clockTicks : Nat) : List Scputimes := s.cpus.map fun c => (columnTicks c.2).timesIn double clockTicks

/-- Both functions succeed, take the same column for a counter, and agree on the sum. -/
structure AcceptSame (clockTicks : Nat) (add : ℚ → ℚ → ℚ) : Prop where
  all : cpuTimesIn double clockTicks (.ok s.text) = .ok (s.allTimes clockTicks)
  cpus : perCpuScputimesIn double clockTicks (.ok s.text) = .ok (s.cpusTimes clockTicks)
  sum : s.Summed → s.allTimes clockTicks = (s.cpusTimes clockTicks).foldr (Scputimes.zipWith add) ⟨0, 0, 0, 0, 0, 0, 0, 0, 0, 0⟩

/-- Field by field, the sum up to rounding. -/
def SumsUp (t : Scputimes) (ts : List Scputimes) : Prop :=
  ∀ j, |t.toList.getD j 0 - (ts.map fun t => t.toList.getD j 0).sum| ≤ (ts.map fun t => t.toList.getD j 0).sum / 2 ^ 49

/-- What the two functions do. -/
structure ReadersAgree (clockTicks : Nat) : Prop where
  all : cpuTimesIn double clockTicks (.ok s.text) = .ok (s.allTimes clockTicks)
  cpus : 10 ≤ k ∨ s.cpus = [] → perCpuScputimesIn double clockTicks (.ok s.text) = .ok (s.cpusTimes clockTicks)
  sum : s.Summed → SumsUp (s.allTimes clockTicks) (s.cpusTimes clockTicks)

/-! ## One line -/

theorem lsget_ticks (clockTicks : Nat) (ns : List Nat) {j : Nat} (hj : j < 10) :
    lsget ((ns.take 10).map fun n : Nat => double (double n / clockTicks)) j = double (double (ns.getD j 0 : Nat) / clockTicks) := by
  rw [lsget, List.getD_eq_getElem?_getD, List.getElem?_map, List.getElem?_take, if_pos hj, List.getD_eq_getElem?_getD]
  cases ns[j]? <;> simp [double_zero]

theorem exists_four {ns : List Nat} (h : 4 ≤ ns.length) : ∃ a b c d rest, ns = a :: b :: c :: d :: rest := by
  rcases ns with _ | ⟨a, _ | ⟨b, _ | ⟨c, _ | ⟨d, rest⟩⟩⟩⟩
  any_goals simp at h
  exact ⟨a, b, c, d, rest, rfl⟩

/-- The numbers that are read. -/
theorem mapM_take_ticks (clockTicks : Nat) (ns : List Nat) :
    ((ns.map decimal).take scputimesFields.length).mapM (seconds double clockTicks) =
      .ok ((ns.take 10).map fun n : Nat => double (double n / clockTicks)) := by
  rw [← List.map_take, mapM_seconds]
  rfl

theorem text_eq : s.text = ascii "cpu  " ++ (blanks (s.all.map decimal) ++ 10 :: unlines (s.cpus.map line ++ s.rest)) := by
  simp [text, lines, unlines]

theorem cpuTimes_text (clockTicks : Nat) (hk : 4 ≤ k) :
    cpuTimesIn double clockTicks (.ok s.text) = .ok (s.allTimes clockTicks) := by
  have hread := mapM_take_ticks clockTicks s.all
  have hget := fun j (hj : j < 10) => lsget_ticks clockTicks s.all hj
  obtain ⟨a, b, c, d, rest, hall⟩ := exists_four (s.all_length ▸ hk)
  simp only [cpuTimesIn, text_eq, split_firstLine, List.drop_one, List.tail_cons]
  rw [hread]
  simp only [allTimes, columnTicks, CpuTicks.timesIn, ← hget 4 (by decide), ← hget 5 (by decide), ← hget 6 (by decide), ← hget 7 (by decide),
    ← hget 8 (by decide), ← hget 9 (by decide)]
  rw [hall]
  rfl

/-- A line with all counters is read, and any other is not. -/
theorem cpuLine_full (clockTicks cpu : Nat) {ns : List Nat} (hns : 10 ≤ ns.length) :
    cpuLine double clockTicks (line (cpu, ns)) = .ok ((columnTicks ns).timesIn double clockTicks).toList := by
  rw [cpuLine, line, split_blanks (isWord_cpuLine cpu ns), List.drop_one, List.tail_cons, mapM_take_ticks]
  rcases ns with _ | ⟨a, _ | ⟨b, _ | ⟨c, _ | ⟨d, _ | ⟨e, _ | ⟨f, _ | ⟨g, _ | ⟨i, _ | ⟨j, _ | ⟨l, rest⟩⟩⟩⟩⟩⟩⟩⟩⟩⟩
  any_goals simp at hns
  rfl

theorem cpuLine_short (clockTicks cpu : Nat) {ns : List Nat} (hns : ns.length < 10) :
    ∃ e, cpuLine double clockTicks (line (cpu, ns)) = .error e := by
  rw [cpuLine, line, split_blanks (isWord_cpuLine cpu ns), List.drop_one, List.tail_cons, mapM_take_ticks, List.take_of_length_le hns.le]
  rcases ns with _ | ⟨a, _ | ⟨b, _ | ⟨c, _ | ⟨d, rest⟩⟩⟩⟩
  any_goals exact ⟨_, rfl⟩
  have hlen : ((a :: b :: c :: d :: rest).map fun n : Nat => double (double n / clockTicks)).length < scputimesFields.length := by
    simpa [scputimesFields] using hns
  exact ⟨_, if_pos hlen⟩

/-! ## The file -/

theorem newline_notMem : ∀ l ∈ s.lines, 10 ∉ l := by
  rw [lines, List.forall_mem_cons, List.mem_append, not_or]
  refine ⟨⟨by decide, newline_notMem_blanks (isWord_map_decimal s.all)⟩, fun l hl => ?_⟩
  rcases List.mem_append.1 hl with h | h
  · obtain ⟨c, -, rfl⟩ := List.mem_map.1 h
    exact newline_notMem_blanks (isWord_cpuLine c.1 c.2)
  · exact (s.rest_ok l h).1

theorem perCpuTimes_text (clockTicks : Nat) :
    perCpuTimesIn double clockTicks (.ok s.text) = (s.cpus.map line).mapM (cpuLine double clockTicks) := by
  have hlines : ∀ l ∈ s.cpus.map line, startsWith l (ascii "cpu") = true := by
    intro l hl
    obtain ⟨c, -, rfl⟩ := List.mem_map.1 hl
    exact startsWith_cpuLine c.1 c.2
  rw [perCpuTimesIn, text, lines, filter_cpuLines s.newline_notMem hlines fun l hl => (s.rest_ok l hl).2]

theorem perCpuScputimes_full (clockTicks : Nat) (h : 10 ≤ k ∨ s.cpus = []) :
    perCpuScputimesIn double clockTicks (.ok s.text) = .ok (s.cpusTimes clockTicks) := by
  have hread : (s.cpus.map line).mapM (cpuLine double clockTicks) =
      .ok (s.cpus.map fun c => ((columnTicks c.2).timesIn double clockTicks).toList) := by
    rw [List.mapM_map]
    refine mapM_ok fun c hc => ?_
    rcases h with hk | hnil
    · exact cpuLine_full clockTicks c.1 (s.cpus_length c hc ▸ hk)
    · rw [hnil] at hc
      cases hc
  have htuples : (s.cpus.map fun c => ((columnTicks c.2).timesIn double clockTicks).toList).filterMap Scputimes.ofList =
      s.cpusTimes clockTicks := by
    rw [List.filterMap_map, cpusTimes, ← List.filterMap_eq_map]
    rfl
  rw [perCpuScputimesIn, s.perCpuTimes_text, hread, Except.map, htuples]

/-- One CPU with a short line is enough. -/
theorem perCpuScputimes_short (clockTicks : Nat) (hk : k < 10) (hne : s.cpus ≠ []) :
    ∃ e, perCpuScputimesIn double clockTicks (.ok s.text) = .error e := by
  obtain ⟨c, cpus, hcpus⟩ := List.exists_cons_of_ne_nil hne
  obtain ⟨e, he⟩ := cpuLine_short clockTicks c.1 (s.cpus_length c (hcpus ▸ List.mem_cons_self) ▸ hk)
  refine ⟨e, ?_⟩
  rw [perCpuScputimesIn, s.perCpuTimes_text, hcpus, List.map_cons, List.mapM_cons, he]
  rfl

/-! ## The sums -/

/-- The sum of floats that are rounded one by one. -/
theorem abs_sum_sub_le (clockTicks : Nat) : ∀ ns : List Nat, |(ns.map fun n : Nat => double (double n / clockTicks)).sum -
    (ns.sum : Nat) / clockTicks| ≤ ((ns.sum : Nat) / clockTicks : ℚ) / 2 ^ 51
  | [] => by simp
  | n :: ns => by
    have ih := abs_le.1 (abs_sum_sub_le clockTicks ns)
    have hn := abs_double_div_sub_le (n : ℚ) clockTicks
    rw [abs_of_nonneg (by positivity : (0 : ℚ) ≤ n / clockTicks)] at hn
    have hn := abs_le.1 hn
    rw [List.map_cons, List.sum_cons, List.sum_cons, Nat.cast_add, add_div, abs_le]
    constructor <;> linarith [ih.1, ih.2, hn.1, hn.2]

theorem column_sumsUp (clockTicks : Nat) (ns : List Nat) : |double (double (ns.sum : Nat) / clockTicks) -
    (ns.map fun n : Nat => double (double n / clockTicks)).sum| ≤ (ns.map fun n : Nat => double (double n / clockTicks)).sum / 2 ^ 49 := by
  have hsum := abs_le.1 (abs_sum_sub_le clockTicks ns)
  have hall := abs_double_div_sub_le ((ns.sum : Nat) : ℚ) clockTicks
  have hpos : (0 : ℚ) ≤ (ns.sum : Nat) / clockTicks := by positivity
  rw [abs_of_nonneg hpos] at hall
  have hall := abs_le.1 hall
  rw [abs_le]
  constructor <;> linarith [hsum.1, hsum.2, hall.1, hall.2]

/-- The columns, in the order of the fields. -/
def fieldColumns : List Nat := [0, 2, 3, 1, 4, 5, 6, 7, 8, 9]

theorem toList_times (clockTicks : Nat) (ns : List Nat) (j : Nat) : ((columnTicks ns).timesIn double clockTicks).toList.getD j 0 =
    match fieldColumns[j]? with
    | some column => double (double (ns.getD column 0 : Nat) / clockTicks)
    | none => 0 := by
  have hlist : ((columnTicks ns).timesIn double clockTicks).toList =
      fieldColumns.map fun column => double (double (ns.getD column 0 : Nat) / clockTicks) := rfl
  rw [hlist, List.getD_eq_getElem?_getD, List.getElem?_map]
  cases fieldColumns[j]? <;> rfl

theorem sumsUp_of_summed (clockTicks : Nat) (h : s.Summed) : SumsUp (s.allTimes clockTicks) (s.cpusTimes clockTicks) := by
  intro j
  simp only [allTimes, cpusTimes, List.map_map, Function.comp_def, toList_times]
  cases fieldColumns[j]? with
  | none => simp
  | some column =>
    have hcolumn := column_sumsUp clockTicks (s.cpus.map fun c => c.2.getD column 0)
    rw [← h column, List.map_map] at hcolumn
    exact hcolumn

/-- **The two functions read the same columns**, of any number that both accept, and the sums are those of the CPUs but for the
rounding of their floats. -/
theorem readers_agree (clockTicks : Nat) (hk : 4 ≤ k) : s.ReadersAgree clockTicks where
  all := s.cpuTimes_text clockTicks hk
  cpus := s.perCpuScputimes_full clockTicks
  sum := s.sumsUp_of_summed clockTicks

end StatColumns

/-- Linux 2.6.11: eight counters, and one CPU. -/
def eightColumns : StatColumns 8 where
  all := [7, 1, 3, 90, 2, 0, 1, 0]
  cpus := [(0, [7, 1, 3, 90, 2, 0, 1, 0])]
  rest := [ascii "intr 12"]
  all_length := rfl
  cpus_length := by decide
  rest_ok := by decide

/-- Linux 2.6.33: ten counters. -/
def tenColumns : StatColumns 10 where
  all := [30, 0, 0, 0, 0, 0, 0, 0, 0, 0]
  cpus := [(0, [10, 0, 0, 0, 0, 0, 0, 0, 0, 0]), (1, [20, 0, 0, 0, 0, 0, 0, 0, 0, 0])]
  rest := [ascii "intr 12"]
  all_length := rfl
  cpus_length := by decide
  rest_ok := by decide

theorem readers_agree_ten : tenColumns.ReadersAgree 100 := tenColumns.readers_agree 100 (by decide)

/-- 0.1 and 0.2 are not 0.3, neither exactly nor in floats, and of eight counters `per_cpu_times()` makes a `TypeError`. -/
theorem acceptSame_fails : ¬tenColumns.AcceptSame 100 (· + ·) ∧ ¬tenColumns.AcceptSame 100 (fun x y => double (x + y)) ∧
    ∀ add, ¬eightColumns.AcceptSame 100 add := by
  have hsummed : tenColumns.Summed := by
    rintro (_ | _ | _ | _ | _ | _ | _ | _ | _ | _ | j) <;> rfl
  refine ⟨fun h => ?_, fun h => ?_, fun add h => ?_⟩
  · exact absurd (congrArg Scputimes.user (h.sum hsummed)) (by decide +kernel)
  · exact absurd (congrArg Scputimes.user (h.sum hsummed)) (by decide +kernel)
  · obtain ⟨e, he⟩ := eightColumns.perCpuScputimes_short 100 (by decide) (List.cons_ne_nil _ _)
    have hcpus := h.cpus
    rw [he] at hcpus
    cases hcpus

end Psutil
