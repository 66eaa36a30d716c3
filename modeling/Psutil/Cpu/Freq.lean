import Mathlib.Algebra.Order.Ring.Rat
import Mathlib.Data.Finset.Sort
import Mathlib.Data.List.ReduceOption
import Psutil.Common.Text
import Psutil.Lib.Dict
import Psutil.Lib.Double
import Psutil.Lib.Fold
import Psutil.Linux.Text
import Psutil.Sensors.ThermalZone

/-!
# `cpu_freq()` on Linux (`_pslinux.py:613-697`)

| here | there |
| --- | --- |
| `decimalFloat` | `float()` of a number as `/proc/cpuinfo` has it |
| `freqLine`, `cpuinfoFreq` | `_cpu_get_cpuinfo_freq` |
| `FreqHost.addPath` | the loop over `paths` |
| `FreqHost.curr`, `FreqHost.entry` | the loop over the CPUs |
| `FreqHost.cpuFreq` | the two `cpu_freq`, of which one is defined when the module is imported |

A float is the rational number that it stands for, `double` rounds to one, and paths are ASCII. `CpuSystem` is a machine, `Shows` that
the files are of this machine. `cpuFreq_pairs`: every CPU has the numbers of its own policy, and its own line of `cpuinfo`, cut to whole kHz.
-/

namespace Psutil

open Lib Bytes Common

/-! ## The code -/

/-- Digits with a point. -/
def decimalDigits (x : Bytes) : Option ℚ :=
  let (whole, frac) := cutAt (byte '.') x
  if whole = [] ∧ frac = [] then none
  else
    let n := if whole = [] then some 0 else numeral whole
    let f := if frac = [] then some 0 else numeral frac
    match n, f with
    | some n, some f => some (n + f / 10 ^ (frac.filter isDigit).length)
    | _, _ => none

/-- `float(data)`; the kernel prints no exponent. -/
def decimalFloat (data : Bytes) : Except Exc ℚ :=
  let x := match strip data with
    | [] => none
    | c :: rest =>
      if c = byte '-' then (decimalDigits rest).map fun x => -x
      else if c = byte '+' then decimalDigits rest
      else decimalDigits (c :: rest)
  match x with
  | some x => .ok (double x)
  | none => .error (.valueError ("could not convert string to float: " ++ Bytes.repr data))

def lower (data : Bytes) : Bytes := data.map fun c => if 65 ≤ c ∧ c ≤ 90 then c + 32 else c

/-- x86 has the first key, ppc the second and s390x the third. -/
def freqKeys : List Bytes := [ascii "cpu mhz", ascii "clock", ascii "cpu mhz dynamic"]

def isFreqLine (line : Bytes) : Bool := freqKeys.any fun key => lower (strip (cutAt (byte ':') line).1) = key

/-- What a line adds. -/
def freqLine (line : Bytes) : Except Exc (Option ℚ) :=
  if isFreqLine line then
    let value := strip (cutAt (byte ':') line).2
    let value := if value.endsWith (ascii "MHz") then value.take (value.length - 3) else value
    (decimalFloat value).map some
  else .ok none

def cpuinfoFreq (cpuinfo : Bytes) : Except Exc (List ℚ) := ((fileLines cpuinfo).mapM freqLine).map List.reduceOption

structure ScpuFreq where
  current : ℚ
  min : ℚ
  max : ℚ
  deriving DecidableEq

/-- The files. -/
structure FreqHost where
  /-- What `glob.glob` returns, in its order. -/
  glob : Bytes → List Bytes
  bcat : Bytes → Except Errno Bytes
  procfs : Bytes
  encoding : FsEncoding
  /-- `os.path.exists`, when the module was imported. -/
  existed : Bytes → Bool

namespace FreqHost

variable (h : FreqHost)

def cpuinfo : Except Exc Bytes := (h.bcat (h.procfs ++ ascii "/cpuinfo")).mapError .osError

def paths : List Bytes :=
  let dirs := h.glob (ascii "/sys/devices/system/cpu/cpufreq/policy[0-9]*")
  if dirs = [] then h.glob (ascii "/sys/devices/system/cpu/cpu[0-9]*/cpufreq") else dirs

/-- `int(re.search(r"[0-9]+", path).group())`. -/
def firstNumber (path : Bytes) : Except Exc Int :=
  match (path.dropWhile (!isDigit ·)).takeWhile isDigit with
  | [] => .error (.attributeError "'NoneType' object has no attribute 'group'")
  | digits => int digits

/-- `cpu_to_path` after one more of the paths. -/
def addPath (cpuToPath : Dict Int Bytes) (path : Bytes) : Except Exc (Dict Int Bytes) :=
  match h.bcat (joinPath path (ascii "affected_cpus")) with
  | .error _ => (firstNumber path).map fun cpu => cpuToPath.set cpu path
  | .ok affected => ((split affected).mapM int).map fun cpus => cpuToPath.update (cpus.map fun cpu => (cpu, path))

/-- `int(curr)` for the CPU that comes `i`-th of `covered`; `none` goes on with the next one. -/
def curr (freqs : List ℚ) (covered i : Nat) (cpu : Int) (path : Bytes) : Except Exc (Option Int) :=
  if covered = freqs.length then
    match freqs[i]? with
    | some f => .ok (some (truncate (double (f * 1000))))
    | none => .error .indexError
  else match h.bcat (joinPath path (ascii "scaling_cur_freq")), h.bcat (joinPath path (ascii "cpuinfo_cur_freq")) with
    | .ok data, _ => (int data).map some
    | .error _, .ok data => (int data).map some
    | .error _, .error _ =>
      -- a core that is offline
      match h.bcat (ascii "/sys/devices/system/cpu/cpu" ++ decimalInt cpu ++ ascii "/online") with
      | .ok online => if h.encoding.readText online = text "0\n" then .ok none
        else .error (.notImplementedError "can't find current frequency file")
      | .error _ => .error (.notImplementedError "can't find current frequency file")

/-- `int(bcat(pjoin(path, file))) / 1000`. -/
def mhz (path file : Bytes) : Except Exc ℚ := do
  let data ← (h.bcat (joinPath path file)).mapError .osError
  return double ((← int data) / 1000)

def entry (freqs : List ℚ) (covered i : Nat) (cpu : Int) (path : Bytes) : Except Exc (Option ScpuFreq) := do
  match ← h.curr freqs covered i cpu path with
  | none => return none
  | some curr =>
    let max ← h.mhz path (ascii "scaling_max_freq")
    let min ← h.mhz path (ascii "scaling_min_freq")
    return some ⟨double (curr / 1000), min, max⟩

def sysfsCpuFreq : Except Exc (List ScpuFreq) := do
  let freqs ← cpuinfoFreq (← h.cpuinfo)
  let cpuToPath ← h.paths.foldlM h.addPath ∅
  let cpus := cpuToPath.keys.insertionSort (· ≤ ·)
  let ret ← cpus.zipIdx.mapM fun (cpu, i) => match cpuToPath.get? cpu with
    | some path => h.entry freqs cpus.length i cpu path
    | none => .error .keyError
  return ret.reduceOption

def cpuFreq : Except Exc (List ScpuFreq) :=
  if h.existed (ascii "/sys/devices/system/cpu/cpufreq/policy0") || h.existed (ascii "/sys/devices/system/cpu/cpu0/cpufreq") then
    h.sysfsCpuFreq
  else do return (← cpuinfoFreq (← h.cpuinfo)).map fun x => ⟨x, 0, 0⟩

end FreqHost

example : cpuinfoFreq (ascii "processor : 0\ncpu MHz\t\t: 2400.125\nclock : 1000.500000MHz\ncpu MHz static : 5200\n") =
    .ok [2400125 / 1000, 10005 / 10] := by decide +kernel

/-! ## `cpuinfo` -/

/-- A line with the frequency of a CPU. -/
structure MhzLine where
  label : Bytes
  pad : Bytes
  whole : ℕ
  frac : Bytes
  /-- Whether `MHz` follows. -/
  unit : Bool
  label_ok : label ∈ [ascii "cpu MHz", ascii "clock", ascii "cpu MHz dynamic"]
  pad_ok : ∀ c ∈ pad, c = 32 ∨ c = 9
  frac_ok : ∀ c ∈ frac, isDigit c = true

namespace MhzLine

variable (l : MhzLine)

def number : Bytes := decimal l.whole ++ if l.frac = [] then [] else byte '.' :: l.frac

def text : Bytes := l.label ++ l.pad ++ byte ':' :: 32 :: (l.number ++ if l.unit then ascii "MHz" else [])

def mhz : ℚ := l.whole + digits l.frac / 10 ^ l.frac.length

end MhzLine

inductive InfoLine where
  | other (text : Bytes) (h : isFreqLine (text ++ [10]) = false ∧ 10 ∉ text)
  | mhz (line : MhzLine)

namespace InfoLine

def text : InfoLine → Bytes
  | other text _ => text
  | mhz line => line.text

def mhz? : InfoLine → Option ℚ
  | other _ _ => none
  | mhz line => some line.mhz

end InfoLine

theorem decimalDigits_of_digits {x y : Bytes} (hx : x ≠ [] ∧ ∀ c ∈ x, isDigit c = true) (hy : ∀ c ∈ y, isDigit c = true) :
    decimalDigits (x ++ if y = [] then [] else byte '.' :: y) = some ((digits x : ℚ) + digits y / 10 ^ y.length) := by
  have hpoint : byte '.' ∉ x := fun h => absurd (hx.2 _ h) (by decide)
  have hcut : cutAt (byte '.') (x ++ if y = [] then [] else byte '.' :: y) = (x, y) := by
    split_ifs with hnil
    · have hall : ∀ c ∈ x, decide (c ≠ byte '.') = true := fun c hc => decide_eq_true fun h => hpoint (h ▸ hc)
      rw [List.append_nil, cutAt, List.takeWhile_eq_self_iff.2 hall, List.dropWhile_eq_nil_iff.2 hall, hnil]
      rfl
    · exact cutAt_append hpoint y
  have hfrac : (if y = [] then some 0 else numeral y) = some (digits y) := by
    split_ifs with hnil
    · rw [hnil]
      rfl
    · exact numeral_of_digits hnil hy
  simp only [decimalDigits, hcut, hx.1, false_and, if_false, hfrac, numeral_of_digits hx.1 hx.2, List.filter_eq_self.2 hy]

namespace MhzLine

variable (l : MhzLine)

theorem mem_number {c : UInt8} (h : c ∈ l.number) : isDigit c = true ∨ c = byte '.' := by
  rcases List.mem_append.1 h with h | h
  · exact Or.inl (isDigit_of_mem_decimal h)
  · split_ifs at h
    · cases h
    · rcases List.mem_cons.1 h with h | h
      · exact Or.inr h
      · exact Or.inl (l.frac_ok c h)

theorem isSpace_number {c : UInt8} (h : c ∈ l.number) : isSpace c = false := by
  rcases l.mem_number h with h | rfl
  · exact isSpace_of_isDigit h
  · decide

theorem decimalFloat_number : decimalFloat l.number = .ok (double l.mhz) := by
  have hvalue := decimalDigits_of_digits ⟨decimal_ne_nil l.whole, fun _ => isDigit_of_mem_decimal⟩ l.frac_ok
  rw [digits_decimal] at hvalue
  obtain ⟨c, rest, hcons⟩ := List.exists_cons_of_ne_nil (decimal_ne_nil l.whole)
  obtain ⟨hminus, hplus⟩ := not_sign_of_isDigit (isDigit_of_mem_decimal (hcons ▸ List.mem_cons_self : c ∈ decimal l.whole))
  have hnumber : l.number = c :: (rest ++ if l.frac = [] then [] else byte '.' :: l.frac) := by rw [number, hcons]; rfl
  rw [decimalFloat, strip_of_noSpace fun _ => l.isSpace_number, hnumber]
  simp only [hminus, hplus, if_false]
  rw [← hnumber, number, hvalue]
  rfl

/-- What holds of all three labels. -/
theorem of_label {p : Bytes → Prop} (h : ∀ x ∈ [ascii "cpu MHz", ascii "clock", ascii "cpu MHz dynamic"], p x) : p l.label :=
  h l.label l.label_ok

theorem strip_label : strip (l.label ++ l.pad) = l.label := by
  have hpad : ∀ c ∈ l.pad, isSpace c = true := by
    intro c hc
    rcases l.pad_ok c hc with rfl | rfl <;> decide
  rw [strip_append_right hpad]
  exact l.of_label (p := fun x => strip x = x) (by decide)

theorem colon_notMem : byte ':' ∉ l.label ++ l.pad := by
  intro h
  rcases List.mem_append.1 h with h | h
  · exact l.of_label (p := fun x => byte ':' ∉ x) (by decide) h
  · rcases l.pad_ok _ h with h | h <;> exact absurd h (by decide)

theorem isFreqLine_text (rest : Bytes) : isFreqLine (l.label ++ l.pad ++ byte ':' :: rest) = true := by
  rw [isFreqLine, cutAt_append l.colon_notMem, l.strip_label]
  exact l.of_label (p := fun x => freqKeys.any (fun key => lower x = key) = true) (by decide)

/-- The value without its unit. -/
theorem freqLine_text : freqLine (l.text ++ [10]) = .ok (some (double l.mhz)) := by
  have htext : l.text ++ [10] = l.label ++ l.pad ++ byte ':' :: ([32] ++ ((l.number ++ if l.unit then ascii "MHz" else []) ++ [10])) := by
    simp [text]
  have hspace : ∀ c ∈ l.number ++ (if l.unit then ascii "MHz" else []), isSpace c = false := by
    intro c hc
    rcases List.mem_append.1 hc with hc | hc
    · exact l.isSpace_number hc
    · split_ifs at hc
      · exact (isWord_of_all (by decide) (by decide) : IsWord (ascii "MHz")).2 c hc
      · cases hc
  have hstrip : strip ([32] ++ ((l.number ++ if l.unit then ascii "MHz" else []) ++ [10])) =
      l.number ++ if l.unit then ascii "MHz" else [] := by
    rw [strip_append_left (List.forall_mem_singleton.2 rfl), strip_append_right (List.forall_mem_singleton.2 rfl), strip_of_noSpace hspace]
  rw [htext, freqLine, if_pos (l.isFreqLine_text _), cutAt_append l.colon_notMem]
  simp only [hstrip]
  by_cases hunit : l.unit = true
  · have hends : endsWith (l.number ++ ascii "MHz") (ascii "MHz") = true := by
      rw [endsWith, List.isSuffixOf_iff_suffix]
      exact List.suffix_append _ _
    have hlen : (l.number ++ ascii "MHz").length - 3 = l.number.length := by
      rw [List.length_append, show (ascii "MHz").length = 3 from rfl]
      omega
    rw [if_pos hunit, if_pos hends, hlen, List.take_left, l.decimalFloat_number]
    rfl
  · have hends : ¬ endsWith l.number (ascii "MHz") = true := by
      rw [endsWith, List.isSuffixOf_iff_suffix]
      intro h
      rcases l.mem_number (h.subset (by decide : byte 'z' ∈ ascii "MHz")) with h | h <;> exact absurd h (by decide)
    rw [if_neg hunit, List.append_nil, if_neg hends, l.decimalFloat_number]
    rfl

theorem newline_notMem : 10 ∉ l.text := by
  intro h
  simp only [text, List.mem_append, List.mem_cons] at h
  rcases h with (h | h) | h | h | h | h
  · exact l.of_label (p := fun x => 10 ∉ x) (by decide) h
  · rcases l.pad_ok _ h with h | h <;> cases h
  · cases h
  · cases h
  · exact absurd (l.isSpace_number h) (by decide)
  · split_ifs at h
    · exact absurd h (by decide)
    · cases h

end MhzLine

theorem freqLine_infoLine (l : InfoLine) : freqLine (l.text ++ [10]) = .ok (l.mhz?.map double) := by
  cases l with
  | other text h => exact if_neg (by simp [InfoLine.text, h.1])
  | mhz line => exact line.freqLine_text

theorem cpuinfoFreq_lines (lines : List InfoLine) : cpuinfoFreq (unlines (lines.map InfoLine.text)) =
    .ok ((lines.filterMap InfoLine.mhz?).map double) := by
  have hnewline : ∀ t ∈ lines.map InfoLine.text, 10 ∉ t := by
    intro t ht
    obtain ⟨l, -, rfl⟩ := List.mem_map.1 ht
    cases l with
    | other text h => exact h.2
    | mhz line => exact line.newline_notMem
  have hlines : lines.mapM (freqLine ∘ (· ++ [10]) ∘ InfoLine.text) = .ok (lines.map fun l => l.mhz?.map double) :=
    mapM_ok fun l _ => freqLine_infoLine l
  rw [cpuinfoFreq, fileLines_unlines hnewline, List.map_map, List.mapM_map, hlines, Except.map, List.reduceOption, List.filterMap_map,
    List.map_filterMap]
  rfl

/-! ## The machine -/

/-- A directory of cpufreq, with the frequencies in kHz. -/
structure Policy where
  path : Bytes
  cpus : List ℕ
  cur : ℕ
  min : ℕ
  max : ℕ

def Policy.files (p : Policy) : List (Bytes × Bytes) :=
  [(ascii "affected_cpus", blanks (p.cpus.map decimal) ++ [10]), (ascii "scaling_cur_freq", decimal p.cur ++ [10]),
    (ascii "scaling_max_freq", decimal p.max ++ [10]), (ascii "scaling_min_freq", decimal p.min ++ [10])]

/-- What it adds to `cpu_to_path`. -/
def Policy.items (p : Policy) : List (Int × Bytes) := p.cpus.map fun c : ℕ => ((c : Int), p.path)

/-- The policies are in any order. -/
structure CpuSystem where
  online : Finset ℕ
  mhz : ℕ → ℚ
  cpuinfo : List InfoLine
  policies : List Policy
  /-- Some architectures show no frequency. -/
  cpuinfo_mhz : cpuinfo.filterMap InfoLine.mhz? = online.sort.map mhz ∨ cpuinfo.filterMap InfoLine.mhz? = []
  listed : ∀ p ∈ policies, ∀ c ∈ p.cpus, c ∈ online
  disjoint : policies.Pairwise fun p q => ∀ c ∈ p.cpus, c ∉ q.cpus

namespace CpuSystem

variable (m : CpuSystem)

/-- The numbers of `cpuinfo`. -/
def freqs : List ℚ := m.cpuinfo.filterMap InfoLine.mhz?

def covered : Finset ℕ := (m.policies.flatMap Policy.cpus).toFinset

/-- What is to be said of CPU `c` with the policy `p`, if `cut` is done to the number that `cpuinfo` has. -/
def entry (cut : ℚ → ℚ) (c : ℕ) (p : Policy) : ScpuFreq where
  current := if m.freqs.length = m.covered.card then cut (m.mhz c) else double (p.cur / 1000)
  min := double (p.min / 1000)
  max := double (p.max / 1000)

/-- `e` is about `c`. -/
def Pairs (cut : ℚ → ℚ) (c : ℕ) (e : ScpuFreq) : Prop := ∀ p ∈ m.policies, c ∈ p.cpus → e = m.entry cut c p

end CpuSystem

/-- The files are those of the machine. -/
structure FreqHost.Shows (h : FreqHost) (m : CpuSystem) : Prop where
  cpuinfo : h.bcat (h.procfs ++ ascii "/cpuinfo") = .ok (unlines (m.cpuinfo.map InfoLine.text))
  paths : h.paths = m.policies.map Policy.path
  files : ∀ p ∈ m.policies, ∀ f ∈ p.files, h.bcat (joinPath p.path f.1) = .ok f.2

/-- One entry for every CPU that a policy covers, in the order of the numbers. -/
def FreqHost.Paired (h : FreqHost) (m : CpuSystem) (cut : ℚ → ℚ) : Prop :=
  ∃ ret, h.cpuFreq = .ok ret ∧ List.Forall₂ (m.Pairs cut) m.covered.sort ret

/-- A number of MHz without what is below 1 kHz, in floats. -/
def wholeKhz (x : ℚ) : ℚ := double (⌊double (double x * 1000)⌋ / 1000)

/-- Up to rounding it is less than 1 kHz away. -/
theorem abs_wholeKhz_sub_lt {x : ℚ} (hx : 0 ≤ x) : |wholeKhz x - x| < 1 / 1000 + x / 2 ^ 51 := by
  have hmhz : 0 ≤ double x * 1000 := mul_nonneg (double_nonneg hx) (by norm_num)
  have hkhz : (0 : ℚ) ≤ ⌊double (double x * 1000)⌋ := Int.cast_nonneg (Int.floor_nonneg.2 (double_nonneg hmhz))
  have hread := abs_le.1 (abs_double_sub_le x)
  have hproduct := abs_le.1 (abs_double_sub_le (double x * 1000))
  have hquotient := abs_le.1 (abs_double_sub_le (⌊double (double x * 1000)⌋ / 1000))
  have hfloor := Int.floor_le (double (double x * 1000))
  have hlt := Int.lt_floor_add_one (double (double x * 1000))
  rw [abs_of_nonneg hx] at hread
  rw [abs_of_nonneg hmhz] at hproduct
  rw [abs_of_nonneg (div_nonneg hkhz (by norm_num))] at hquotient
  rw [wholeKhz, abs_lt]
  constructor <;> linarith

namespace CpuSystem

variable {m : CpuSystem}

theorem mem_covered {c : ℕ} : c ∈ m.covered ↔ ∃ p ∈ m.policies, c ∈ p.cpus := by
  rw [covered, List.mem_toFinset, List.mem_flatMap]

theorem covered_subset : m.covered ⊆ m.online := by
  intro c hc
  obtain ⟨p, hp, hcp⟩ := mem_covered.1 hc
  exact m.listed p hp c hcp

/-- No two policies list one CPU. -/
theorem policy_unique {p q : Policy} {c : ℕ} (hp : p ∈ m.policies) (hq : q ∈ m.policies) (hcp : c ∈ p.cpus) (hcq : c ∈ q.cpus) :
    p = q := by
  obtain ⟨i, hi, rfl⟩ := List.getElem_of_mem hp
  obtain ⟨j, hj, rfl⟩ := List.getElem_of_mem hq
  have hdisjoint := List.pairwise_iff_getElem.1 m.disjoint
  rcases lt_trichotomy i j with h | rfl | h
  · exact absurd hcq (hdisjoint i j hi hj h c hcp)
  · rfl
  · exact absurd hcp (hdisjoint j i hj hi h c hcq)

theorem freqs_nonneg {x : ℚ} (h : x ∈ m.freqs) : 0 ≤ x := by
  obtain ⟨l, -, hl⟩ := List.mem_filterMap.1 h
  cases l with
  | other text h => cases hl
  | mhz line =>
    obtain rfl := Option.some.inj hl
    exact add_nonneg (Nat.cast_nonneg _) (div_nonneg (Nat.cast_nonneg _) (by positivity))

/-- With as many lines as CPUs, the `i`-th line is that of the `i`-th CPU. -/
theorem freqs_getElem? (hlen : m.freqs.length = m.covered.card) {c i : ℕ} (hi : m.covered.sort[i]? = some c) :
    m.freqs[i]? = some (m.mhz c) := by
  rcases m.cpuinfo_mhz with hall | hnone
  · have hcard : m.freqs.length = m.online.card := by rw [freqs, hall, List.length_map, Finset.length_sort]
    have heq : m.covered = m.online := Finset.eq_of_subset_of_card_le covered_subset (by omega)
    rw [freqs, hall, List.getElem?_map, ← heq, hi]
    rfl
  · have hempty : m.covered = ∅ := by
      rw [← Finset.card_eq_zero, ← hlen, freqs, hnone]
      rfl
    rw [hempty, Finset.sort_empty] at hi
    cases hi

end CpuSystem

theorem truncate_of_nonneg {x : ℚ} (h : 0 ≤ x) : truncate x = ⌊x⌋ := if_pos h

theorem int_decimal_newline (n : ℕ) : int (decimal n ++ [10]) = .ok n := by
  obtain ⟨c, rest, hcons⟩ := List.exists_cons_of_ne_nil (decimal_ne_nil n)
  obtain ⟨hminus, hplus⟩ := not_sign_of_isDigit (isDigit_of_mem_decimal (hcons ▸ List.mem_cons_self : c ∈ decimal n))
  have hstrip : strip (decimal n ++ [10]) = c :: rest := by
    rw [strip_append_right (List.forall_mem_singleton.2 rfl), strip_of_digits fun _ => isDigit_of_mem_decimal, hcons]
  have hnumeral := numeral_of_digits (decimal_ne_nil n) fun _ => isDigit_of_mem_decimal
  rw [digits_decimal, hcons] at hnumeral
  simp only [int, hstrip, hminus, hplus, if_false, hnumeral, Option.map_some, Int.ofNat_eq_natCast]

namespace FreqHost

variable {h : FreqHost} {m : CpuSystem}

/-! ## One call -/

theorem mapM_int_decimal (cpus : List ℕ) : (cpus.map decimal).mapM int = .ok (cpus.map Int.ofNat) := by
  rw [List.mapM_map]
  exact mapM_ok fun n _ => int_decimal n

theorem addPath_policy (hs : h.Shows m) {p : Policy} (hp : p ∈ m.policies) (d : Dict Int Bytes) :
    h.addPath d p.path = .ok (d.update p.items) := by
  have hfile := hs.files p hp (ascii "affected_cpus", blanks (p.cpus.map decimal) ++ [10]) (by simp [Policy.files])
  have hsplit := split_blanks_newline (isWord_map_decimal p.cpus)
  simp only [addPath, hfile, hsplit, mapM_int_decimal, Except.map, List.map_map]
  rfl

theorem foldlM_addPath (hs : h.Shows m) : ∀ {ps : List Policy}, (∀ p ∈ ps, p ∈ m.policies) → ∀ d : Dict Int Bytes,
    (ps.map Policy.path).foldlM h.addPath d = .ok (d.update (ps.flatMap Policy.items))
  | [], _, _ => rfl
  | p :: ps, hmem, d => by
    rw [List.forall_mem_cons] at hmem
    rw [List.map_cons, List.foldlM_cons, addPath_policy hs hmem.1, List.flatMap_cons, Dict.update_append]
    exact foldlM_addPath hs hmem.2 _

/-- What `cpu_to_path` is in the end. -/
def cpuToPath (m : CpuSystem) : Dict Int Bytes := (∅ : Dict Int Bytes).update (m.policies.flatMap Policy.items)

theorem mem_keys_cpuToPath {n : Int} : n ∈ (cpuToPath m).keys ↔ ∃ c ∈ m.covered, (c : Int) = n := by
  rw [← Dict.mem_def, cpuToPath, Dict.mem_update]
  simp only [Dict.not_mem_empty, or_false, List.mem_map, List.mem_flatMap, Policy.items, CpuSystem.mem_covered]
  constructor
  · rintro ⟨_, ⟨p, hp, c, hc, rfl⟩, rfl⟩
    exact ⟨c, ⟨p, hp, hc⟩, rfl⟩
  · rintro ⟨c, ⟨p, hp, hc⟩, rfl⟩
    exact ⟨_, ⟨p, hp, c, hc, rfl⟩, rfl⟩

theorem get?_cpuToPath {p : Policy} {c : ℕ} (hp : p ∈ m.policies) (hc : c ∈ p.cpus) : (cpuToPath m).get? c = some p.path := by
  have hkey : (c : Int) ∈ cpuToPath m := mem_keys_cpuToPath.2 ⟨c, CpuSystem.mem_covered.2 ⟨p, hp, hc⟩, rfl⟩
  obtain ⟨path, hget⟩ := Dict.mem_iff_get?.1 hkey
  rcases Dict.mem_or_of_get?_update hget with hmem | hnone
  · obtain ⟨q, hq, hmem⟩ := List.mem_flatMap.1 hmem
    obtain ⟨c', hc', heq⟩ := List.mem_map.1 hmem
    obtain ⟨hcc, rfl⟩ := Prod.mk.inj heq
    obtain rfl := Int.ofNat.inj hcc
    rw [hget, m.policy_unique hp hq hc hc']
  · cases hnone

/-- `sorted(cpu_to_path)`. -/
theorem sorted_cpuToPath : (cpuToPath m).keys.insertionSort (· ≤ ·) = m.covered.sort.map Int.ofNat := by
  have hnodup : ((cpuToPath m).keys.insertionSort (· ≤ ·)).Nodup :=
    (List.perm_insertionSort _ _).nodup_iff.2 (cpuToPath m).nodup_keys
  have hkeys := List.sortedLE_insertionSort.sortedLT_of_nodup hnodup
  have hcovered : (m.covered.sort.map Int.ofNat).SortedLT :=
    List.Pairwise.sortedLT (List.pairwise_map.2 (m.covered.sortedLT_sort.pairwise.imp fun {n m} h => Int.ofNat_lt.2 h))
  refine hkeys.eq_of_mem_iff hcovered fun n => ?_
  rw [List.mem_insertionSort, mem_keys_cpuToPath, List.mem_map]
  simp only [Finset.mem_sort, Int.ofNat_eq_natCast]

theorem mhz_file (hs : h.Shows m) {p : Policy} (hp : p ∈ m.policies) (name : Bytes) (n : ℕ) (hf : (name, decimal n ++ [10]) ∈ p.files) :
    h.mhz p.path name = .ok (double (n / 1000)) := by
  have hfile := hs.files p hp _ hf
  simp only [mhz, hfile, Except.mapError, int_decimal_newline, bind, Except.bind, pure, Except.pure, Int.cast_natCast]

theorem curr_covered (hs : h.Shows m) {p : Policy} {c i : ℕ} (hp : p ∈ m.policies) (hi : m.covered.sort[i]? = some c) :
    ∃ n, h.curr (m.freqs.map double) m.covered.card i c p.path = .ok (some n) ∧ double (n / 1000) = (m.entry wholeKhz c p).current := by
  by_cases hlen : m.freqs.length = m.covered.card
  · have hget := CpuSystem.freqs_getElem? hlen hi
    have hmhz := CpuSystem.freqs_nonneg (List.mem_of_getElem? hget)
    have hnonneg : 0 ≤ double (double (m.mhz c) * 1000) := double_nonneg (mul_nonneg (double_nonneg hmhz) (by norm_num))
    refine ⟨⌊double (double (m.mhz c) * 1000)⌋, ?_, ?_⟩
    · simp only [curr, List.length_map, hlen, if_true, List.getElem?_map, hget, Option.map_some, truncate_of_nonneg hnonneg]
    · simp only [CpuSystem.entry, hlen, if_true, wholeKhz]
  · have hfile := hs.files p hp (ascii "scaling_cur_freq", decimal p.cur ++ [10]) (by simp [Policy.files])
    refine ⟨p.cur, ?_, ?_⟩
    · simp only [curr, List.length_map, if_neg (Ne.symm hlen), hfile, int_decimal_newline, Except.map]
    · simp only [CpuSystem.entry, if_neg hlen, Int.cast_natCast]

theorem entry_covered (hs : h.Shows m) {p : Policy} {c i : ℕ} (hp : p ∈ m.policies) (hi : m.covered.sort[i]? = some c) :
    h.entry (m.freqs.map double) m.covered.card i c p.path = .ok (some (m.entry wholeKhz c p)) := by
  obtain ⟨n, hcurr, hn⟩ := curr_covered hs hp hi
  have hmax := mhz_file hs hp (ascii "scaling_max_freq") p.max (by simp [Policy.files])
  have hmin := mhz_file hs hp (ascii "scaling_min_freq") p.min (by simp [Policy.files])
  simp only [entry, hcurr, hmax, hmin, hn, bind, Except.bind, pure, Except.pure]
  rfl

/-- The entry of a CPU that is covered, at its place in the order of the numbers. -/
theorem exists_entry (hs : h.Shows m) {c : ℕ} (hc : c ∈ m.covered.sort) : ∃ e, m.Pairs wholeKhz c e ∧ ∀ i, m.covered.sort[i]? = some c →
    (match (cpuToPath m).get? c with
      | some path => h.entry (m.freqs.map double) m.covered.card i c path
      | none => .error .keyError) = .ok (some e) := by
  obtain ⟨p, hp, hcp⟩ := CpuSystem.mem_covered.1 ((Finset.mem_sort _).1 hc)
  refine ⟨m.entry wholeKhz c p, fun q hq hcq => by rw [m.policy_unique hp hq hcp hcq], fun i hi => ?_⟩
  rw [get?_cpuToPath hp hcp]
  exact entry_covered hs hp hi

/-- A loop over the items with their places that leaves none out. -/
theorem reduceOption_map_zipIdx {α β : Type} (g : α → β) (l : List α) : (l.zipIdx.map fun x => some (g x.1)).reduceOption = l.map g := by
  have hsome : (l.zipIdx.map fun x => some (g x.1)).reduceOption = l.zipIdx.map (g ∘ Prod.fst) := by
    rw [List.reduceOption, List.filterMap_map]
    exact congrFun List.filterMap_eq_map _
  rw [hsome, ← List.map_map, List.zipIdx_map_fst]

/-- One call. -/
theorem paired_of_shows (hs : h.Shows m) (hsysfs : (h.existed (ascii "/sys/devices/system/cpu/cpufreq/policy0") ||
    h.existed (ascii "/sys/devices/system/cpu/cpu0/cpufreq")) = true) : h.Paired m wholeKhz := by
  have hfreqs : cpuinfoFreq (unlines (m.cpuinfo.map InfoLine.text)) = .ok (m.freqs.map double) :=
    cpuinfoFreq_lines m.cpuinfo
  have hloop := foldlM_addPath hs (fun p hp => hp) ∅
  rw [← hs.paths] at hloop
  have hne : Nonempty ScpuFreq := ⟨⟨0, 0, 0⟩⟩
  choose! g hpairs hbody using fun c (hc : c ∈ m.covered.sort) => exists_entry hs hc
  refine ⟨m.covered.sort.map g, ?_, List.forall₂_map_right_iff.2 (List.forall₂_same.2 hpairs)⟩
  have hret : (m.covered.sort.map Int.ofNat).zipIdx.mapM (fun x : Int × ℕ => match (cpuToPath m).get? x.1 with
      | some path => h.entry (m.freqs.map double) m.covered.card x.2 x.1 path
      | none => .error .keyError) = .ok (m.covered.sort.zipIdx.map fun x => some (g x.1)) := by
    rw [List.zipIdx_map, List.mapM_map]
    refine mapM_ok fun x hx => ?_
    have hi := List.mem_zipIdx_iff_getElem?.1 hx
    exact hbody x.1 (List.mem_of_getElem? hi) x.2 hi
  have hlen : (m.covered.sort.map Int.ofNat).length = m.covered.card := by rw [List.length_map, Finset.length_sort]
  have hkeys : (cpuToPath m).keys.insertionSort (· ≤ ·) = m.covered.sort.map Int.ofNat := sorted_cpuToPath
  rw [cpuToPath] at hkeys hret
  simp only [cpuFreq, hsysfs, if_true, sysfsCpuFreq, cpuinfo, hs.cpuinfo, Except.mapError, hfreqs, hloop, hkeys, hlen, bind, Except.bind]
  rw [hret]
  simp only [reduceOption_map_zipIdx, pure, Except.pure]

end FreqHost

/-- **Every CPU that a policy covers has its own data**, where the directories of cpufreq were found when the module was imported. -/
theorem cpuFreq_pairs (h : FreqHost) (m : CpuSystem) (hs : h.Shows m)
    (hsysfs : h.existed (ascii "/sys/devices/system/cpu/cpufreq/policy0") = true ∨
      h.existed (ascii "/sys/devices/system/cpu/cpu0/cpufreq") = true) :
    h.Paired m wholeKhz ∧ ∀ x ∈ m.freqs, |wholeKhz x - x| < 1 / 1000 + x / 2 ^ 51 :=
  ⟨FreqHost.paired_of_shows hs (by rwa [Bool.or_eq_true]), fun _ hx => abs_wholeKhz_sub_lt (CpuSystem.freqs_nonneg hx)⟩

/-! ## One CPU at 512.002 MHz -/

def oneLine : MhzLine := ⟨ascii "cpu MHz", [9, 9], 512, ascii "002", false, by decide, by simp, List.all_eq_true.1 (by decide)⟩

def onePolicy (n : ℕ) : Policy := ⟨ascii "/sys/devices/system/cpu/cpufreq/policy" ++ decimal n, [n], 500000, 400000, 2000000⟩

def oneCpu (n : ℕ) : CpuSystem where
  online := {n}
  mhz := fun _ => oneLine.mhz
  cpuinfo := [.mhz oneLine]
  policies := [onePolicy n]
  cpuinfo_mhz := Or.inl (by rw [Finset.sort_singleton]; rfl)
  listed := by simp [onePolicy]
  disjoint := List.pairwise_singleton _ _

def oneHost (n : ℕ) : FreqHost where
  glob := fun pattern => if pattern = ascii "/sys/devices/system/cpu/cpufreq/policy[0-9]*" then [(onePolicy n).path] else []
  bcat := fun path => match ((ascii "/proc/cpuinfo", oneLine.text ++ [10]) ::
      (onePolicy n).files.map fun f => (joinPath (onePolicy n).path f.1, f.2)).lookup path with
    | some data => .ok data
    | none => .error .enoent
  procfs := ascii "/proc"
  encoding := .utf8
  existed := fun path => path = (onePolicy n).path

theorem shows_one : (oneHost 0).Shows (oneCpu 0) ∧ (oneHost 1).Shows (oneCpu 1) :=
  ⟨⟨by decide, by decide, by decide⟩, ⟨by decide, by decide, by decide⟩⟩

/-- The product of 512.002 and 1000 is below 512002; without a CPU 0 in cpufreq the limits are 0. -/
theorem cpuFreq_not_exact :
    (¬ ∀ h m, FreqHost.Shows h m → h.existed (ascii "/sys/devices/system/cpu/cpufreq/policy0") = true → h.Paired m double) ∧
      ¬ ∀ h m, FreqHost.Shows h m → h.Paired m wholeKhz := by
  have hcut : (oneHost 0).cpuFreq = .ok [⟨double (512001 / 1000), 400, 2000⟩] := by decide +kernel
  have hlimits : (oneHost 1).cpuFreq = .ok [⟨double (512002 / 1000), 0, 0⟩] := by decide +kernel
  have hcovered : ∀ n, (oneCpu n).covered.sort = [n] := by
    intro n
    have hset : (oneCpu n).covered = {n} := by simp [CpuSystem.covered, oneCpu, onePolicy]
    rw [hset, Finset.sort_singleton]
  constructor
  · intro hall
    obtain ⟨ret, hret, hpairs⟩ := hall (oneHost 0) (oneCpu 0) shows_one.1 (by decide)
    rw [hcut] at hret
    obtain rfl := Except.ok.inj hret
    rw [hcovered] at hpairs
    have hentry := (List.forall₂_cons.1 hpairs).1 (onePolicy 0) (by simp [oneCpu]) (by simp [onePolicy])
    have hcurrent := congrArg ScpuFreq.current hentry
    exact absurd hcurrent (by decide +kernel)
  · intro hall
    obtain ⟨ret, hret, hpairs⟩ := hall (oneHost 1) (oneCpu 1) shows_one.2
    rw [hlimits] at hret
    obtain rfl := Except.ok.inj hret
    rw [hcovered] at hpairs
    have hentry := (List.forall₂_cons.1 hpairs).1 (onePolicy 1) (by simp [oneCpu]) (by simp [onePolicy])
    have hmax := congrArg ScpuFreq.max hentry
    exact absurd hmax (by decide +kernel)

theorem cpuFreq_pairs_one : (oneHost 0).Paired (oneCpu 0) wholeKhz :=
  (cpuFreq_pairs (oneHost 0) (oneCpu 0) shows_one.1 (Or.inl (by decide))).1

end Psutil
