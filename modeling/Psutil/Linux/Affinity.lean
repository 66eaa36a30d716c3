import Mathlib.Data.Finset.Insert
import Mathlib.Data.Finset.Lattice.Basic
import Psutil.Lib.Effect
import Psutil.Lib.Sorted
import Psutil.Linux.Bytes
import Psutil.Linux.CpuList
import Psutil.Proc.Process

/-!
# `Process.cpu_affinity()` on Linux

| here | there |
| --- | --- |
| `fillMask`, `procCpuAffinitySet` | `psutil_proc_cpu_affinity_set` (`arch/linux/proc.c:145`) |
| `askMask`, `procCpuAffinityGet` | `psutil_proc_cpu_affinity_get` (`:86`) |
| `perCpuTimesIn` | `per_cpu_times` (`_pslinux.py:476`) |
| `getEligibleCpus`, `checkCpus`, `cpuAffinitySet` | `_get_eligible_cpus`, `cpu_affinity_set` (`:2160-2198`) |
| `translate` | the wrapper of `wrap_exceptions` (`:1608`) |
| `cpuAffinity`, `cpuAffinityNone` | `Process.cpu_affinity` with and without a list (`__init__.py:1047`) |

The state is the affinity of the process that holds the PID. The flags that `_raise_if_pid_reused` sets on the object
are left out; nothing reads them here. `cpuAffinity_run`: a call sets the settable part of the
list, or raises and changes nothing. `cpu_affinity_iff`: when that part is the list.
-/

namespace Psutil

open Lib Bytes Common

def einval : Errno := .other 22

/-- What the files show at one moment. -/
structure CpuFiles where
  /-- `/proc/PID/status`. -/
  status : Except Errno Bytes
  /-- `/proc/stat`. -/
  stat : Except Errno Bytes

/-- The object and the system that answers it, during one call. -/
structure CpuHost where
  proc : Process
  /-- `_prefetch["cpu_affinity"]`, when it is there. -/
  prefetch : Option (Option (List Int))
  world : World
  encoding : FsEncoding
  unicode : UnicodeData
  clockTicks : Nat
  /-- `LONG_MAX`. -/
  longMax : Int
  longMax_ge : 2147483647 ≤ longMax
  /-- The number of CPU ids of the kernel, which is the size of its masks. -/
  nrCpuIds : Nat
  /-- The CPUs that the cpuset of the process allows. -/
  allowed : Finset Nat
  allowed_lt : ∀ cpu ∈ allowed, cpu < nrCpuIds
  /-- Another reason for which `sched_setaffinity` fails. -/
  refuses : Option Errno
  /-- The files when `cpu_affinity` reads them, and when `cpu_affinity_set` does. -/
  asked : CpuFiles
  failed : CpuFiles
  /-- What `_is_zombie` and `os.path.exists("/proc/PID/stat")` answer. -/
  zombie : Bool
  statExists : Bool
  /-- `list(set(cpus))`, in whatever order. -/
  listSet : List Int → List Int
  nodup_listSet : ∀ cpus, (listSet cpus).Nodup
  mem_listSet : ∀ cpus cpu, cpu ∈ listSet cpus ↔ cpu ∈ cpus

/-- Code that may change the affinity. -/
abbrev AffinityM (α : Type) := Eff Exc (Finset Nat) α

/-! ## The files -/

/-- The message of a named tuple that is built with the first `n` of its fields. -/
def missingArguments (name : String) (fields : List String) (n : Nat) : String :=
  let missing := (fields.drop n).map fun field => "'" ++ field ++ "'"
  let names := match missing.reverse with
    | [] => ""
    | [last] => last
    | [last, first] => first ++ " and " ++ last
    | last :: first => String.intercalate ", " first.reverse ++ ", and " ++ last
  name ++ ".__new__() missing " ++ toString missing.length ++ " required positional argument" ++
    (if missing.length = 1 then "" else "s") ++ ": " ++ names

def scputimesFields : List String :=
  ["user", "system", "idle", "nice", "iowait", "irq", "softirq", "steal", "guest", "guest_nice"]

/-- `float(x) / CLOCK_TICKS`, where `rnd` rounds to a float. -/
def seconds (rnd : ℚ → ℚ) (clockTicks : Nat) (x : Bytes) : Except Exc ℚ := return rnd (rnd (← float x) / clockTicks)

/-- One line of `per_cpu_times`. -/
def cpuLine (rnd : ℚ → ℚ) (clockTicks : Nat) (line : Bytes) : Except Exc (List ℚ) := do
  let values := ((split line).drop 1).take scputimesFields.length
  let raw ← values.mapM (seconds rnd clockTicks)
  match raw with
  | user :: nice :: system :: idle :: rest =>
    if raw.length < scputimesFields.length then
      .error (.typeError (missingArguments "scputimes" scputimesFields raw.length))
    else return user :: system :: idle :: nice :: rest
  | _ => .error .indexError

/-- `per_cpu_times()`; the first line is that of the whole system. -/
def perCpuTimesIn (rnd : ℚ → ℚ) (clockTicks : Nat) (stat : Except Errno Bytes) : Except Exc (List (List ℚ)) :=
  match stat with
  | .error errno => .error (.osError errno)
  | .ok data => (((data.splitOn 10).drop 1).filter (startsWith · (ascii "cpu"))).mapM (cpuLine rnd clockTicks)

/-- With exact numbers. -/
def perCpuTimes : Nat → Except Errno Bytes → Except Exc (List (List ℚ)) := perCpuTimesIn id

def rangeInt (n : Nat) : List Int := (List.range n).map Int.ofNat

/-- `^Cpus_allowed_list:[ \t]*([^\r\n]*)`, in the first line that has it. -/
def cpusAllowedList (data : Bytes) : Option Bytes :=
  let label := ascii "Cpus_allowed_list:"
  ((data.splitOn 10).find? (startsWith · label)).map fun line =>
    ((line.drop label.length).dropWhile fun c => c = 32 || c = 9).takeWhile (· ≠ 13)

namespace CpuHost

variable (h : CpuHost)

/-- What `wrap_exceptions` raises instead. -/
def translate (e : Exc) : Exc :=
  let gone : Exc := if h.zombie then .zombieProcess h.proc.pid h.proc.name none
    else .noSuchProcess h.proc.pid h.proc.name noSuchProcessMsg
  match e with
  | .osError .eacces | .osError .eperm => .accessDenied h.proc.pid h.proc.name
  | .osError .esrch => gone
  | .osError .enoent => if h.zombie || !h.statExists then gone else e
  | e => e

def wrapExceptions {α : Type} (fun_ : AffinityM α) : AffinityM α := tryCatch fun_ fun e => throw (h.translate e)

/-- `_read_status_file`. -/
def readStatusFile (files : CpuFiles) : Except Exc Bytes :=
  match files.status with
  | .ok data => .ok data
  | .error errno => .error (h.translate (.osError errno))

/-- `range(len(per_cpu_times()))`. -/
def allCpus (files : CpuFiles) : Except Exc (List Int) :=
  return rangeInt (← perCpuTimes h.clockTicks files.stat).length

def getEligibleCpus (files : CpuFiles) : Except Exc (List Int) := do
  match cpusAllowedList (← h.readStatusFile files) with
  | none => h.allCpus files
  | some cpulist => match Linux.parseCpulist h.unicode (h.encoding.decode cpulist) with
    | .error (.valueError _) => h.allCpus files
    | r => r

/-! ## The C functions -/

/-- `PyLong_AsLong`. -/
def asLong (v : Int) : Except Exc Int := if -h.longMax - 1 ≤ v ∧ v ≤ h.longMax then .ok v else .error .overflowError

/-- `CPU_SET`: the index is a `size_t`, and one outside of the 1024 bits is ignored. -/
def cpuSet (value : Int) (mask : Finset Nat) : Finset Nat :=
  let cpu := if value < 0 then value + 2 * (h.longMax + 1) else value
  if cpu < 1024 then insert cpu.toNat mask else mask

def fillMask : List Int → Finset Nat → Except Exc (Finset Nat)
  | [], mask => .ok mask
  | item :: rest, mask => do
    let value ← h.asLong item
    if value = -1 then .error (.valueError "invalid CPU value")
    else fillMask rest (h.cpuSet value mask)

def schedSetaffinity (mask : Finset Nat) : AffinityM Unit := fun affinity =>
  if (h.world.holder h.proc.pid).isNone then (.error (.osError .esrch), affinity)
  else match h.refuses with
    | some errno => (.error (.osError errno), affinity)
    | none => if mask ∩ h.allowed = ∅ then (.error (.osError einval), affinity) else (.ok (), mask ∩ h.allowed)

def procCpuAffinitySet (cpus : List Int) : AffinityM Unit := do
  let mask ← Eff.lift (h.fillMask cpus ∅)
  h.schedSetaffinity mask

/-- The size of the mask is checked before the PID is looked up. -/
def schedGetaffinity (ncpus : Nat) (affinity : Finset Nat) : Except Errno (Finset Nat) :=
  if ncpus < h.nrCpuIds then .error einval
  else if (h.world.holder h.proc.pid).isNone then .error .esrch
  else .ok affinity

/-- The size of the mask is doubled until the kernel takes it. -/
def askMask (affinity : Finset Nat) : (fuel : Nat) → (ncpus : Nat) → Except Exc (Nat × Finset Nat)
  | 0, _ => .error .overflowError
  | fuel + 1, ncpus => match h.schedGetaffinity ncpus affinity with
    | .ok mask => .ok (ncpus, mask)
    | .error errno =>
      if errno ≠ einval then .error (.osError errno)
      -- `INT_MAX / 2`
      else if ncpus > 1073741823 then .error .overflowError
      else askMask affinity fuel (ncpus * 2)

/-- From 64 on, 25 sizes are below the limit; the loop over the mask ends at its last CPU. -/
def procCpuAffinityGet (affinity : Finset Nat) : Except Exc (List Int) := do
  let (ncpus, mask) ← h.askMask affinity 25 64
  return (rangeInt ncpus).filter fun cpu => cpu.toNat ∈ mask

/-! ## The methods -/

/-- The loop over the CPUs. -/
def checkCpus (cpus eligible all : List Int) : Except Exc Unit :=
  cpus.forM fun cpu =>
    if cpu ∉ all then
      .error (.valueError ("invalid CPU " ++ toString cpu ++ "; choose between " ++ toString eligible))
    else if cpu ∉ eligible then
      .error (.valueError ("CPU number " ++ toString cpu ++ " is not eligible; choose between " ++ toString eligible))
    else .ok ()

/-- What follows the `except` of `cpu_affinity_set`. -/
def onError (cpus : List Int) (err : Exc) : AffinityM Unit := do
  match err with
  | .valueError _ | .unicodeDecodeError | .osError (.other 22) =>
    Eff.lift do
      let eligible ← h.getEligibleCpus h.failed
      checkCpus cpus eligible (← h.allCpus h.failed)
    throw err
  | err => throw err

def cpuAffinitySet (cpus : List Int) : AffinityM Unit :=
  h.wrapExceptions (tryCatch (h.procCpuAffinitySet cpus) (h.onError cpus))

/-- The CPUs that a call asks for. -/
def wanted (cpus : List Int) : Except Exc (List Int) := if cpus = [] then h.getEligibleCpus h.asked else .ok cpus

/-- `cpu_affinity(cpus)`. -/
def cpuAffinity (cpus : List Int) : AffinityM Unit := do
  match (h.proc.raiseIfPidReused .linux h.world).1 with
  | some e => throw e
  | none =>
    let cpus ← Eff.lift (h.wanted cpus)
    h.cpuAffinitySet (h.listSet cpus)

/-- `cpu_affinity()`. -/
def cpuAffinityNone (affinity : Finset Nat) : Except Exc (Option (List Int)) :=
  match h.prefetch with
  | some value => .ok value
  | none => match h.procCpuAffinityGet affinity with
    | .ok cpus => .ok (some (sortedSet cpus))
    | .error e => .error (h.translate e)

/-! ## What is set -/

/-- A CPU that the C function can take. -/
def Valid (cpu : Int) : Prop := cpu ≠ -1 ∧ -h.longMax - 1 ≤ cpu ∧ cpu ≤ h.longMax

/-- A CPU that the kernel keeps. -/
def Settable (cpu : Int) : Prop := 0 ≤ cpu ∧ cpu < 1024 ∧ cpu.toNat ∈ h.allowed

/-- The system call has no other reason to fail. -/
def Accepts : Prop := (h.world.holder h.proc.pid).isSome ∧ h.refuses = none

variable {h}

theorem mem_cpuSet {value : Int} (hv : h.Valid value) {mask : Finset Nat} {n : Nat} :
    n ∈ h.cpuSet value mask ↔ n ∈ mask ∨ n < 1024 ∧ (n : Int) = value := by
  have hmax := h.longMax_ge
  obtain ⟨hne, hlow, hhigh⟩ := hv
  rw [cpuSet]
  by_cases hneg : value < 0
  · have hbig : ¬value + 2 * (h.longMax + 1) < 1024 := by omega
    simp only [hneg, if_true, hbig, if_false]
    constructor
    · exact Or.inl
    · rintro (hn | ⟨-, hn⟩)
      · exact hn
      · omega
  · simp only [hneg, if_false]
    by_cases hlt : value < 1024
    · rw [if_pos hlt, Finset.mem_insert]
      constructor
      · rintro (rfl | hn)
        · exact Or.inr (by omega)
        · exact Or.inl hn
      · rintro (hn | ⟨-, hn⟩)
        · exact Or.inr hn
        · exact Or.inl (by omega)
    · rw [if_neg hlt]
      constructor
      · exact Or.inl
      · rintro (hn | ⟨hn, rfl⟩)
        · exact hn
        · omega

theorem fillMask_of_valid : ∀ {cpus : List Int} (mask : Finset Nat), (∀ cpu ∈ cpus, h.Valid cpu) →
    ∃ m, h.fillMask cpus mask = .ok m ∧ ∀ n : Nat, n ∈ m ↔ n ∈ mask ∨ n < 1024 ∧ (n : Int) ∈ cpus
  | [], mask, _ => ⟨mask, rfl, by simp⟩
  | item :: rest, mask, hvalid => by
    have hitem := hvalid item List.mem_cons_self
    obtain ⟨m, hm, hmem⟩ := fillMask_of_valid (h.cpuSet item mask) fun cpu hc => hvalid cpu (List.mem_cons_of_mem item hc)
    refine ⟨m, ?_, fun n => ?_⟩
    · simp only [fillMask, asLong, if_pos hitem.2, bind, Except.bind, if_neg hitem.1, hm]
    · rw [hmem, mem_cpuSet hitem, List.mem_cons]
      tauto

theorem fillMask_of_not_valid : ∀ {cpus : List Int} (mask : Finset Nat), (∃ cpu ∈ cpus, ¬h.Valid cpu) →
    ∃ e, h.fillMask cpus mask = .error e
  | [], _, hbad => by simp at hbad
  | item :: rest, mask, hbad => by
    by_cases hrange : -h.longMax - 1 ≤ item ∧ item ≤ h.longMax
    · by_cases hone : item = -1
      · exact ⟨.valueError "invalid CPU value", by simp only [fillMask, asLong, if_pos hrange, bind, Except.bind, if_pos hone]⟩
      · obtain ⟨cpu, hcpu, hnot⟩ := hbad
        rcases List.mem_cons.1 hcpu with rfl | hcpu
        · exact absurd ⟨hone, hrange⟩ hnot
        · obtain ⟨e, he⟩ := fillMask_of_not_valid (h.cpuSet item mask) ⟨cpu, hcpu, hnot⟩
          exact ⟨e, by simp only [fillMask, asLong, if_pos hrange, bind, Except.bind, if_neg hone, he]⟩
    · exact ⟨.overflowError, by simp only [fillMask, asLong, if_neg hrange, bind, Except.bind]⟩

/-- The mask that is filled, and what the kernel keeps of it. -/
theorem fillMask_kept {cpus : List Int} (hvalid : ∀ cpu ∈ cpus, h.Valid cpu) :
    ∃ m, h.fillMask cpus ∅ = .ok m ∧ ∀ n : Nat, n ∈ m ∩ h.allowed ↔ (n : Int) ∈ cpus ∧ h.Settable n := by
  obtain ⟨m, hm, hmem⟩ := fillMask_of_valid ∅ hvalid
  refine ⟨m, hm, fun n => ?_⟩
  have hlt : n < 1024 ↔ (n : Int) < 1024 := by omega
  simp only [Finset.mem_inter, hmem, Finset.notMem_empty, false_or, Settable, Int.toNat_natCast, hlt]
  constructor
  · rintro ⟨⟨hn, hin⟩, hall⟩
    exact ⟨hin, Int.natCast_nonneg n, hn, hall⟩
  · rintro ⟨hin, -, hn, hall⟩
    exact ⟨⟨hn, hin⟩, hall⟩

theorem schedSetaffinity_of_accepts (ha : h.Accepts) (mask affinity : Finset Nat) :
    h.schedSetaffinity mask affinity =
      if mask ∩ h.allowed = ∅ then (.error (.osError einval), affinity) else (.ok (), mask ∩ h.allowed) := by
  obtain ⟨hfound, hrefuses⟩ := ha
  simp only [schedSetaffinity, Option.isNone_eq_false_iff.2 hfound, Bool.false_eq_true, if_false, hrefuses]

theorem schedSetaffinity_of_not_accepts (ha : ¬h.Accepts) (mask affinity : Finset Nat) :
    ∃ errno, h.schedSetaffinity mask affinity = (.error (.osError errno), affinity) := by
  unfold schedSetaffinity
  by_cases hnone : (h.world.holder h.proc.pid).isNone = true
  · exact ⟨.esrch, if_pos hnone⟩
  · rw [if_neg hnone]
    cases hr : h.refuses with
    | some errno => exact ⟨errno, rfl⟩
    | none => exact absurd ⟨Option.isSome_iff_ne_none.2 (mt Option.isNone_iff_eq_none.2 hnone), hr⟩ ha

/-- Of a list that the C function can take, the settable part is set, unless it is empty. -/
theorem procCpuAffinitySet_of_accepts (ha : h.Accepts) {cpus : List Int} (hvalid : ∀ cpu ∈ cpus, h.Valid cpu)
    (hset : ∃ cpu ∈ cpus, h.Settable cpu) (affinity : Finset Nat) : ∃ affinity',
    h.procCpuAffinitySet cpus affinity = (.ok (), affinity') ∧
      ∀ n : Nat, n ∈ affinity' ↔ (n : Int) ∈ cpus ∧ h.Settable n := by
  obtain ⟨m, hm, hkept⟩ := fillMask_kept hvalid
  obtain ⟨cpu, hcpu, hs⟩ := hset
  have hcast : ((cpu.toNat : Nat) : Int) = cpu := Int.toNat_of_nonneg hs.1
  have hin : cpu.toNat ∈ m ∩ h.allowed := by
    rw [hkept, hcast]
    exact ⟨hcpu, hs⟩
  refine ⟨m ∩ h.allowed, ?_, hkept⟩
  rw [procCpuAffinitySet, Eff.lift_bind_run, hm]
  dsimp only
  rw [schedSetaffinity_of_accepts ha, if_neg (Finset.ne_empty_of_mem hin)]

/-- Otherwise the C function raises, and the affinity is as it was. -/
theorem procCpuAffinitySet_raises {cpus : List Int}
    (hbad : ¬(h.Accepts ∧ (∀ cpu ∈ cpus, h.Valid cpu) ∧ ∃ cpu ∈ cpus, h.Settable cpu)) :
    Eff.Raises (h.procCpuAffinitySet cpus) := by
  intro affinity
  rw [procCpuAffinitySet, Eff.lift_bind_run]
  by_cases hvalid : ∀ cpu ∈ cpus, h.Valid cpu
  · obtain ⟨m, hm, hkept⟩ := fillMask_kept hvalid
    rw [hm]
    dsimp only
    by_cases ha : h.Accepts
    · have hempty : m ∩ h.allowed = ∅ :=
        Finset.eq_empty_of_forall_notMem fun n hn => hbad ⟨ha, hvalid, n, (hkept n).1 hn⟩
      exact ⟨.osError einval, by rw [schedSetaffinity_of_accepts ha, if_pos hempty]⟩
    · obtain ⟨errno, herrno⟩ := schedSetaffinity_of_not_accepts ha m affinity
      exact ⟨.osError errno, herrno⟩
  · push Not at hvalid
    obtain ⟨e, he⟩ := fillMask_of_not_valid ∅ hvalid
    exact ⟨e, by rw [he]⟩

/-- The validation lets no error through. -/
theorem onError_raises (cpus : List Int) (err : Exc) : Eff.Raises (h.onError cpus err) := by
  unfold onError
  split
  all_goals first | exact Eff.Raises.lift_bind _ fun _ => Eff.Raises.throw _ | exact Eff.Raises.throw _

theorem cpuAffinitySet_of_ok {cpus : List Int} {affinity affinity' : Finset Nat}
    (hok : h.procCpuAffinitySet cpus affinity = (.ok (), affinity')) :
    h.cpuAffinitySet cpus affinity = (.ok (), affinity') := by
  rw [cpuAffinitySet, wrapExceptions, Eff.tryCatch_run, Eff.tryCatch_run, hok]

theorem cpuAffinitySet_raises {cpus : List Int} (hbad : Eff.Raises (h.procCpuAffinitySet cpus)) :
    Eff.Raises (h.cpuAffinitySet cpus) :=
  (hbad.tryCatch (onError_raises cpus)).tryCatch fun _ => Eff.Raises.throw _

/-! ## What the getter shows -/

theorem schedGetaffinity_eq (hfound : (h.world.holder h.proc.pid).isSome) (ncpus : Nat) (affinity : Finset Nat) :
    h.schedGetaffinity ncpus affinity = if ncpus < h.nrCpuIds then .error einval else .ok affinity := by
  simp only [schedGetaffinity, Option.isNone_eq_false_iff.2 hfound, Bool.false_eq_true, if_false]

/-- The largest mask that is tried has `2 ^ 30` bits. -/
theorem askMask_spec (hfound : (h.world.holder h.proc.pid).isSome) (affinity : Finset Nat) :
    ∀ {fuel ncpus : Nat}, ncpus * 2 ^ fuel = 1073741824 →
      (h.nrCpuIds ≤ 1073741824 → ∃ n, h.nrCpuIds ≤ n ∧ h.askMask affinity (fuel + 1) ncpus = .ok (n, affinity)) ∧
      (1073741824 < h.nrCpuIds → h.askMask affinity (fuel + 1) ncpus = .error .overflowError)
  | 0, ncpus, hn => by
    obtain rfl : ncpus = 1073741824 := by omega
    rw [askMask, schedGetaffinity_eq hfound]
    constructor
    · intro hle
      exact ⟨1073741824, hle, by rw [if_neg (not_lt.2 hle)]⟩
    · intro hlt
      rw [if_pos hlt]
      exact (if_neg (not_not.2 rfl)).trans (if_pos (by omega))
  | fuel + 1, ncpus, hn => by
    have hdouble : ncpus * 2 * 2 ^ fuel = 1073741824 := by rw [← hn, pow_succ, mul_assoc, mul_comm 2]
    have hsmall : ncpus ≤ 536870912 := by
      have hpos : ncpus * 2 * 1 ≤ ncpus * 2 * 2 ^ fuel := Nat.mul_le_mul_left _ Nat.one_le_two_pow
      omega
    have hgo : ¬ncpus > 1073741823 := by omega
    rw [askMask, schedGetaffinity_eq hfound]
    by_cases hlt : ncpus < h.nrCpuIds
    · simp only [hlt, if_true, ne_eq, not_true_eq_false, if_false, hgo]
      exact askMask_spec hfound affinity hdouble
    · simp only [hlt, if_false]
      exact ⟨fun _ => ⟨ncpus, not_lt.1 hlt, rfl⟩, fun hbig => by omega⟩

theorem mem_rangeInt {n : Nat} {cpu : Int} : cpu ∈ rangeInt n ↔ 0 ≤ cpu ∧ cpu < n := by
  rw [rangeInt, List.mem_map]
  constructor
  · rintro ⟨m, hm, rfl⟩
    have hlt := List.mem_range.1 hm
    exact ⟨Int.natCast_nonneg m, Int.ofNat_lt.2 hlt⟩
  · rintro ⟨hpos, hlt⟩
    exact ⟨cpu.toNat, List.mem_range.2 (by omega), Int.toNat_of_nonneg hpos⟩

/-- With all the CPUs of the process below `nr_cpu_ids`, the getter lists them. -/
theorem procCpuAffinityGet_spec (hfound : (h.world.holder h.proc.pid).isSome) {affinity : Finset Nat}
    (hlt : ∀ n ∈ affinity, n < h.nrCpuIds) :
    (h.nrCpuIds ≤ 1073741824 → ∃ cpus, h.procCpuAffinityGet affinity = .ok cpus ∧
      ∀ cpu, cpu ∈ cpus ↔ 0 ≤ cpu ∧ cpu.toNat ∈ affinity) ∧
    (1073741824 < h.nrCpuIds → h.procCpuAffinityGet affinity = .error .overflowError) := by
  obtain ⟨hok, herr⟩ := askMask_spec hfound affinity (show 64 * 2 ^ 24 = 1073741824 by decide)
  constructor
  · intro hle
    obtain ⟨n, hn, hask⟩ := hok hle
    refine ⟨(rangeInt n).filter fun cpu => cpu.toNat ∈ affinity, by rw [procCpuAffinityGet, hask]; rfl, fun cpu => ?_⟩
    rw [List.mem_filter, mem_rangeInt, decide_eq_true_iff]
    constructor
    · rintro ⟨⟨hpos, -⟩, hin⟩
      exact ⟨hpos, hin⟩
    · rintro ⟨hpos, hin⟩
      have hcpu := hlt cpu.toNat hin
      exact ⟨⟨hpos, by omega⟩, hin⟩
  · intro hbig
    rw [procCpuAffinityGet, herr hbig]
    rfl

/-! ## All or nothing -/

variable (h)

/-- `cpu_affinity(cpus)` raises and changes nothing, or returns and `cpu_affinity()` then shows the list, sorted. -/
def AllOrNothing (cpus : List Int) (affinity : Finset Nat) : Prop :=
  (∃ e, h.cpuAffinity cpus affinity = (.error e, affinity)) ∨
    ∃ affinity' wanted, h.cpuAffinity cpus affinity = (.ok (), affinity') ∧ h.wanted cpus = .ok wanted ∧
      h.cpuAffinityNone affinity' = .ok (some (sortedSet wanted))

/-- The call gets to the kernel, which accepts it. -/
def Proceeds (cpus : List Int) : Prop :=
  (h.proc.raiseIfPidReused .linux h.world).1 = none ∧ h.Accepts ∧ ∀ cpu ∈ cpus, h.Valid cpu

/-- All the CPUs can be set, and the masks of the kernel are not too large for the getter; or the value that was
prefetched is already this list. -/
def Shown (cpus : List Int) : Prop :=
  match h.prefetch with
  | some value => value = some (sortedSet cpus)
  | none => h.nrCpuIds ≤ 1073741824 ∧ ∀ cpu ∈ cpus, h.Settable cpu

variable {h}

/-- What the getter shows after the settable part of a list was set. -/
theorem cpuAffinityNone_eq_iff (hfound : (h.world.holder h.proc.pid).isSome) {cpus : List Int} {affinity : Finset Nat}
    (hmem : ∀ n : Nat, n ∈ affinity ↔ (n : Int) ∈ cpus ∧ h.Settable n) :
    h.cpuAffinityNone affinity = .ok (some (sortedSet cpus)) ↔ h.Shown cpus := by
  have hlt : ∀ n ∈ affinity, n < h.nrCpuIds := fun n hn => h.allowed_lt n ((hmem n).1 hn).2.2.2
  obtain ⟨hok, herr⟩ := procCpuAffinityGet_spec hfound hlt
  unfold cpuAffinityNone Shown
  cases h.prefetch with
  | some value => simp only [Except.ok.injEq]
  | none =>
    dsimp only
    by_cases hle : h.nrCpuIds ≤ 1073741824
    · obtain ⟨shown, hshown, hin⟩ := hok hle
      have hkept : ∀ cpu, cpu ∈ shown ↔ cpu ∈ cpus ∧ h.Settable cpu := by
        intro cpu
        rw [hin, hmem]
        constructor
        · rintro ⟨hpos, hc⟩
          rwa [Int.toNat_of_nonneg hpos] at hc
        · rintro ⟨hc, hs⟩
          refine ⟨hs.1, ?_⟩
          rw [Int.toNat_of_nonneg hs.1]
          exact ⟨hc, hs⟩
      simp only [hshown, Except.ok.injEq, Option.some.injEq, sortedSet_eq_iff, hkept, hle, true_and]
      exact forall_congr' fun cpu => and_iff_left_iff_imp
    · simp only [herr (not_le.1 hle), reduceCtorEq, hle, false_and]

/-- One call: the settable part of the list is set, or the call raises and changes nothing. -/
theorem cpuAffinity_run (cpus : List Int) :
    (∃ wanted, h.wanted cpus = .ok wanted ∧ h.Proceeds wanted ∧ (∃ cpu ∈ wanted, h.Settable cpu) ∧
      ∀ affinity, ∃ affinity', h.cpuAffinity cpus affinity = (.ok (), affinity') ∧
        ∀ n : Nat, n ∈ affinity' ↔ (n : Int) ∈ wanted ∧ h.Settable n) ∨
    (Eff.Raises (h.cpuAffinity cpus) ∧
      ∀ wanted, h.wanted cpus = .ok wanted → h.Proceeds wanted → ¬∃ cpu ∈ wanted, h.Settable cpu) := by
  unfold cpuAffinity
  cases hreused : (h.proc.raiseIfPidReused .linux h.world).1 with
  | some e =>
    refine Or.inr ⟨Eff.Raises.throw e, fun wanted _ hp => ?_⟩
    cases hreused.symm.trans hp.1
  | none =>
    cases hw : h.wanted cpus with
    | error e => exact Or.inr ⟨fun affinity => ⟨e, rfl⟩, fun wanted hwanted => by cases hwanted⟩
    | ok wanted =>
      have hvalid : (∀ cpu ∈ h.listSet wanted, h.Valid cpu) ↔ ∀ cpu ∈ wanted, h.Valid cpu := by
        simp only [h.mem_listSet]
      have hset : (∃ cpu ∈ h.listSet wanted, h.Settable cpu) ↔ ∃ cpu ∈ wanted, h.Settable cpu := by
        simp only [h.mem_listSet]
      by_cases hgood : h.Accepts ∧ (∀ cpu ∈ h.listSet wanted, h.Valid cpu) ∧ ∃ cpu ∈ h.listSet wanted, h.Settable cpu
      · refine Or.inl ⟨wanted, rfl, ⟨hreused, hgood.1, hvalid.1 hgood.2.1⟩, hset.1 hgood.2.2, fun affinity => ?_⟩
        obtain ⟨affinity', hok, hmem⟩ := procCpuAffinitySet_of_accepts hgood.1 hgood.2.1 hgood.2.2 affinity
        refine ⟨affinity', ?_, fun n => ?_⟩
        · exact cpuAffinitySet_of_ok hok
        · rw [hmem, h.mem_listSet]
      · refine Or.inr ⟨cpuAffinitySet_raises (procCpuAffinitySet_raises hgood), ?_⟩
        rintro _ hwanted ⟨-, ha, hv⟩ hs
        obtain rfl := Except.ok.inj hwanted
        exact hgood ⟨ha, hvalid.2 hv, hset.2 hs⟩

/-- A call that raises changes nothing. -/
theorem cpuAffinity_atomic {cpus : List Int} {affinity affinity' : Finset Nat} {e : Exc}
    (he : h.cpuAffinity cpus affinity = (.error e, affinity')) : affinity' = affinity := by
  rcases cpuAffinity_run (h := h) cpus with ⟨_, -, -, -, hok⟩ | ⟨hraises, -⟩
  · obtain ⟨_, hrun, -⟩ := hok affinity
    rw [hrun] at he
    cases he
  · obtain ⟨e', hrun⟩ := hraises affinity
    rw [hrun] at he
    exact (Prod.mk.inj he).2.symm

/-- **A call is all or nothing, exactly when a list with a CPU that the kernel keeps has no other ones, unless it has one
that the C function refuses.** -/
theorem cpu_affinity_iff (h : CpuHost) (cpus : List Int) (affinity : Finset Nat) :
    h.AllOrNothing cpus affinity ↔
      ∀ wanted, h.wanted cpus = .ok wanted → h.Proceeds wanted → (∃ cpu ∈ wanted, h.Settable cpu) → h.Shown wanted := by
  rcases cpuAffinity_run (h := h) cpus with ⟨wanted, hw, hp, hset, hok⟩ | ⟨hraises, hnone⟩
  · obtain ⟨affinity', hrun, hmem⟩ := hok affinity
    have hshown := cpuAffinityNone_eq_iff hp.2.1.1 hmem
    constructor
    · rintro (⟨e, he⟩ | ⟨_, _, hrun', hw', hnone⟩) wanted' hwanted - -
      · rw [hrun] at he
        cases he
      · obtain rfl := Except.ok.inj (hw.symm.trans hw')
        obtain rfl := Except.ok.inj (hw.symm.trans hwanted)
        obtain ⟨-, rfl⟩ := Prod.mk.inj (hrun.symm.trans hrun')
        exact hshown.1 hnone
    · intro hall
      exact Or.inr ⟨affinity', wanted, hrun, hw, hshown.2 (hall wanted hw hp hset)⟩
  · constructor
    · intro _ wanted hw hp hset
      exact absurd hset (hnone wanted hw hp)
    · exact fun _ => Or.inl (hraises affinity)

/-- The files of a machine with the CPUs 0 to 3. -/
def fourFiles : CpuFiles where
  status := .ok (ascii "Name:\tpython\nCpus_allowed:\tf\nCpus_allowed_list:\t0-3\n")
  stat := .ok (ascii ("cpu  8 0 4 4 0 0 0 0 0 0\ncpu0 2 0 1 1 0 0 0 0 0 0\ncpu1 2 0 1 1 0 0 0 0 0 0\n" ++
    "cpu2 2 0 1 1 0 0 0 0 0 0\ncpu3 2 0 1 1 0 0 0 0 0 0\nintr 0\n"))

/-- Process 7 on that machine. -/
def fourCpus : CpuHost where
  proc := ⟨7, none, none, (7, some 100), false, false, none⟩
  prefetch := none
  world := World.init.step (.birth 7 100 true)
  encoding := .utf8
  unicode := .ascii
  clockTicks := 100
  longMax := 9223372036854775807
  longMax_ge := by decide
  nrCpuIds := 4
  allowed := {0, 1, 2, 3}
  allowed_lt := by decide
  refuses := none
  asked := fourFiles
  failed := fourFiles
  zombie := false
  statExists := true
  listSet := List.dedup
  nodup_listSet := List.nodup_dedup
  mem_listSet _ _ := List.mem_dedup

example : fourCpus.wanted [] = .ok [0, 1, 2, 3] := by decide

/-- A CPU that is not there is dropped, next to one that is. -/
theorem cpu_affinity_drops : ¬∀ (h : CpuHost) (cpus : List Int) (affinity : Finset Nat), h.AllOrNothing cpus affinity := by
  intro h
  have hset : fourCpus.cpuAffinity [0, 5000] {0, 1, 2, 3} = (.ok (), {0}) := rfl
  have hget : fourCpus.cpuAffinityNone {0} = .ok (some [0]) := by decide
  rcases h fourCpus [0, 5000] {0, 1, 2, 3} with ⟨e, he⟩ | ⟨affinity', wanted, hok, hw, hshown⟩
  · rw [hset] at he
    cases he
  · obtain ⟨-, rfl⟩ := Prod.mk.inj (hset.symm.trans hok)
    obtain rfl : [0, 5000] = wanted := Except.ok.inj hw
    rw [hget] at hshown
    exact absurd hshown (by decide)

end CpuHost

end Psutil
