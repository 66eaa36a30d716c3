import Psutil.Lib.Run
import Psutil.Windows.Wait

/-!
# Fast and slow getters on Windows

| here | there |
| --- | --- |
| `handleFromPid` | `psutil_handle_from_pid` (`arch/windows/proc_utils.c:76-116`), with `pid_in_pids` |
| `procTimes`, `procMemoryInfo`, `procIoCounters`, `procNumHandles` | the functions of `arch/windows/proc.c` on a handle |
| `procOneshot` | `psutil_proc_oneshot` (`proc.c:49-137`), on an entry of `psutil_proc_table` |
| `ProcState.oneshot` | `_oneshot` under `memoize_when_activated` |
| `ProcState.fallback` and the getters | `Process` of `_pswindows.py:633-1064`, under `wrap_exceptions` |

A handle may be denied; the table of all processes never is, but is slow to get. Floats are rational numbers. `getters_agree`: with
a denied handle and without one a getter says the same, except the creation time of PID 4.
-/

namespace Psutil.WinProcess

open Lib WinWait

/-! ## The system -/

structure ThreadInfo where
  contextSwitches : Nat
  /-- `ThreadState == Waiting` and `WaitReason == Suspended`. -/
  suspended : Bool

structure IoCounters where
  readOperationCount : Nat
  writeOperationCount : Nat
  readTransferCount : Nat
  writeTransferCount : Nat
  otherOperationCount : Nat
  otherTransferCount : Nat
  deriving DecidableEq

/-- The fields of `PROCESS_MEMORY_COUNTERS_EX`; the table calls the last one `PrivatePageCount`. -/
structure MemoryCounters where
  pageFaultCount : Nat
  peakWorkingSetSize : Nat
  workingSetSize : Nat
  quotaPeakPagedPoolUsage : Nat
  quotaPagedPoolUsage : Nat
  quotaPeakNonPagedPoolUsage : Nat
  quotaNonPagedPoolUsage : Nat
  pagefileUsage : Nat
  peakPagefileUsage : Nat
  privateUsage : Nat
  deriving DecidableEq

/-- What is read of an entry of the process table. The times are in units of 100 ns. -/
structure ProcInfo where
  handleCount : Nat
  threads : List ThreadInfo
  createTime : Nat
  userTime : Nat
  kernelTime : Nat
  io : IoCounters
  memory : MemoryCounters
  hardFaultCount : Nat

inductive OpenError where
  | invalidParameter
  /-- `OpenProcess` fails with `ERROR_SUCCESS`. -/
  | success
  | failed (errno : Errno)
  deriving DecidableEq

/-- `GetExitCodeProcess` on a handle, and what the functions that query one say. -/
structure Handle where
  exitCode : Except Errno Nat
  info : Except Errno ProcInfo

/-- The answers at one moment, by PID. -/
structure WinSystem where
  openProcess : Nat → Except OpenError Handle
  listed : Nat → Except Exc Bool
  table : Nat → Option ProcInfo

/-! ## The C functions -/

def handleFromPid (s : WinSystem) (pid : Nat) : Except Exc Handle :=
  if pid = 0 then .error (.osError .eacces)
  else match s.openProcess pid with
    | .error .invalidParameter => .error (.osError .esrch)
    | .error .success => match s.listed pid with
      | .ok true => .error (.osError .eacces)
      | .ok false => .error (.osError .esrch)
      | .error e => .error e
    | .error (.failed errno) => .error (.osError errno)
    | .ok h => match phandleIsRunning ⟨some h.exitCode, s.listed pid, s.listed pid⟩ h.exitCode with
      | .ok true => .ok h
      | .ok false => .error (.osError .esrch)
      | .error e => .error e

/-- A function that opens the process and queries the handle. -/
def queryHandle {α : Type} (s : WinSystem) (pid : Nat) (read : ProcInfo → α) : Except Exc α := do
  let h ← handleFromPid s pid
  (h.info.mapError .osError).map read

/-- `high * HI_T + low * LO_T`. -/
def cpuSeconds (t : Nat) : ℚ := (t / 2 ^ 32 : ℕ) * 429.4967296 + (t % 2 ^ 32 : ℕ) * 1e-7

/-- `_to_unix_time`. -/
def toUnixTime (t : Nat) : ℚ := ((t + (2 ^ 64 - 116444736000000000)) % 2 ^ 64 : ℕ) / 10000000

/-- `(user, system, created)`. -/
def procTimes (s : WinSystem) (pid : Nat) : Except Exc (ℚ × ℚ × ℚ) := do
  let h ← handleFromPid s pid
  match h.info with
  -- usually means that the process has died
  | .error .eacces => .error (.osError .esrch)
  | .error errno => .error (.osError errno)
  | .ok p => .ok (cpuSeconds p.userTime, cpuSeconds p.kernelTime, toUnixTime p.createTime)

def procMemoryInfo (s : WinSystem) (pid : Nat) : Except Exc MemoryCounters := queryHandle s pid ProcInfo.memory

def procIoCounters (s : WinSystem) (pid : Nat) : Except Exc IoCounters := queryHandle s pid ProcInfo.io

def procNumHandles (s : WinSystem) (pid : Nat) : Except Exc Nat := queryHandle s pid ProcInfo.handleCount

/-- The dictionary of `psutil_proc_oneshot`. -/
structure Oneshot where
  numHandles : Nat
  ctxSwitches : Nat
  isSuspended : Bool
  userTime : ℚ
  kernelTime : ℚ
  createTime : ℚ
  numThreads : Nat
  io : IoCounters
  memory : MemoryCounters
  hardFaultCount : Nat

def Oneshot.ofEntry (pid : Nat) (p : ProcInfo) : Oneshot where
  numHandles := p.handleCount
  ctxSwitches := (p.threads.map ThreadInfo.contextSwitches).sum % 2 ^ 32
  isSuspended := p.threads.all ThreadInfo.suspended
  userTime := cpuSeconds p.userTime
  kernelTime := cpuSeconds p.kernelTime
  createTime := if pid = 0 ∨ pid = 4 then 0 else toUnixTime p.createTime
  numThreads := p.threads.length
  io := p.io
  memory := p.memory
  hardFaultCount := p.hardFaultCount

def procOneshot (s : WinSystem) (pid : Nat) : Except Exc Oneshot :=
  match s.table pid with
  | some p => .ok (.ofEntry pid p)
  | none => .error (.osError .esrch)

/-! ## The getters -/

def isPermissionErr : Exc → Bool
  | .osError .eacces | .osError .eperm => true
  | _ => false

/-- The object, in the system as it is. `seen` is a ghost: the entries of the PID since the `oneshot()` block was entered, or now. -/
structure ProcState where
  proc : Process
  sys : WinSystem
  depth : Nat
  cache : Option Oneshot
  seen : List ProcInfo

namespace ProcState

variable (st : ProcState) (next : WinSystem)

/-- `_oneshot()`, with the system at that moment. An exception is not kept. -/
def oneshot : Except Exc Oneshot × Option Oneshot :=
  match st.cache with
  | some d => (.ok d, some d)
  | none => match procOneshot next st.proc.pid with
    | .ok d => (.ok d, if 0 < st.depth then some d else none)
    | .error e => (.error e, none)

/-- `try: fast; except OSError: slow`, for a permission error. -/
def fallback {α : Type} (fast : Except Exc α) (slow : Oneshot → α) : Except Exc α × Option Oneshot :=
  match fast with
  | .ok a => (.ok a, st.cache)
  | .error e => if isPermissionErr e then ((st.oneshot next).1.map slow, (st.oneshot next).2) else (.error e, st.cache)

/-- A getter that has no fast path. -/
def table {α : Type} (slow : Oneshot → α) : Except Exc α × Option Oneshot := ((st.oneshot next).1.map slow, (st.oneshot next).2)

end ProcState

inductive Reply where
  | cpuTimes (user system : ℚ)
  | createTime (t : ℚ)
  | memory (raw : MemoryCounters)
  | io (counters : IoCounters)
  | count (n : Nat)
  | stopped (b : Bool)
  | pageFaults (minor major : Int)
  deriving DecidableEq

inductive Getter where
  | cpuTimes | createTime | memoryInfo | ioCounters | numHandles
  | numThreads | status | numCtxSwitches | pageFaults
  deriving DecidableEq

/-- What a getter takes from the dictionary. -/
def Getter.slow (g : Getter) (d : Oneshot) : Reply :=
  match g with
  | .cpuTimes => .cpuTimes d.userTime d.kernelTime
  | .createTime => .createTime d.createTime
  | .memoryInfo => .memory d.memory
  | .ioCounters => .io d.io
  | .numHandles => .count d.numHandles
  | .numThreads => .count d.numThreads
  | .status => .stopped d.isSuspended
  | .numCtxSwitches => .count d.ctxSwitches
  | .pageFaults => .pageFaults (d.memory.pageFaultCount - d.hardFaultCount) d.hardFaultCount

/-- Its fast path, if it has one. -/
def Getter.fast (g : Getter) (s : WinSystem) (pid : Nat) : Option (Except Exc Reply) :=
  match g with
  | .cpuTimes => some ((procTimes s pid).map fun t => .cpuTimes t.1 t.2.1)
  | .createTime => some ((procTimes s pid).map fun t => .createTime t.2.2)
  | .memoryInfo => some ((procMemoryInfo s pid).map .memory)
  | .ioCounters => some ((procIoCounters s pid).map .io)
  | .numHandles => some ((procNumHandles s pid).map .count)
  | .numThreads | .status | .numCtxSwitches | .pageFaults => none

/-- The getter under `wrap_exceptions`; the table is read when the system is `next`. -/
def Getter.get (g : Getter) (st : ProcState) (next : WinSystem) : Except Exc Reply × Option Oneshot :=
  let r := match g.fast st.sys st.proc.pid with
    | some fast => st.fallback next fast g.slow
    | none => st.table next g.slow
  (r.1.mapError (convertOserror st.proc), r.2)

inductive ProcEv where
  /-- The system goes on. -/
  | become (sys : WinSystem)
  /-- `with p.oneshot()` and its end. -/
  | enter
  | exit
  | get (g : Getter) (next : WinSystem)

/-- The entry of the PID, if any. -/
def ProcState.entry (st : ProcState) (s : WinSystem) : List ProcInfo := (s.table st.proc.pid).toList

def ProcState.become (st : ProcState) (s : WinSystem) : ProcState :=
  { st with sys := s, seen := if st.depth = 0 then st.entry s else st.entry s ++ st.seen }

def winProcess : Machine ProcState ProcEv (Option (Getter × Except Exc Reply)) where
  step st
    | .become s => (st.become s, none)
    -- an inner block does nothing
    | .enter => (if st.depth = 0 then { st with depth := 1, cache := none, seen := st.entry st.sys } else { st with depth := st.depth + 1 }, none)
    | .exit => (if st.depth = 1 then { st with depth := 0, cache := none, seen := st.entry st.sys } else { st with depth := st.depth - 1 }, none)
    | .get g next =>
      let (ans, cache) := g.get st next
      ({ st.become next with cache := cache }, some (g, ans))

/-! ## What the system can say -/

/-- A process in the table opens, with its own numbers, or is denied; any other PID is unknown, or a handle on it has an exit code
other than `STILL_ACTIVE`. -/
inductive Regular (s : WinSystem) (pid : Nat) : Prop
  | running (p : ProcInfo) (htable : s.table pid = some p) (hlisted : s.listed pid = .ok true)
      (hopen : (∃ h, s.openProcess pid = .ok h ∧ h.info = .ok p ∧ ∀ e, h.exitCode = .error e → e = .eacces) ∨
        s.openProcess pid = .error .success ∨ ∃ e, s.openProcess pid = .error (.failed e) ∧ isPermissionErr (.osError e))
  | gone (htable : s.table pid = none) (hlisted : s.listed pid = .ok false)
      (hopen : (∃ h code, s.openProcess pid = .ok h ∧ h.exitCode = .ok code ∧ code ≠ stillActive) ∨
        s.openProcess pid = .error .success ∨ s.openProcess pid = .error .invalidParameter)

/-- `psutil_handle_from_pid` in such a system. -/
theorem Regular.handle {s : WinSystem} {pid : Nat} (h : Regular s pid) :
    (∃ hd p, handleFromPid s pid = .ok hd ∧ pid ≠ 0 ∧ s.table pid = some p ∧ hd.info = .ok p) ∨
      (∃ e, handleFromPid s pid = .error e ∧ isPermissionErr e ∧ (pid = 0 ∨ (s.table pid).isSome)) ∨
      handleFromPid s pid = .error (.osError .esrch) ∧ s.table pid = none := by
  rw [handleFromPid]
  by_cases hzero : pid = 0
  · exact Or.inr (Or.inl ⟨_, if_pos hzero, rfl, Or.inl hzero⟩)
  rw [if_neg hzero]
  cases h with
  | running p htable hlisted hopen =>
    rcases hopen with ⟨hd, hopen, hinfo, hexit⟩ | hopen | ⟨e, hopen, hperm⟩
    · refine Or.inl ⟨hd, p, ?_, hzero, htable, hinfo⟩
      have hrunning : phandleIsRunning ⟨some hd.exitCode, s.listed pid, s.listed pid⟩ hd.exitCode = .ok true := by
        cases hcode : hd.exitCode with
        | error e =>
          cases hexit e hcode
          rfl
        | ok code =>
          rw [phandleIsRunning]
          split_ifs
          · rfl
          · exact hlisted
      rw [hopen]
      dsimp only
      rw [hrunning]
    · exact Or.inr (Or.inl ⟨.osError .eacces, by rw [hopen, hlisted], rfl, Or.inr (by rw [htable]; rfl)⟩)
    · exact Or.inr (Or.inl ⟨.osError e, by rw [hopen], hperm, Or.inr (by rw [htable]; rfl)⟩)
  | gone htable hlisted hopen =>
    refine Or.inr (Or.inr ⟨?_, htable⟩)
    rcases hopen with ⟨hd, code, hopen, hexit, hcode⟩ | hopen | hopen
    · rw [hopen]
      dsimp only
      rw [hexit, phandleIsRunning, if_neg hcode, hlisted]
    · rw [hopen, hlisted]
    · rw [hopen]

/-- `HI_T` and `LO_T` together turn units of 100 ns into seconds. -/
theorem cpuSeconds_eq (t : Nat) : cpuSeconds t = t / 10000000 := by
  have hsplit : ((t / 2 ^ 32 * 2 ^ 32 + t % 2 ^ 32 : ℕ) : ℚ) = t := by rw [Nat.div_add_mod']
  push_cast at hsplit
  rw [cpuSeconds, ← hsplit]
  norm_num
  ring

/-- The one place where the table says something else. -/
def Differs (g : Getter) (pid : Nat) : Prop := g = .createTime ∧ pid = 4

/-- Without a handle the fast path fails alike. -/
theorem Getter.fast_error {s : WinSystem} {pid : Nat} (g : Getter) {fast : Except Exc Reply} (hfast : g.fast s pid = some fast) {e : Exc}
    (hhandle : handleFromPid s pid = .error e) : fast = .error e := by
  cases g <;> simp only [Getter.fast, procTimes, procMemoryInfo, procIoCounters, procNumHandles, queryHandle, hhandle, bind, Except.bind,
    Except.map, Option.some.injEq, reduceCtorEq] at hfast <;> exact hfast.symm

/-- What the fast path comes to. -/
theorem Regular.fast {s : WinSystem} {pid : Nat} (h : Regular s pid) {g : Getter} {fast : Except Exc Reply} (hfast : g.fast s pid = some fast) :
    (∃ p, s.table pid = some p ∧ (fast = .ok (g.slow (.ofEntry pid p)) ∨ Differs g pid ∧ fast = .ok (.createTime (toUnixTime p.createTime)))) ∨
      (∃ e, fast = .error e ∧ isPermissionErr e ∧ (pid = 0 ∨ (s.table pid).isSome)) ∨
      fast = .error (.osError .esrch) ∧ s.table pid = none := by
  rcases h.handle with ⟨hd, p, hhandle, hzero, htable, hinfo⟩ | ⟨e, hhandle, hperm, hsome⟩ | ⟨hhandle, htable⟩
  · refine Or.inl ⟨p, htable, ?_⟩
    by_cases hdiff : Differs g pid
    · obtain ⟨rfl, rfl⟩ := hdiff
      refine Or.inr ⟨⟨rfl, rfl⟩, ?_⟩
      rw [Getter.fast, procTimes, hhandle] at hfast
      simp only [bind, Except.bind, hinfo, Except.map, Option.some.injEq] at hfast
      exact hfast.symm
    · refine Or.inl ?_
      cases g with
      | createTime =>
        have hfour : ¬(pid = 0 ∨ pid = 4) := not_or.2 ⟨hzero, fun h4 => hdiff ⟨rfl, h4⟩⟩
        rw [Getter.fast, procTimes, hhandle] at hfast
        simp only [bind, Except.bind, hinfo, Except.map, Option.some.injEq] at hfast
        rw [← hfast, Getter.slow, Oneshot.ofEntry, if_neg hfour]
      | cpuTimes =>
        rw [Getter.fast, procTimes, hhandle] at hfast
        simp only [bind, Except.bind, hinfo, Except.map, Option.some.injEq] at hfast
        exact hfast.symm
      | memoryInfo =>
        rw [Getter.fast, procMemoryInfo, queryHandle, hhandle] at hfast
        simp only [bind, Except.bind, hinfo, Except.map, Except.mapError, Option.some.injEq] at hfast
        exact hfast.symm
      | ioCounters =>
        rw [Getter.fast, procIoCounters, queryHandle, hhandle] at hfast
        simp only [bind, Except.bind, hinfo, Except.map, Except.mapError, Option.some.injEq] at hfast
        exact hfast.symm
      | numHandles =>
        rw [Getter.fast, procNumHandles, queryHandle, hhandle] at hfast
        simp only [bind, Except.bind, hinfo, Except.map, Except.mapError, Option.some.injEq] at hfast
        exact hfast.symm
      | numThreads => cases hfast
      | status => cases hfast
      | numCtxSwitches => cases hfast
      | pageFaults => cases hfast
  · exact Or.inr (Or.inl ⟨e, g.fast_error hfast hhandle, hperm, hsome⟩)
  · exact Or.inr (Or.inr ⟨g.fast_error hfast hhandle, htable⟩)

/-! ## Runs -/

def ProcState.start (proc : Process) (sys : WinSystem) : ProcState := ⟨proc, sys, 0, none, (sys.table proc.pid).toList⟩

/-- The moments a call can speak of. -/
def ProcState.moments (st : ProcState) (next : WinSystem) : List ProcInfo := st.entry next ++ st.seen

structure ProcInv (proc : Process) (st : ProcState) : Prop where
  proc_eq : st.proc = proc
  regular : Regular st.sys st.proc.pid
  now : ∀ p, st.sys.table st.proc.pid = some p → p ∈ st.seen
  cached : ∀ d, st.cache = some d → 0 < st.depth ∧ ∃ p ∈ st.seen, d = .ofEntry st.proc.pid p

section

variable {proc : Process} {st : ProcState} (h : ProcInv proc st) (next : WinSystem)

include h

/-- The dictionary is that of an entry since the block was entered, and so is what is kept of it. -/
theorem ProcInv.oneshot : ((∃ p ∈ st.moments next, (st.oneshot next).1 = .ok (.ofEntry st.proc.pid p)) ∨
      (st.oneshot next).1 = .error (.osError .esrch) ∧ next.table st.proc.pid = none) ∧
    ∀ d, (st.oneshot next).2 = some d → 0 < st.depth ∧ ∃ p ∈ st.moments next, d = .ofEntry st.proc.pid p := by
  rw [ProcState.oneshot]
  cases hcache : st.cache with
  | some d =>
    obtain ⟨hdepth, p, hp, rfl⟩ := h.cached d hcache
    refine ⟨Or.inl ⟨p, List.mem_append_right _ hp, rfl⟩, fun d' hd' => ?_⟩
    cases hd'
    exact ⟨hdepth, p, List.mem_append_right _ hp, rfl⟩
  | none =>
    rw [procOneshot]
    cases htable : next.table st.proc.pid with
    | none => exact ⟨Or.inr ⟨rfl, rfl⟩, fun d hd => nomatch hd⟩
    | some p =>
      have hp : p ∈ st.moments next := List.mem_append_left _ (by rw [ProcState.entry, htable]; exact List.mem_singleton.2 rfl)
      refine ⟨Or.inl ⟨p, hp, rfl⟩, fun d hd => ?_⟩
      dsimp only at hd
      split_ifs at hd with hdepth
      cases hd
      exact ⟨hdepth, p, hp, rfl⟩

/-- One call. -/
theorem ProcInv.get (g : Getter) : ((∃ p ∈ st.moments next, (g.get st next).1 = .ok (g.slow (.ofEntry st.proc.pid p))) ∨
      (Differs g st.proc.pid ∧ ∃ p ∈ st.moments next, (g.get st next).1 = .ok (.createTime (toUnixTime p.createTime))) ∨
      (g.get st next).1 = .error (.noSuchProcess st.proc.pid st.proc.name noSuchProcessMsg) ∧
        (st.sys.table st.proc.pid = none ∨ next.table st.proc.pid = none)) ∧
    ∀ d, (g.get st next).2 = some d → 0 < st.depth ∧ ∃ p ∈ st.moments next, d = .ofEntry st.proc.pid p := by
  have hkeep : ∀ d, st.cache = some d → 0 < st.depth ∧ ∃ p ∈ st.moments next, d = .ofEntry st.proc.pid p := fun d hd =>
    (h.cached d hd).imp_right fun ⟨p, hp, hpd⟩ => ⟨p, List.mem_append_right _ hp, hpd⟩
  obtain ⟨hone, hkept⟩ := h.oneshot next
  -- the table decides
  have hslow : (∃ p ∈ st.moments next, (((st.oneshot next).1.map g.slow).mapError (convertOserror st.proc)) =
        .ok (g.slow (.ofEntry st.proc.pid p))) ∨
      ((st.oneshot next).1.map g.slow).mapError (convertOserror st.proc) =
          .error (.noSuchProcess st.proc.pid st.proc.name noSuchProcessMsg) ∧ next.table st.proc.pid = none := by
    rcases hone with ⟨p, hp, heq⟩ | ⟨heq, hnone⟩
    · exact Or.inl ⟨p, hp, by rw [heq]; rfl⟩
    · exact Or.inr ⟨by rw [heq]; rfl, hnone⟩
  cases hfast : g.fast st.sys st.proc.pid with
  | none =>
    rw [Getter.get, hfast]
    exact ⟨hslow.imp_right fun hs => Or.inr (hs.imp_right Or.inr), hkept⟩
  | some fast =>
    rw [Getter.get, hfast]
    rcases h.regular.fast hfast with ⟨p, htable, hok | ⟨hdiff, hok⟩⟩ | ⟨e, heq, hperm, -⟩ | ⟨heq, hnone⟩
    · rw [hok]
      exact ⟨Or.inl ⟨p, List.mem_append_right _ (h.now p htable), rfl⟩, hkeep⟩
    · rw [hok]
      exact ⟨Or.inr (Or.inl ⟨hdiff, p, List.mem_append_right _ (h.now p htable), rfl⟩), hkeep⟩
    · simp only [heq, ProcState.fallback, hperm, if_true]
      exact ⟨hslow.imp_right fun hs => Or.inr (hs.imp_right Or.inr), hkept⟩
    · rw [heq]
      exact ⟨Or.inr (Or.inr ⟨rfl, Or.inl hnone⟩), hkeep⟩

theorem ProcInv.become {s : WinSystem} (hs : Regular s st.proc.pid) {cache : Option Oneshot}
    (hcache : ∀ d, cache = some d → 0 < st.depth ∧ ∃ p ∈ st.moments s, d = .ofEntry st.proc.pid p) :
    ProcInv proc { st.become s with cache := cache } := by
  refine ⟨h.proc_eq, hs, fun p hp => ?_, fun d hd => ?_⟩
  · have hentry : p ∈ st.entry s := by rw [ProcState.entry, show s.table st.proc.pid = some p from hp]; exact List.mem_singleton.2 rfl
    change p ∈ if st.depth = 0 then st.entry s else st.entry s ++ st.seen
    split_ifs
    · exact hentry
    · exact List.mem_append_left _ hentry
  · obtain ⟨hdepth, p, hp, hpd⟩ := hcache d hd
    refine ⟨hdepth, p, ?_, hpd⟩
    change p ∈ if st.depth = 0 then st.entry s else st.entry s ++ st.seen
    rwa [if_neg hdepth.ne']

end

/-- The systems an event brings. -/
def ProcEv.Regular (pid : Nat) : ProcEv → Prop
  | .become s => WinProcess.Regular s pid
  | .get _ next => WinProcess.Regular next pid
  | .enter | .exit => True

theorem ProcInv.step {proc : Process} {st : ProcState} (h : ProcInv proc st) (e : ProcEv) (he : e.Regular proc.pid) :
    ProcInv proc (winProcess.step st e).1 := by
  have hhere : ∀ {depth : Nat}, ProcInv proc { st with depth := depth, cache := none, seen := st.entry st.sys } := fun {depth} =>
    ⟨h.proc_eq, h.regular, fun p hp => by
      change p ∈ (st.sys.table st.proc.pid).toList
      rw [show st.sys.table st.proc.pid = some p from hp]
      exact List.mem_singleton.2 rfl, fun d hd => nomatch hd⟩
  rw [← h.proc_eq] at he
  cases e with
  | become s =>
    have hcache : ∀ d, st.cache = some d → 0 < st.depth ∧ ∃ p ∈ st.moments s, d = .ofEntry st.proc.pid p := fun d hd =>
      (h.cached d hd).imp_right fun ⟨p, hp, hpd⟩ => ⟨p, List.mem_append_right _ hp, hpd⟩
    exact h.become he hcache
  | get g next => exact h.become he (h.get next g).2
  | enter =>
    change ProcInv proc (if st.depth = 0 then _ else _)
    split_ifs
    · exact hhere
    · exact ⟨h.proc_eq, h.regular, h.now, fun d hd => ⟨Nat.succ_pos _, (h.cached d hd).2⟩⟩
  | exit =>
    change ProcInv proc (if st.depth = 1 then _ else _)
    split_ifs with hone
    · exact hhere
    · refine ⟨h.proc_eq, h.regular, h.now, fun d hd => ⟨?_, (h.cached d hd).2⟩⟩
      have := (h.cached d hd).1
      change 0 < st.depth - 1
      omega

/-- **Rights change nothing but the creation time of PID 4.** In any run, with `oneshot()` blocks and rights that come and go, a getter
returns what the table had for the PID at some moment of the call or since the block was entered; it raises `NoSuchProcess`, and
only when the PID was not in the table at one of its two looks; it never raises `AccessDenied`. For PID 4 the creation time is that of
the entry when the handle opens, and zero otherwise. -/
theorem getters_agree (proc : Process) (sys : WinSystem) (hsys : Regular sys proc.pid) (es : List ProcEv) (hes : ∀ e ∈ es, e.Regular proc.pid) :
    ∀ l ∈ winProcess.trace (.start proc sys) es, ∀ g next, l.ev = .get g next → ∃ ans, l.out = some (g, ans) ∧
      ((∃ p ∈ l.pre.moments next, ans = .ok (g.slow (.ofEntry proc.pid p))) ∨
        (Differs g proc.pid ∧ ∃ p ∈ l.pre.moments next, ans = .ok (.createTime (toUnixTime p.createTime))) ∨
        ans = .error (.noSuchProcess proc.pid proc.name noSuchProcessMsg) ∧
          (l.pre.sys.table proc.pid = none ∨ next.table proc.pid = none)) := by
  intro l hl g next hev
  have hstart : ProcInv proc (.start proc sys) :=
    ⟨rfl, hsys, fun p hp => by
      change p ∈ (sys.table proc.pid).toList
      rw [show sys.table proc.pid = some p from hp]
      exact List.mem_singleton.2 rfl, fun d hd => nomatch hd⟩
  have hlines : ∀ l ∈ winProcess.trace (.start proc sys) es, l.ev.Regular proc.pid := by
    intro l hl
    obtain ⟨es₁, es₂, rfl, -, -⟩ := winProcess.mem_trace.1 hl
    exact hes l.ev (by simp)
  have hstep : ∀ st e, ProcInv proc st → e.Regular proc.pid → ProcInv proc (winProcess.step st e).1 := fun _ e h he => h.step e he
  obtain ⟨hinv, hout⟩ := winProcess.lines_of_inv_of (C := fun l => l.ev.Regular proc.pid) hstep hstart hlines hl
  refine ⟨(g.get l.pre next).1, by rw [hout, hev]; rfl, ?_⟩
  have hget := (hinv.get next g).1
  rwa [hinv.proc_eq] at hget

/-- A service with one thread. -/
def service : ProcInfo := ⟨12, [⟨7, false⟩], 133000000000000000, 50000000, 20000000, ⟨1, 2, 3, 4, 5, 6⟩, ⟨9, 8, 7, 6, 5, 4, 3, 2, 1, 10⟩, 2⟩

def serviceProc : Process := ⟨100, none, none, (100, none), false, false, none⟩

/-- Its handle opens, or is denied. -/
def serviceSystem (denied : Bool) : WinSystem where
  openProcess := fun _ => if denied then .error (.failed .eacces) else .ok ⟨.ok stillActive, .ok service⟩
  listed := fun _ => .ok true
  table := fun _ => some service

theorem regular_service : ∀ denied, Regular (serviceSystem denied) serviceProc.pid
  | false => .running service rfl rfl (Or.inl ⟨_, rfl, rfl, fun _ he => nomatch he⟩)
  | true => .running service rfl rfl (Or.inr (Or.inr ⟨.eacces, rfl, rfl⟩))

/-- The rights go away within the block. -/
def serviceState : ProcState := winProcess.run (.start serviceProc (serviceSystem false)) [.enter, .become (serviceSystem true)]

theorem getters_agree_service : ∃ ans : Except Exc Reply,
    (winProcess.step serviceState (.get .numHandles (serviceSystem true))).2 = some (.numHandles, ans) ∧
      ans ≠ .error (.accessDenied 100 none) := by
  obtain ⟨ans, hout, hans⟩ := getters_agree serviceProc (serviceSystem false) (regular_service false)
    [.enter, .become (serviceSystem true), .get .numHandles (serviceSystem true)]
    (by simp only [List.forall_mem_cons, List.not_mem_nil, false_imp_iff, implies_true, and_true, ProcEv.Regular, regular_service])
    ⟨serviceState, .get .numHandles (serviceSystem true), (winProcess.step serviceState (.get .numHandles (serviceSystem true))).2⟩
    (winProcess.mem_trace.2 ⟨[.enter, .become (serviceSystem true)], [], rfl, rfl, rfl⟩) .numHandles (serviceSystem true) rfl
  refine ⟨ans, hout, fun h => ?_⟩
  rcases hans with ⟨p, -, hp⟩ | ⟨-, p, -, hp⟩ | ⟨hp, -⟩ <;> · rw [hp] at h; cases h

end Psutil.WinProcess
