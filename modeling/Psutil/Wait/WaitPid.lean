import Psutil.Exc
import Psutil.Lib.Backoff
import Psutil.Lib.Double
import Psutil.Proc.Process

/-!
# Waiting for a PID (`_psposix.py:56-301`, `__init__.py:1612-1650`)

| here | there |
| --- | --- |
| `Syscalls` | `os.waitpid`, `os.kill`, `os.pidfd_open`, `poll()`, `kqueue()`, `time.monotonic`, `time.sleep` |
| `convertExitCode` | `convert_exit_code` (`:66`) |
| `sleepOrTimeout`, `pollPid`, `waitLoop`, `waitPidPosix` | `wait_pid_posix` (`:95`), its inner function and its two loops |
| `osWaitpid` | `_waitpid` (`:163`) |
| `waitPidPidfdOpen`, `waitPidKqueue`, `waitPid` | `:177`, `:206`, `:289` |
| `Process.wait` | `Process.wait` (`__init__.py:1612`) |

Times are rational seconds. A call that does not return, since the kernel blocks it for ever, is `none`; the
loops take fuel and are `none` without it.
-/

namespace Psutil

open Lib

/-- `None`, or a number of seconds that may be infinite. -/
abbrev Timeout := Option (WithTop ℚ)

/-- A status as `os.waitpid` reports it; the other ones are neither `WIFEXITED` nor `WIFSIGNALED`. -/
inductive RawStatus where
  | ended (status : WaitStatus)
  | other (raw : Nat)
  deriving DecidableEq, Repr

/-- The answers of `os.waitpid`. -/
inductive WaitReply where
  /-- `retpid == 0`. -/
  | running
  | status (st : RawStatus)
  | childProcessError
  deriving DecidableEq, Repr

/-- The calls the functions make, on a state of the operating system. -/
structure Syscalls (σ : Type) where
  now : σ → ℚ
  sleep : ℚ → σ → σ
  /-- `os.waitpid(pid, WNOHANG)`, or without the flag. -/
  waitpid : Nat → Bool → σ → Option (WaitReply × σ)
  /-- `pid_exists(pid)` (`:31`). -/
  pidExists : Nat → σ → Bool × σ
  /-- The error of `os.pidfd_open(pid, 0)`, if any. -/
  pidfdOpen : Nat → σ → Option Errno × σ
  /-- `poller.poll(ms)` on that descriptor: whether there was an event. -/
  poll : Option Int → σ → Option (Bool × σ)
  kqueue : σ → Option Errno × σ
  /-- `kq.control([kev], 1, timeout)`. -/
  control : Nat → Timeout → σ → Option (Except Exc Bool × σ)

/-- The result of a function that waits, and the state after it. -/
abbrev Waited (σ : Type) := Option (Except Exc (Option Int) × σ)

def convertExitCode : RawStatus → Except Exc Int
  | .ended (.exited code) => .ok code
  | .ended (.signaled sig) => .ok (-sig)
  | .other raw => .error (.valueError ("unknown process exit status " ++ toString raw))

/-! ## `wait_pid_posix` -/

/-- `interval` and `max_interval`. -/
def backoff : Backoff ℚ := ⟨1 / 10000, 1 / 25, by norm_num, by norm_num⟩

variable {σ : Type} (K : Syscalls σ)

def sleepOrTimeout (timeout : Timeout) (stopAt : Option (WithTop ℚ)) (interval : ℚ) (s : σ) : Except Exc (ℚ × σ) :=
  if timeout = some 0 ∨ ∃ t ∈ stopAt, t ≤ (K.now s : WithTop ℚ) then .error (.timeoutExpired timeout none none)
  else .ok (min (interval * 2) backoff.cap, K.sleep interval s)

/-- `while _pid_exists(pid)`, for a PID that is not a child. -/
def pollPid (pid : Nat) (timeout : Timeout) (stopAt : Option (WithTop ℚ)) : Nat → ℚ → σ → Waited σ
  | 0, _, _ => none
  | fuel + 1, interval, s =>
    match K.pidExists pid s with
    | (false, s) => some (.ok none, s)
    | (true, s) => match sleepOrTimeout K timeout stopAt interval s with
      | .error e => some (.error e, s)
      | .ok (interval, s) => pollPid pid timeout stopAt fuel interval s

/-- `while True`. -/
def waitLoop (pid : Nat) (timeout : Timeout) (stopAt : Option (WithTop ℚ)) : Nat → ℚ → σ → Waited σ
  | 0, _, _ => none
  | fuel + 1, interval, s =>
    match K.waitpid pid timeout.isSome s with
    | none => none
    | some (.childProcessError, s) => pollPid K pid timeout stopAt (fuel + 1) interval s
    | some (.running, s) => match sleepOrTimeout K timeout stopAt interval s with
      | .error e => some (.error e, s)
      | .ok (interval, s) => waitLoop pid timeout stopAt fuel interval s
    | some (.status st, s) => some ((convertExitCode st).map some, s)

/-- Half a unit above the largest float: from here on an int cannot be converted. -/
def floatLimit : ℚ := 2 ^ 1024 - 2 ^ 970

/-- `float(timeout)` raises `OverflowError`. -/
def Overflows : Timeout → Prop
  | none => False
  | some ⊤ => False
  | some (t : ℚ) => floatLimit ≤ |t|

instance : DecidablePred Overflows
  | none => inferInstanceAs (Decidable False)
  | some ⊤ => inferInstanceAs (Decidable False)
  | some (t : ℚ) => inferInstanceAs (Decidable (floatLimit ≤ |t|))

theorem not_overflows {t : ℚ} (h : |t| < 2 ^ 53) : ¬Overflows (some (t : WithTop ℚ)) := by
  have hlimit : (2 ^ 54 - 1 : ℚ) ≤ floatLimit :=
    calc (2 ^ 54 - 1 : ℚ)
        ≤ 2 ^ 970 * (2 ^ 54 - 1) := le_mul_of_one_le_left (by norm_num) (one_le_pow₀ (by norm_num))
      _ = floatLimit := by rw [floatLimit, mul_sub, mul_one, ← pow_add]
  exact not_le.2 (show |t| < floatLimit by linarith)

/-- `stop_at`, if it can be computed. -/
def stopAt (timeout : Timeout) (now : ℚ) : Option (WithTop ℚ) :=
  match timeout with
  | some t => if t ≠ 0 then some ((now : WithTop ℚ) + t) else none
  | none => none

def waitPidPosix (fuel pid : Nat) (timeout : Timeout) (s : σ) : Waited σ :=
  -- `_timer() + timeout` converts an int
  if Overflows timeout then some (.error .overflowError, s)
  else waitLoop K pid timeout (stopAt timeout (K.now s)) fuel backoff.first s

section

variable {K} {fuel pid : Nat} {timeout : Timeout} {s : σ}

theorem waitPidPosix_of_overflows (h : Overflows timeout) :
    waitPidPosix K fuel pid timeout s = some (.error .overflowError, s) := if_pos h

theorem waitPidPosix_of_not_overflows (h : ¬Overflows timeout) :
    waitPidPosix K fuel pid timeout s = waitLoop K pid timeout (stopAt timeout (K.now s)) fuel backoff.first s := if_neg h

end

/-! ## The event-driven functions -/

/-- `_waitpid(pid, timeout)`: on a PID that is not a child the whole timeout starts again. -/
def osWaitpid (fuel pid : Nat) (timeout : Timeout) (s : σ) : Waited σ :=
  match K.waitpid pid false s with
  | none => none
  | some (.childProcessError, s) => waitPidPosix K fuel pid timeout s
  | some (.running, s) => some (.error .assertionError, s)
  | some (.status st, s) => some ((convertExitCode st).map some, s)

/-- `int(timeout * 1000)`, and the range check of `poll()`, which takes a C `int`. The product of a float is rounded to a
float; that of an int is not, but differs from it only out of range (`timeoutMs_natCast`). -/
def timeoutMs : Timeout → Except Exc (Option Int)
  | none => .ok none
  | some ⊤ => .error .overflowError
  | some (t : ℚ) =>
    let product := double (t * 1000)
    let ms := product.num.tdiv product.den
    if ms ≤ 2 ^ 31 - 1 then .ok (some ms) else .error .overflowError

theorem timeoutMs_eq {t : ℚ} (h : 0 ≤ t) : timeoutMs (some (t : WithTop ℚ)) =
    if ⌊double (t * 1000)⌋ < 2147483648 then .ok (some ⌊double (t * 1000)⌋) else .error .overflowError := by
  have hpos : 0 ≤ double (t * 1000) := double_nonneg (by linarith)
  have hms : (double (t * 1000)).num.tdiv (double (t * 1000)).den = ⌊double (t * 1000)⌋ := by
    rw [Rat.floor_def', Int.tdiv_eq_ediv_of_nonneg (Rat.num_nonneg.2 hpos)]
  have hle : ⌊double (t * 1000)⌋ ≤ 2 ^ 31 - 1 ↔ ⌊double (t * 1000)⌋ < 2147483648 := by omega
  simp only [timeoutMs, hms, hle]

/-- The product of an int is exact as far as it is in range. -/
theorem timeoutMs_natCast (n : ℕ) : timeoutMs (some ((n : ℚ) : WithTop ℚ)) =
    if n * 1000 < 2147483648 then .ok (some (n * 1000)) else .error .overflowError := by
  have hnn : (0 : ℚ) ≤ n := n.cast_nonneg
  rw [timeoutMs_eq hnn]
  by_cases hn : n * 1000 < 2 ^ 53
  · have hexact : double ((n : ℚ) * 1000) = ((n * 1000 : ℤ) : ℚ) := by
      have habs : |(n * 1000 : ℤ)| < 2 ^ 53 := by
        rw [abs_of_nonneg (by positivity)]
        exact_mod_cast hn
      rw [← double_intCast habs]
      push_cast
      rfl
    rw [hexact, Int.floor_intCast]
    norm_cast
  · have hlarge : (2 ^ 53 : ℚ) ≤ n * 1000 := by exact_mod_cast not_lt.1 hn
    have herr := (abs_le.1 (abs_double_sub_le ((n : ℚ) * 1000))).1
    rw [abs_of_nonneg (by positivity)] at herr
    have hfloor : (2147483648 : ℤ) ≤ ⌊double ((n : ℚ) * 1000)⌋ := Int.le_floor.2 (by push_cast; linarith)
    rw [if_neg (not_lt.2 hfloor), if_neg (by omega)]

/-- What both functions do once `events` is there. -/
def afterEvents (fuel pid : Nat) (timeout : Timeout) (events : Bool) (s : σ) : Waited σ :=
  if events then osWaitpid K fuel pid timeout s else some (.error (.timeoutExpired timeout none none), s)

def waitPidPidfdOpen (fuel pid : Nat) (timeout : Timeout) (s : σ) : Waited σ :=
  match K.pidfdOpen pid s with
  | (some _, s) => waitPidPosix K fuel pid timeout s
  | (none, s) => match timeoutMs timeout with
    | .error e => some (.error e, s)
    | .ok ms => match K.poll ms s with
      | none => none
      | some (events, s) => afterEvents K fuel pid timeout events s

def waitPidKqueue (fuel pid : Nat) (timeout : Timeout) (s : σ) : Waited σ :=
  match K.kqueue s with
  | (some _, s) => waitPidPosix K fuel pid timeout s
  | (none, s) => match K.control pid timeout s with
    | none => none
    | some (.error (.osError errno), s) =>
      if errno = .eacces ∨ errno = .eperm ∨ errno = .esrch then waitPidPosix K fuel pid timeout s
      else some (.error (.osError errno), s)
    | some (.error e, s) => some (.error e, s)
    | some (.ok events, s) => afterEvents K fuel pid timeout events s

/-- The three ways to wait, chosen by `can_use_pidfd_open()` and `can_use_kqueue()`. -/
inductive WaitPath where
  | pidfdOpen | kqueue | posix
  deriving DecidableEq, Repr

def waitPath (path : WaitPath) (fuel pid : Nat) (timeout : Timeout) (s : σ) : Waited σ :=
  match path with
  | .pidfdOpen => waitPidPidfdOpen K fuel pid timeout s
  | .kqueue => waitPidKqueue K fuel pid timeout s
  | .posix => waitPidPosix K fuel pid timeout s

def waitPid (path : WaitPath) (fuel pid : Nat) (timeout : Timeout) (s : σ) : Waited σ :=
  if pid = 0 ∨ ∃ t ∈ timeout, t < 0 then some (.error .assertionError, s) else waitPath K path fuel pid timeout s

/-! ## `Process.wait` -/

/-- The argument of `Process.wait`: a number (not a NaN) comes with its text, any other object with that of its type. -/
inductive TimeoutArg where
  | none
  | number (t : WithTop ℚ) (text : String)
  | other (type : String)

/-- The checks of the argument. -/
def TimeoutArg.check : TimeoutArg → Except Exc Timeout
  | .none => .ok .none
  | .number t text =>
    if t < 0 then .error (.valueError ("timeout must be positive or zero (got " ++ text ++ ")")) else .ok (some t)
  | .other type => .error (.typeError ("timeout must be an int or float (got " ++ type ++ ")"))

/-- `wait(timeout)`: its outcome, the object after it, and the state after it. -/
def Process.wait (path : WaitPath) (fuel : Nat) (p : Process) (timeout : TimeoutArg) (s : σ) :
    Option (Except Exc (Option Int) × Process × σ) :=
  if p.pid = 0 then some (.error (.valueError "can't wait for PID 0"), p, s)
  else match timeout.check with
    | .error e => some (.error e, p, s)
    | .ok timeout => match p.exitcode with
      | some code => some (.ok code, p, s)
      | none => match waitPid K path fuel p.pid timeout s with
        | none => none
        | some (.ok code, s) => some (.ok code, { p with exitcode := some code }, s)
        | some (.error (.timeoutExpired _ _ _), s) => some (.error (.timeoutExpired timeout (some p.pid) p.name), p, s)
        | some (.error e, s) => some (.error e, p, s)

end Psutil
