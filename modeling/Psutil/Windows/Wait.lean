import Psutil.Wait.WaitPid

/-!
# `Process.wait()` on Windows

| here | there |
| --- | --- |
| `phandleIsRunning`, `pidIsRunning` | `phandle_is_running`, `psutil_pid_is_running` (`arch/windows/proc_utils.c:43`, `:123`) |
| `waitForSingleObject`, `procWait` | `psutil_proc_wait` (`arch/windows/proc.c:168`) |
| `convertOserror` | `convert_oserror`, `wrap_exceptions` (`_pswindows.py:585-604`) |
| `late`, `pollLoop`, `platWait` | `Process.wait` (`_pswindows.py:836`) |
| `wait` | `Process.wait` (`__init__.py:1612`) |

A run has the moments at which the call looks at the clock, at the handle and at the PID, and what it then finds. Between
two polls lies at least the sleep. `eacces` is `ERROR_ACCESS_DENIED`, `eperm` the other permission error of `is_permission_err`.
`wait_ends`: a timeout ends the call. `wait_returns_iff`: the exit code is returned exactly when the conversion to a `long` keeps
it, the wait on the handle was long enough, and some poll in time finds nobody under the PID.
-/

namespace Psutil.WinWait

open Lib

/-! ## The PID list -/

/-- `STILL_ACTIVE`, which is also an exit code like any other. -/
def stillActive : Nat := 259

/-- What the system tells about a PID at one moment. -/
structure PidView where
  /-- `OpenProcess`, and `GetExitCodeProcess` on its handle. -/
  opened : Option (Except Errno Nat)
  /-- Whether the list has the PID, when it is read and when it is read after an error. -/
  listed : Except Exc Bool
  relisted : Except Exc Bool

def phandleIsRunning (v : PidView) : Except Errno Nat → Except Exc Bool
  | .error .eacces => .ok true
  | .error errno => .error (.osError errno)
  -- the process appears to be gone; the list decides
  | .ok code => if code = stillActive then .ok true else v.listed

/-- `psutil.pid_exists(pid)`. -/
def pidIsRunning (pid : Nat) (v : PidView) : Except Exc Bool :=
  if pid = 0 then .ok true
  else match v.opened with
    | none => v.listed
    | some code => match phandleIsRunning v code with
      | .ok running => .ok running
      | .error _ => v.relisted

/-! ## A run -/

/-- The answers of `OpenProcess` to `psutil_proc_wait`. -/
inductive OpenReply where
  | handle
  | invalidParameter
  /-- It fails with `ERROR_SUCCESS`. -/
  | success
  | failed (errno : Errno)
  deriving DecidableEq

/-- The ends of `WaitForSingleObject`. -/
inductive WaitEnd where
  | object0 | timeout | abandoned
  | failed (errno : Errno)
  deriving DecidableEq

/-- `delay` and its limit. -/
def delays : Backoff ℚ := ⟨0.0001, 0.04, by norm_num, by norm_num⟩

/-- One call. -/
structure Run where
  proc : Process
  timeout : TimeoutArg
  opened : OpenReply
  /-- `WaitForSingleObject` fails or is abandoned. -/
  fault : Option WaitEnd
  /-- When the process of the handle ends, if it does, and `GetExitCodeProcess`. -/
  exitAt : Option ℚ
  exitCode : Except Errno Nat
  /-- Which process has the PID in the list; that of the handle is number 0. -/
  holder : ℚ → Option Nat
  view : ℚ → PidView
  /-- `stop_at` is computed, the handle is waited on; the `k`-th poll, and the look at the clock after it. -/
  startAt : ℚ
  waitAt : ℚ
  pollAt : ℕ → ℚ
  clockAt : ℕ → ℚ
  listed_eq : ∀ t listed, (view t).listed = .ok listed ∨ (view t).relisted = .ok listed → listed = (holder t).isSome
  start_le : startAt ≤ waitAt
  wait_le : waitAt ≤ pollAt 0
  poll_le : ∀ k, pollAt k ≤ clockAt k
  sleep_le : ∀ k, clockAt k + delays.interval k ≤ pollAt (k + 1)

/-- The results of `psutil_proc_wait`. -/
inductive ProcWait where
  | none
  | code (exitCode : Int)
  | timeoutExpired | timeoutAbandoned
  | raised (e : Exc)

/-- `(long)ExitCode`. -/
def toLong (code : Nat) : Int := if code < 2147483648 then code else code - 4294967296

def convertOserror (p : Process) : Exc → Exc
  | .osError .eacces | .osError .eperm => .accessDenied p.pid p.name
  | .osError .esrch => .noSuchProcess p.pid p.name noSuchProcessMsg
  | e => e

namespace Run

variable (r : Run)

/-- Without an end it waits for ever. -/
def waitForSingleObject (ms : Option Int) : Option WaitEnd :=
  match r.fault, r.exitAt, ms with
  | some fault, _, _ => some fault
  | none, none, none => none
  | none, none, some _ => some .timeout
  | none, some _, none => some .object0
  | none, some exitAt, some ms => if exitAt ≤ r.waitAt + ms / 1000 then some .object0 else some .timeout

def procWait (ms : Option Int) : Option ProcWait :=
  if r.proc.pid = 0 then some (.raised (.osError .eacces))
  else match r.opened with
    | .invalidParameter => some .none
    | .success => match pidIsRunning r.proc.pid (r.view r.waitAt) with
      | .ok false => some .none
      | .ok true => some (.raised (.osError .eacces))
      | .error e => some (.raised e)
    | .failed errno => some (.raised (.osError errno))
    | .handle => match r.waitForSingleObject ms with
      | none => none
      | some (.failed errno) => some (.raised (.osError errno))
      | some .timeout => some .timeoutExpired
      | some .abandoned => some .timeoutAbandoned
      | some .object0 => match r.exitCode with
        | .ok code => some (.code (toLong code))
        | .error errno => some (.raised (.osError errno))

/-! ## `_pswindows.py` -/

/-- `stop_at`. -/
def stopAt (timeout : Timeout) : Option (WithTop ℚ) := timeout.map ((r.startAt : WithTop ℚ) + ·)

/-- `pid_exists(self.pid)`, in the `k`-th round. -/
def polled (k : ℕ) : Except Exc Bool := pidIsRunning r.proc.pid (r.view (r.pollAt k))

/-- `stop_at and timer() >= stop_at`. -/
def late (timeout : Timeout) (k : ℕ) : Prop := ∃ stop ∈ r.stopAt timeout, stop ≠ 0 ∧ stop ≤ (r.clockAt k : WithTop ℚ)

instance (timeout : Timeout) (k : ℕ) : Decidable (r.late timeout k) := inferInstanceAs (Decidable (∃ _ ∈ _, _))

/-- `while True`, from the `k`-th round on. -/
def pollLoop (timeout : Timeout) (exitCode : Option Int) : (fuel k : ℕ) → Option (Except Exc (Option Int))
  | 0, _ => none
  | fuel + 1, k => match r.polled k with
    | .error e => some (.error (convertOserror r.proc e))
    | .ok false => some (.ok exitCode)
    | .ok true =>
      if r.late timeout k then some (.error (.timeoutExpired timeout (some r.proc.pid) r.proc.name))
      else pollLoop timeout exitCode fuel (k + 1)

/-- `_pswindows.Process.wait(timeout)`. -/
def platWait (timeout : Timeout) (fuel : ℕ) : Option (Except Exc (Option Int)) :=
  match timeoutMs timeout with
  | .error e => some (.error e)
  | .ok ms => match r.procWait ms with
    | none => none
    | some (.raised e) => some (.error (convertOserror r.proc e))
    | some .timeoutExpired => some (.error (.timeoutExpired timeout (some r.proc.pid) r.proc.name))
    | some .timeoutAbandoned | some .none => r.pollLoop timeout none fuel 0
    | some (.code code) => r.pollLoop timeout (some code) fuel 0

/-! ## `__init__.py` -/

/-- `wait(timeout)`: its outcome, and the object after it. -/
def wait (fuel : ℕ) : Option (Except Exc (Option Int) × Process) :=
  let p := r.proc
  if p.pid = 0 then some (.error (.valueError "can't wait for PID 0"), p)
  else match r.timeout.check with
    | .error e => some (.error e, p)
    | .ok timeout => match p.exitcode with
      | some code => some (.ok code, p)
      | none => match r.platWait timeout fuel with
        | none => none
        | some (.ok code) => some (.ok code, { p with exitcode := some code })
        | some (.error (.timeoutExpired _ _ _)) => some (.error (.timeoutExpired timeout (some p.pid) p.name), p)
        | some (.error e) => some (.error e, p)

/-! ## The polls -/

variable {r} {timeout : Timeout} {exitCode : Option Int}

/-- A PID that is found free is not in the list. -/
theorem holder_of_polled {k : ℕ} (hk : r.polled k = .ok false) : r.holder (r.pollAt k) = none := by
  have hlisted : (r.view (r.pollAt k)).listed = .ok false ∨ (r.view (r.pollAt k)).relisted = .ok false := by
    revert hk
    unfold polled pidIsRunning
    split
    · rintro ⟨⟩
    · cases (r.view (r.pollAt k)).opened with
      | none => exact Or.inl
      | some code =>
        dsimp only
        cases hp : phandleIsRunning (r.view (r.pollAt k)) code with
        | error e => exact Or.inr
        | ok running =>
          rintro ⟨⟩
          refine Or.inl ?_
          cases code with
          | error errno => cases errno <;> cases hp
          | ok code =>
            rw [phandleIsRunning] at hp
            split at hp
            · cases hp
            · exact hp
  exact Option.isNone_iff_eq_none.1 (Option.isSome_eq_false_iff.1 (r.listed_eq _ _ hlisted).symm)

/-- Some poll finds the PID free, and no one before it fails or comes too late. -/
def FreeFrom (r : Run) (timeout : Timeout) (k : ℕ) : Prop :=
  ∃ n ≥ k, r.polled n = .ok false ∧ ∀ j, k ≤ j → j < n → r.polled j = .ok true ∧ ¬r.late timeout j

theorem pollLoop_ok : ∀ {fuel k : ℕ} {code : Option Int}, r.pollLoop timeout exitCode fuel k = some (.ok code) →
    code = exitCode ∧ r.FreeFrom timeout k
  | fuel + 1, k, code, h => by
    rw [pollLoop] at h
    cases hp : r.polled k with
    | error e => simp [hp] at h
    | ok running =>
      cases running with
      | false =>
        simp only [hp, Option.some.injEq, Except.ok.injEq] at h
        exact ⟨h.symm, k, le_rfl, hp, fun j hj hlt => absurd hlt (not_lt.2 hj)⟩
      | true =>
        by_cases hlate : r.late timeout k
        · simp [hp, hlate] at h
        · simp only [hp, if_neg hlate] at h
          obtain ⟨hcode, n, hn, hfree, hbefore⟩ := pollLoop_ok h
          refine ⟨hcode, n, k.le_succ.trans hn, hfree, fun j hj hlt => ?_⟩
          rcases hj.eq_or_lt with rfl | hjk
          · exact ⟨hp, hlate⟩
          · exact hbefore j hjk hlt

theorem pollLoop_of_free : ∀ {n k : ℕ}, r.polled (k + n) = .ok false →
    (∀ j, k ≤ j → j < k + n → r.polled j = .ok true ∧ ¬r.late timeout j) →
    r.pollLoop timeout exitCode (n + 1) k = some (.ok exitCode)
  | 0, k, hfree, _ => by rw [pollLoop, show r.polled k = .ok false from hfree]
  | n + 1, k, hfree, hbefore => by
    obtain ⟨htaken, hlate⟩ := hbefore k le_rfl (by omega)
    rw [pollLoop, htaken]
    simp only [if_neg hlate]
    refine pollLoop_of_free ?_ fun j hj hlt => hbefore j (by omega) (by omega)
    rwa [show k + 1 + n = k + (n + 1) by omega]

/-- What the polling returns, when it returns. -/
theorem exists_pollLoop_iff : (∃ fuel, r.pollLoop timeout exitCode fuel 0 = some (.ok exitCode)) ↔ r.FreeFrom timeout 0 := by
  constructor
  · rintro ⟨fuel, h⟩
    exact (pollLoop_ok h).2
  · rintro ⟨n, -, hfree, hbefore⟩
    exact ⟨n + 1, pollLoop_of_free (by rwa [Nat.zero_add]) fun j hj hlt => hbefore j hj (by omega)⟩

/-- The clock goes on by the sleeps at least. -/
theorem elapsed_le_clockAt (r : Run) (k : ℕ) : r.startAt + delays.elapsed k ≤ r.clockAt k := by
  induction k with
  | zero =>
    rw [Backoff.elapsed_zero, add_zero]
    exact r.start_le.trans (r.wait_le.trans (r.poll_le 0))
  | succ k ih =>
    have hsleep := r.sleep_le k
    have hpoll := r.poll_le (k + 1)
    rw [Backoff.elapsed_succ]
    linarith

/-- A timeout ends the polling. -/
theorem exists_late {T : ℚ} (hstop : r.startAt + T ≠ 0) : ∃ k, r.late (some (T : WithTop ℚ)) k := by
  obtain ⟨k, hk⟩ := delays.exists_le_elapsed T
  have hclock := elapsed_le_clockAt r k
  refine ⟨k, ((r.startAt + T : ℚ) : WithTop ℚ), rfl, ?_, ?_⟩
  · exact_mod_cast hstop
  · exact WithTop.coe_le_coe.2 (by linarith)

theorem pollLoop_of_late : ∀ {n k : ℕ}, r.late timeout (k + n) → (r.pollLoop timeout exitCode (n + 1) k).isSome
  | 0, k, hlate => by
    rw [pollLoop]
    cases r.polled k with
    | error e => rfl
    | ok running => cases running <;> simp [show r.late timeout k from hlate]
  | n + 1, k, hlate => by
    rw [pollLoop]
    cases r.polled k with
    | error e => rfl
    | ok running =>
      cases running with
      | false => rfl
      | true =>
        dsimp only
        split
        · rfl
        · exact pollLoop_of_late (by rwa [show k + 1 + n = k + (n + 1) by omega])

/-! ## The whole call -/

variable (r)

/-- The process of the handle ends with `code` before the deadline, and leaves the list before the deadline. Whoever gets the
PID then is not restricted. -/
structure ExitsInTime (timeout : Timeout) (ms : Option Int) (exitAt : ℚ) (code : Nat) : Prop where
  pid_ne : r.proc.pid ≠ 0
  fresh : r.proc.exitcode = none
  check : r.timeout.check = .ok timeout
  ms_eq : timeoutMs timeout = .ok ms
  opened : r.opened = .handle
  fault : r.fault = none
  exitAt_eq : r.exitAt = some exitAt
  exit_le : exitAt ≤ r.pollAt 0
  exitCode_eq : r.exitCode = .ok code
  before : ∀ stop ∈ r.stopAt timeout, (exitAt : WithTop ℚ) < stop
  vanishes : ∃ t ≥ exitAt, (∀ stop ∈ r.stopAt timeout, (t : WithTop ℚ) < stop) ∧ ∀ t' ≥ t, r.holder t' ≠ some 0

/-- `wait()` returns the exit code, after finitely many rounds. -/
def Returns (code : Nat) : Prop := ∃ fuel p, r.wait fuel = some (.ok (some (code : Int)), p)

/-- The end falls into the milliseconds that the handle is waited on. -/
def Covers (ms : Option Int) (exitAt : ℚ) : Prop := ∀ n ∈ ms, exitAt ≤ r.waitAt + n / 1000

variable {r} {ms : Option Int} {exitAt : ℚ} {code : Nat}

theorem platWait_of_covers (h : r.ExitsInTime timeout ms exitAt code) (hc : r.Covers ms exitAt) (fuel : ℕ) :
    r.platWait timeout fuel = r.pollLoop timeout (some (toLong code)) fuel 0 := by
  have hwait : r.waitForSingleObject ms = some .object0 := by
    unfold waitForSingleObject
    rw [h.fault, h.exitAt_eq]
    cases ms with
    | none => rfl
    | some n => exact if_pos (hc n rfl)
  simp only [platWait, h.ms_eq, procWait, h.pid_ne, if_false, h.opened, hwait, h.exitCode_eq]

theorem platWait_of_not_covers (h : r.ExitsInTime timeout ms exitAt code) (hc : ¬r.Covers ms exitAt) (fuel : ℕ) :
    r.platWait timeout fuel = some (.error (.timeoutExpired timeout (some r.proc.pid) r.proc.name)) := by
  have hwait : r.waitForSingleObject ms = some .timeout := by
    unfold Covers at hc
    unfold waitForSingleObject
    rw [h.fault, h.exitAt_eq]
    cases ms with
    | none => simp at hc
    | some n => exact if_neg (by simpa using hc)
  simp only [platWait, h.ms_eq, procWait, h.pid_ne, if_false, h.opened, hwait]

theorem wait_ok_iff (h : r.ExitsInTime timeout ms exitAt code) {fuel : ℕ} {value : Option Int} :
    (∃ p, r.wait fuel = some (.ok value, p)) ↔ r.platWait timeout fuel = some (.ok value) := by
  unfold wait
  simp only [h.pid_ne, if_false, h.check, h.fresh]
  cases r.platWait timeout fuel with
  | none => simp
  | some result =>
    cases result with
    | ok value' => simp
    | error e => cases e <;> simp

/-- A `DWORD` is a `long` only in its lower half. -/
theorem toLong_eq_iff (code : Nat) : toLong code = code ↔ code < 2147483648 := by
  unfold toLong
  split <;> omega

/-- The exit code gets through the wait, the conversion and the polling. -/
theorem returns_iff (h : r.ExitsInTime timeout ms exitAt code) :
    r.Returns code ↔ code < 2147483648 ∧ r.Covers ms exitAt ∧ r.FreeFrom timeout 0 := by
  have hplat : r.Returns code ↔ ∃ fuel, r.platWait timeout fuel = some (.ok (some (code : Int))) :=
    exists_congr fun fuel => wait_ok_iff h
  rw [hplat]
  by_cases hc : r.Covers ms exitAt
  · simp only [platWait_of_covers h hc, hc, true_and, ← toLong_eq_iff]
    constructor
    · rintro ⟨fuel, hfuel⟩
      obtain ⟨hcode, hfree⟩ := pollLoop_ok hfuel
      exact ⟨(Option.some.inj hcode).symm, hfree⟩
    · rintro ⟨hcode, hfree⟩
      rw [hcode]
      exact exists_pollLoop_iff.2 hfree
  · simp only [platWait_of_not_covers h hc, hc, false_and, and_false, Option.some.injEq, reduceCtorEq, exists_false]

/-- With a timeout every call ends. -/
theorem wait_ends (h : r.ExitsInTime timeout ms exitAt code) {T : ℚ} (hT : timeout = some (T : WithTop ℚ))
    (hstop : r.startAt + T ≠ 0) : ∃ fuel, (r.wait fuel).isSome := by
  subst hT
  obtain ⟨k, hlate⟩ := exists_late (r := r) hstop
  have hplat : (r.platWait (some (T : WithTop ℚ)) (k + 1)).isSome := by
    by_cases hc : r.Covers ms exitAt
    · rw [platWait_of_covers h hc]
      exact pollLoop_of_late (by rwa [Nat.zero_add])
    · rw [platWait_of_not_covers h hc]
      rfl
  refine ⟨k + 1, ?_⟩
  obtain ⟨result, hresult⟩ := Option.isSome_iff_exists.1 hplat
  unfold wait
  simp only [h.pid_ne, if_false, h.check, h.fresh, hresult]
  cases result with
  | ok value => rfl
  | error e => cases e <;> rfl

/-- **The exit code of a process that ends in time is returned exactly when** it is below `2 ^ 31`, the milliseconds of the wait
cover the end, and some poll finds the PID free, before the deadline and before an error. -/
theorem wait_returns_iff (r : Run) {timeout : Timeout} {ms : Option Int} {exitAt : ℚ} {code : Nat}
    (h : r.ExitsInTime timeout ms exitAt code) :
    r.Returns code ↔ code < 2147483648 ∧ (∀ n ∈ ms, exitAt ≤ r.waitAt + n / 1000) ∧
      ∃ k, r.polled k = .ok false ∧ ∀ j < k, r.polled j = .ok true ∧ ¬r.late timeout j := by
  rw [returns_iff h, Covers, FreeFrom]
  simp

/-- A call with a timeout of one second. The process ends after a tenth of it with exit code 3, leaves the list after another
one, and the PID goes to `next`. -/
def oneSecond (next : Option Nat) : Run where
  proc := ⟨7, none, none, (7, none), false, false, none⟩
  timeout := .number (1 : ℚ) "1"
  opened := .handle
  fault := none
  exitAt := some (1001 / 10)
  exitCode := .ok 3
  holder t := if t < 1002 / 10 then some 0 else next
  view t :=
    let listed := (if t < 1002 / 10 then some 0 else next).isSome
    ⟨none, .ok listed, .ok listed⟩
  startAt := 100
  waitAt := 100
  pollAt k := 1003 / 10 + delays.elapsed k
  clockAt k := 1003 / 10 + delays.elapsed k
  listed_eq t listed h := by rcases h with h | h <;> exact (Except.ok.inj h).symm
  start_le := le_rfl
  wait_le := by rw [Backoff.elapsed_zero]; norm_num
  poll_le _ := le_rfl
  sleep_le k := by rw [Backoff.elapsed_succ, add_assoc]

/-- Its deadline. -/
theorem oneSecond_stopAt (next : Option Nat) : (oneSecond next).stopAt (some (1 : ℚ)) = some (101 : ℚ) := by
  change some (((100 : ℚ) : WithTop ℚ) + ((1 : ℚ) : WithTop ℚ)) = _
  rw [← WithTop.coe_add]
  norm_num

theorem oneSecond_exitsInTime {next : Option Nat} (h : next ≠ some 0) :
    (oneSecond next).ExitsInTime (some (1 : ℚ)) (some 1000) (1001 / 10) 3 where
  pid_ne := Nat.succ_ne_zero 6
  fresh := rfl
  check := rfl
  ms_eq := timeoutMs_natCast 1
  opened := rfl
  fault := rfl
  exitAt_eq := rfl
  exit_le := by
    change (1001 / 10 : ℚ) ≤ 1003 / 10 + delays.elapsed 0
    rw [Backoff.elapsed_zero]
    norm_num
  exitCode_eq := rfl
  before := by
    rw [oneSecond_stopAt]
    rintro _ ⟨⟩
    exact WithTop.coe_lt_coe.2 (by norm_num)
  vanishes := by
    rw [oneSecond_stopAt]
    refine ⟨1002 / 10, by norm_num, ?_, fun t ht => ?_⟩
    · rintro _ ⟨⟩
      exact WithTop.coe_lt_coe.2 (by norm_num)
    · exact fun hn => h (by rwa [show (oneSecond next).holder t = next from if_neg (not_lt.2 ht)] at hn)

/-- The exit code is there if nobody gets the PID. -/
theorem wait_returns_unused : (oneSecond none).Returns 3 := by
  have hfree : (oneSecond none).polled 0 = .ok false := by
    have hafter : ¬(1003 / 10 + delays.elapsed 0 < 1002 / 10) := by
      rw [Backoff.elapsed_zero]
      norm_num
    change Except.ok (if 1003 / 10 + delays.elapsed 0 < 1002 / 10 then some 0 else none).isSome = _
    rw [if_neg hafter]
    rfl
  refine (wait_returns_iff (oneSecond none) (oneSecond_exitsInTime (by decide))).2 ⟨by decide, ?_, 0, hfree, by simp⟩
  rintro _ ⟨⟩
  change (1001 / 10 : ℚ) ≤ 100 + 1000 / 1000
  norm_num

/-- It is lost when the PID goes to another process between the exit and the first poll. -/
theorem wait_loses_exit : ¬∀ (r : Run) (timeout : Timeout) (ms : Option Int) (exitAt : ℚ) (code : Nat),
    r.ExitsInTime timeout ms exitAt code → r.Returns code := by
  intro h
  have hin : (oneSecond (some 1)).ExitsInTime (some (1 : ℚ)) (some 1000) (1001 / 10) 3 := oneSecond_exitsInTime (by decide)
  obtain ⟨-, -, k, -, hfree, -⟩ := (returns_iff hin).1 (h _ _ _ _ _ hin)
  -- the PID is held at any time, first by the process of the handle and then by the other one
  have hnone : (if (oneSecond (some 1)).pollAt k < 1002 / 10 then some 0 else some 1) = none := holder_of_polled hfree
  split at hnone <;> cases hnone

end Run

end Psutil.WinWait
