import Psutil.Linux.Text

/-!
# `pids` and `pid_exists` on Linux

| here | there |
| --- | --- |
| `TaskTable.linuxPids`, `TaskTable.pids` | `pids` of `_pslinux.py:1547` and of `__init__.py:1755` |
| `TaskTable.posixPidExists` | `pid_exists` of `_psposix.py:29` |
| `TaskTable.linuxPidExists`, `TaskTable.pidExists` | `pid_exists` of `_pslinux.py:1553` and of `__init__.py:1763` |

The table does not change. `pid_exists_agrees_iff`: the fast path agrees with the list for every integer that is a
C `pid_t`, and for no other positive one, since `os.kill` then raises.
-/

namespace Psutil

open Bytes

/-- `x.isdigit()`. -/
def isdigit (x : Bytes) : Bool := x ≠ [] && x.all isDigit

/-- `int(line.split()[1])`. -/
def tgidField (line : Bytes) : Except Exc Int := do int (← getItem (split line) 1)

/-- The tasks of the system and what `/proc` shows of them. -/
structure TaskTable where
  /-- `os.listdir("/proc")`. -/
  names : List Bytes
  /-- The thread group of a task, that is its process. -/
  tgid : Nat → Option Nat
  /-- `kill(2)` gives `EPERM`. -/
  denied : Nat → Bool
  /-- `/proc/PID/status`. -/
  status : Nat → Except Errno Bytes
  /-- The directory lists the processes and no other thread. -/
  listed : ∀ p : Nat, (∃ x ∈ names, isdigit x = true ∧ int x = .ok p) ↔ tgid p = some p
  no_zero : tgid 0 = none
  pid_range : ∀ p t, tgid p = some t → p ≤ 2147483647
  tgid_line : ∀ p t data line, tgid p = some t → status p = .ok data →
    (data.splitOn 10).find? (startsWith · (ascii "Tgid:")) = some line → tgidField line = .ok t
  /-- The calling process. -/
  self : ∃ p, tgid p = some p

namespace TaskTable

variable (T : TaskTable)

def linuxPids : Except Exc (List Int) := (T.names.filter isdigit).mapM int

/-- `psutil.pids()`; `_LOWEST_PID` is left out. -/
def pids : Except Exc (List Int) := do
  let ret := (← T.linuxPids).mergeSort
  match ret with
  | [] => .error .indexError
  | _ :: _ => return ret

/-- `os.kill(pid, 0)`; the process groups of a `pid` that is not positive are left out. -/
def osKill (pid : Int) : Except Exc Unit :=
  if pid < -2147483648 ∨ 2147483647 < pid then .error .overflowError
  else if (T.tgid pid.toNat).isNone then .error (.osError .esrch)
  else if T.denied pid.toNat then .error (.osError .eperm)
  else .ok ()

def posixPidExists (pid : Int) : Except Exc Bool :=
  if pid = 0 then .ok true
  else match T.osKill pid with
    | .error (.osError .esrch) => .ok false
    | .error (.osError .eperm) => .ok true
    | .error e => .error e
    | .ok () => .ok true

/-- The `Tgid` of `/proc/PID/status`. -/
def readTgid (pid : Int) : Except Exc Int :=
  match T.status pid.toNat with
  | .error errno => .error (.osError errno)
  | .ok data => match (data.splitOn 10).find? (startsWith · (ascii "Tgid:")) with
    | some line => tgidField line
    | none => .error (.valueError ("'Tgid' line not found in /proc/" ++ toString pid ++ "/status"))

def linuxPidExists (pid : Int) : Except Exc Bool := do
  if !(← T.posixPidExists pid) then return false
  match T.readTgid pid with
  | .ok tgid => return tgid = pid
  | .error (.osError _) | .error (.valueError _) => return pid ∈ (← T.linuxPids)
  | .error e => .error e

/-- `psutil.pid_exists(pid)`. -/
def pidExists (pid : Int) : Except Exc Bool := do
  if pid < 0 then return false
  else if pid = 0 then return pid ∈ (← T.pids)
  else T.linuxPidExists pid

end TaskTable

/-! ## The list -/

/-- A name of digits is a number. -/
theorem int_isdigit {x : Bytes} (h : isdigit x = true) : ∃ n : Nat, int x = .ok n := by
  simp only [isdigit, Bool.and_eq_true, decide_eq_true_eq] at h
  exact ⟨digits x, int_of_digits h.1 (List.all_eq_true.1 h.2)⟩

namespace TaskTable

variable (T : TaskTable)

theorem mapM_int : ∀ (names : List Bytes), (∀ x ∈ names, isdigit x = true) →
    ∃ ls, names.mapM int = .ok ls ∧ ∀ p, p ∈ ls ↔ ∃ x ∈ names, int x = .ok p
  | [], _ => ⟨[], rfl, by simp⟩
  | x :: names, h => by
    obtain ⟨n, hn⟩ := int_isdigit (h x List.mem_cons_self)
    obtain ⟨ls, hls, hmem⟩ := mapM_int names fun y hy => h y (List.mem_cons_of_mem x hy)
    refine ⟨n :: ls, by rw [List.mapM_cons, hn, hls]; rfl, fun p => ?_⟩
    simp only [List.mem_cons, hmem, exists_eq_or_imp, hn, Except.ok.injEq]
    tauto

/-- The list of the platform module is that of the processes. -/
theorem linuxPids_spec : ∃ ls, T.linuxPids = .ok ls ∧ ∀ p, p ∈ ls ↔ ∃ n : Nat, p = n ∧ T.tgid n = some n := by
  obtain ⟨ls, hls, hmem⟩ := mapM_int (T.names.filter isdigit) fun x hx => (List.mem_filter.1 hx).2
  refine ⟨ls, hls, fun p => (hmem p).trans ?_⟩
  constructor
  · rintro ⟨x, hx, hp⟩
    obtain ⟨hname, hd⟩ := List.mem_filter.1 hx
    obtain ⟨n, hn⟩ := int_isdigit hd
    obtain rfl : p = n := Except.ok.inj (hp.symm.trans hn)
    exact ⟨n, rfl, (T.listed n).1 ⟨x, hname, hd, hn⟩⟩
  · rintro ⟨n, rfl, hn⟩
    obtain ⟨x, hname, hd, hx⟩ := (T.listed n).2 hn
    exact ⟨x, List.mem_filter.2 ⟨hname, hd⟩, hx⟩

/-- So is the public one, which is not empty. -/
theorem pids_spec : ∃ ls, T.pids = .ok ls ∧ ∀ p, p ∈ ls ↔ ∃ n : Nat, p = n ∧ T.tgid n = some n := by
  obtain ⟨ls, hls, hmem⟩ := T.linuxPids_spec
  obtain ⟨me, hme⟩ := T.self
  have hin : (me : Int) ∈ ls.mergeSort := List.mem_mergeSort.2 ((hmem me).2 ⟨me, rfl, hme⟩)
  refine ⟨ls.mergeSort, ?_, fun p => List.mem_mergeSort.trans (hmem p)⟩
  obtain ⟨a, as, has⟩ := List.exists_cons_of_ne_nil (List.ne_nil_of_mem hin)
  simp only [pids, hls, bind, Except.bind, has, pure, Except.pure]

/-! ## The fast path -/

/-- `pid_exists(pid)` returns, and tells whether the PID is in `pids()`. -/
def Agrees (pid : Int) : Prop := ∃ ls b, T.pids = .ok ls ∧ T.pidExists pid = .ok b ∧ (b = true ↔ pid ∈ ls)

variable {T}

theorem posixPidExists_big {pid : Int} (h : 2147483647 < pid) : T.posixPidExists pid = .error .overflowError := by
  have h0 : pid ≠ 0 := by omega
  have hbig : pid < -2147483648 ∨ 2147483647 < pid := Or.inr h
  simp only [posixPidExists, h0, if_false, osKill, if_pos hbig]

/-- `os.kill` finds every task, other threads included. -/
theorem posixPidExists_eq {n : Nat} (h0 : n ≠ 0) (h : n ≤ 2147483647) :
    T.posixPidExists n = .ok (T.tgid n).isSome := by
  have h0' : (n : Int) ≠ 0 := by omega
  have hfits : ¬((n : Int) < -2147483648 ∨ 2147483647 < (n : Int)) := by omega
  simp only [posixPidExists, h0', if_false, osKill, hfits, Int.toNat_natCast]
  cases T.tgid n with
  | none => simp
  | some t => by_cases hd : T.denied n = true <;> simp [hd]

/-- What the status file of a task gives: its process, or an error that leads to the list. -/
theorem readTgid_spec {n t : Nat} (ht : T.tgid n = some t) : T.readTgid n = .ok t ∨
    (∃ errno, T.readTgid n = .error (.osError errno)) ∨ ∃ msg, T.readTgid n = .error (.valueError msg) := by
  unfold readTgid
  rw [Int.toNat_natCast]
  cases hs : T.status n with
  | error errno => exact Or.inr (Or.inl ⟨errno, rfl⟩)
  | ok data =>
    dsimp only
    split
    · rename_i line hline
      exact Or.inl (T.tgid_line n t data line ht hs hline)
    · exact Or.inr (Or.inr ⟨_, rfl⟩)

theorem linuxPidExists_eq {n : Nat} (h0 : n ≠ 0) (h : n ≤ 2147483647) :
    T.linuxPidExists n = .ok (T.tgid n = some n) := by
  obtain ⟨ls, hls, hmem⟩ := T.linuxPids_spec
  have hin : ((n : Int) ∈ ls) = (T.tgid n = some n) := by
    rw [hmem, eq_iff_iff]
    constructor
    · rintro ⟨m, hm, htm⟩
      obtain rfl : n = m := Int.ofNat.inj hm
      exact htm
    · exact fun hn => ⟨n, rfl, hn⟩
  simp only [linuxPidExists, posixPidExists_eq h0 h, bind, Except.bind, pure, Except.pure]
  cases ht : T.tgid n with
  | none => simp
  | some t =>
    simp only [Option.isSome_some, Bool.not_true, Bool.false_eq_true, if_false]
    rcases readTgid_spec ht with hr | ⟨errno, hr⟩ | ⟨msg, hr⟩
    · simp [hr]
    · simp [hr, hls, hin, ht]
    · simp [hr, hls, hin, ht]

/-- **`pid_exists` agrees with `pids`, and does not raise, exactly for the integers up to the largest `pid_t`.** -/
theorem pid_exists_agrees_iff (T : TaskTable) (pid : Int) : T.Agrees pid ↔ pid ≤ 2147483647 := by
  obtain ⟨ls, hls, hmem⟩ := T.pids_spec
  constructor
  · rintro ⟨_, b, -, hb, -⟩
    by_contra hbig
    have hpos : ¬pid < 0 ∧ pid ≠ 0 := by omega
    simp only [pidExists, hpos, if_false, linuxPidExists, posixPidExists_big (not_le.1 hbig), bind, Except.bind] at hb
    cases hb
  · intro hle
    rcases lt_trichotomy pid 0 with hneg | rfl | hpos
    · refine ⟨ls, false, hls, by simp [pidExists, hneg, pure, Except.pure], ?_⟩
      have hout : pid ∉ ls := by
        rw [hmem]
        rintro ⟨n, rfl, -⟩
        omega
      simp [hout]
    · refine ⟨ls, decide (0 ∈ ls), hls, ?_, by simp⟩
      simp [pidExists, hls, bind, Except.bind, pure, Except.pure]
    · obtain ⟨n, rfl⟩ := Int.eq_ofNat_of_zero_le hpos.le
      have hn : n ≠ 0 ∧ n ≤ 2147483647 := by omega
      have hcond : ¬(n : Int) < 0 ∧ (n : Int) ≠ 0 := by omega
      refine ⟨ls, decide (T.tgid n = some n), hls, ?_, ?_⟩
      · simp only [pidExists, hcond, if_false, linuxPidExists_eq hn.1 hn.2]
      · rw [hmem, decide_eq_true_iff]
        constructor
        · exact fun h => ⟨n, rfl, h⟩
        · rintro ⟨m, hm, htm⟩
          obtain rfl : n = m := Int.ofNat.inj hm
          exact htm

/-- The calling process and nothing else. -/
def alone : TaskTable where
  names := [ascii "7", ascii "stat"]
  tgid n := if n = 7 then some 7 else none
  denied _ := false
  status _ := .error .enoent
  listed p := by
    have hnum : isdigit (ascii "7") = true ∧ int (ascii "7") = .ok 7 := by decide
    have hname : isdigit (ascii "stat") = false := by decide
    simp only [List.mem_cons, List.not_mem_nil, or_false, exists_eq_or_imp, exists_eq_left, hnum, hname]
    by_cases hp : p = 7
    · simp [hp]
    · have hne : (7 : Int) ≠ p := by omega
      simp [hp, hne]
  no_zero := rfl
  pid_range p t h := by
    split at h
    · omega
    · cases h
  tgid_line p t data line _ h := by cases h
  self := ⟨7, rfl⟩

/-- `os.kill` takes no integer beyond the `pid_t` range. -/
theorem pid_exists_raises : ¬∀ (T : TaskTable) (pid : Int), T.Agrees pid := by
  intro h
  obtain ⟨ls, b, -, hb, -⟩ := h alone 2147483648
  exact absurd hb (by cases b <;> decide)

end TaskTable

end Psutil
