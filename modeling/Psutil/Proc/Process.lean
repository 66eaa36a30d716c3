import Psutil.Exc
import Psutil.Proc.World

/-!
# `Process` objects (`__init__.py:390-1650`), identity, signals and setters

| here | there |
| --- | --- |
| `Process` | the attributes `_pid`, `_name`, `_ppid`, `_ident`, `_gone`, `_pid_reused`, `_exitcode` |
| `getIdent`, `Process.new` | `_get_ident` (`:452`), `_init` (`:413`) |
| `cmpIdents`, `Process.isRunning` | `_cmp_idents` (`:520`), `is_running` (`:763`) |
| `Process.raiseIfPidReused` | `_raise_if_pid_reused` (`:576`) |
| `Process.sendSignal`, `Process.set` | `_send_signal` (`:1523`), the setters with a value (`:942`, `:1019`, `:1042`, `:1062`) |

A method call is one atomic step on the process table. Zombies are listed with their creation time, so on
POSIX the constructor can only fail with `NoSuchProcess`. What a method changes outside its object is
returned: the object itself, whether the PID was added to `_pids_reused`, and what was done to the PID.
-/

namespace Psutil

open Lib

/-- `(pid, ctime)`; `None` where the creation time is not used. -/
abbrev Ident := Nat × Option Nat

structure Process where
  pid : Nat
  name : Option String
  ppid : Option Nat
  ident : Ident
  gone : Bool
  pidReused : Bool
  /-- `_SENTINEL` is `none`. -/
  exitcode : Option (Option Int)
  deriving DecidableEq

/-- The outcomes of `_cmp_idents`. -/
inductive IdentCmp where
  | same | different | unknown
  deriving DecidableEq, Repr

/-- `not ctime`. -/
def isNull : Option Nat → Bool
  | none => true
  | some c => c = 0

def cmpIdents (ident1 ident2 : Ident) : IdentCmp :=
  if ident1.1 ≠ ident2.1 then .different
  else if isNull ident1.2 || isNull ident2.2 then .unknown
  else if ident1.2 = ident2.2 then .same
  else .different

theorem cmpIdents_self (i : Ident) : cmpIdents i i ≠ .different := by
  unfold cmpIdents
  rw [if_neg (not_not.2 rfl)]
  split <;> simp

theorem cmpIdents_comm (i j : Ident) : cmpIdents i j = cmpIdents j i := by
  unfold cmpIdents
  simp only [ne_eq, @eq_comm _ i.1 j.1, Bool.or_comm (isNull i.2), @eq_comm _ i.2 j.2]

/-- `_get_ident`; `none` is `NoSuchProcess`, raised by the read of the creation time. -/
def getIdent (os : Os) (w : World) (pid : Nat) : Option Ident :=
  (w.holder pid).map fun e => (pid, if os.monotonicIdent then some e.ctime else none)

namespace Process

/-- `Process(pid)`. -/
def new (os : Os) (w : World) (pid : Nat) : Except Exc Process :=
  if pid > pidMax then .error (.noSuchProcess pid none "process PID out of range")
  else match getIdent os w pid with
    | some ident => .ok ⟨pid, none, none, ident, false, false, none⟩
    | none => .error (.noSuchProcess pid none "process PID not found")

/-- `self == other`. -/
def eq (p other : Process) : Bool := cmpIdents p.ident other.ident ≠ .different

/-- The result of `is_running`, the object after it, and whether its PID went to `_pids_reused`. -/
structure Running where
  result : Bool
  proc : Process
  detected : Bool

def isRunning (os : Os) (w : World) (p : Process) : Running :=
  if p.gone || p.pidReused then ⟨false, p, false⟩
  else match new os w p.pid with
    | .ok other =>
      -- the `NoSuchProcess` raised for a reused PID is caught in the same method
      if p.eq other then ⟨true, p, false⟩ else ⟨false, { p with pidReused := true, gone := true }, true⟩
    | .error _ => ⟨false, { p with gone := true }, false⟩

def pidReusedMsg : String := "process no longer exists and its PID has been reused"

/-- `_raise_if_pid_reused`: the exception, if any, and the effects of the `is_running` call in it. -/
def raiseIfPidReused (os : Os) (w : World) (p : Process) : Option Exc × Process × Bool :=
  if p.pidReused then (some (.noSuchProcess p.pid p.name pidReusedMsg), p, false)
  else
    let r := p.isRunning os w
    (if !r.result && r.proc.pidReused then some (.noSuchProcess p.pid p.name pidReusedMsg) else none, r.proc, r.detected)

end Process

/-- The signals the methods send; `num` is any number given to `send_signal`. -/
inductive Signal where
  | sigstop | sigcont | sigterm | sigkill | num (sig : Int)
  deriving DecidableEq, Repr

/-- A setter called with a value. -/
inductive Setter where
  | nice (value : Int)
  | ionice (ioclass : Int) (value : Option Int)
  | rlimit (resource : Int) (limits : List Int)
  | cpuAffinity (cpus : List Int)
  deriving DecidableEq, Repr

/-- What is done to a PID. -/
inductive Action where
  | signal (sig : Signal)
  | set (setter : Setter)
  deriving DecidableEq, Repr

/-- A method call: its outcome, the object after it, whether the PID went to `_pids_reused`, and what was
done to whoever held the PID. -/
structure Called where
  result : Except Exc Unit
  proc : Process
  detected : Bool
  acted : Option Action

/-- The answers of `os.kill`. -/
inductive KillReply where
  | ok | esrch | eperm
  deriving DecidableEq, Repr

/-- `os.kill(pid, sig)`; `allowed` tells whether the caller may signal the holder. On OpenBSD the call lies
about zombies. -/
def osKill (os : Os) (w : World) (pid : Nat) (allowed : Bool) : KillReply :=
  match w.holder pid with
  | none => .esrch
  | some e => if os = .openbsd ∧ e.ended ≠ none then .esrch else if allowed then .ok else .eperm

/-- `pid_exists(pid)`, of a PID other than 0. -/
def pidExists (w : World) (pid : Nat) : Bool := (w.holder pid).isSome

namespace Process

def pidZeroMsg : String := "preventing sending signal to process with PID 0 as it would affect every process " ++
  "in the process group of the calling process (os.getpid()) instead of PID 0"

/-- `_send_signal(sig)`. -/
def sendSignal (os : Os) (w : World) (p : Process) (sig : Signal) (allowed : Bool) : Called :=
  match p.raiseIfPidReused os w with
  | (some e, p, detected) => ⟨.error e, p, detected, none⟩
  | (none, p, detected) =>
    if p.pid = 0 then ⟨.error (.valueError pidZeroMsg), p, detected, none⟩
    else match osKill os w p.pid allowed with
      | .ok => ⟨.ok (), p, detected, some (.signal sig)⟩
      | .esrch =>
        if os = .openbsd ∧ pidExists w p.pid then
          ⟨.error (.zombieProcess p.pid p.name p.ppid), p, detected, some (.signal sig)⟩
        else
          ⟨.error (.noSuchProcess p.pid p.name noSuchProcessMsg), { p with gone := true }, detected, some (.signal sig)⟩
      | .eperm => ⟨.error (.accessDenied p.pid p.name), p, detected, some (.signal sig)⟩

def suspend (os : Os) (w : World) (p : Process) (allowed : Bool) : Called := p.sendSignal os w .sigstop allowed

def resume (os : Os) (w : World) (p : Process) (allowed : Bool) : Called := p.sendSignal os w .sigcont allowed

def terminate (os : Os) (w : World) (p : Process) (allowed : Bool) : Called := p.sendSignal os w .sigterm allowed

def kill (os : Os) (w : World) (p : Process) (allowed : Bool) : Called := p.sendSignal os w .sigkill allowed

/-- The common body of the setters: the check, then the method of `self._proc` on the bare PID, which
answers `reply`. -/
def set (os : Os) (w : World) (p : Process) (s : Setter) (reply : Except Exc Unit) : Called :=
  match p.raiseIfPidReused os w with
  | (some e, p, detected) => ⟨.error e, p, detected, none⟩
  | (none, p, detected) => ⟨reply, p, detected, some (.set s)⟩

def nice (os : Os) (w : World) (p : Process) (value : Int) (reply : Except Exc Unit) : Called :=
  p.set os w (.nice value) reply

def ionice (os : Os) (w : World) (p : Process) (ioclass : Int) (value : Option Int) (reply : Except Exc Unit) :
    Called := p.set os w (.ionice ioclass value) reply

def rlimit (os : Os) (w : World) (p : Process) (resource : Int) (limits : List Int) (reply : Except Exc Unit) :
    Called := p.set os w (.rlimit resource limits) reply

def cpuAffinity (os : Os) (w : World) (p : Process) (cpus : List Int) (reply : Except Exc Unit) : Called :=
  p.set os w (.cpuAffinity cpus) reply

end Process

/-- A call that acts on the PID, with what the kernel answers if it is reached. -/
inductive ActionCall where
  | sendSignal (sig : Signal) (allowed : Bool)
  | suspend (allowed : Bool)
  | resume (allowed : Bool)
  | terminate (allowed : Bool)
  | kill (allowed : Bool)
  | nice (value : Int) (reply : Except Exc Unit)
  | ionice (ioclass : Int) (value : Option Int) (reply : Except Exc Unit)
  | rlimit (resource : Int) (limits : List Int) (reply : Except Exc Unit)
  | cpuAffinity (cpus : List Int) (reply : Except Exc Unit)

def Process.act (os : Os) (w : World) (p : Process) : ActionCall → Called
  | .sendSignal sig allowed => p.sendSignal os w sig allowed
  | .suspend allowed => p.suspend os w allowed
  | .resume allowed => p.resume os w allowed
  | .terminate allowed => p.terminate os w allowed
  | .kill allowed => p.kill os w allowed
  | .nice value reply => p.nice os w value reply
  | .ionice ioclass value reply => p.ionice os w ioclass value reply
  | .rlimit resource limits reply => p.rlimit os w resource limits reply
  | .cpuAffinity cpus reply => p.cpuAffinity os w cpus reply

end Psutil
