import Psutil.Lib.Run
import Psutil.Wait.Spec
import Psutil.Wait.Target

/-!
# `psutil.Popen` (`__init__.py:1667-1747`)

| here | there |
| --- | --- |
| `Popen` | the object: its attributes as a `Process`, `returncode` of its `__subproc`, and the calls of `wait` under way |
| `Popen.test`, `Popen.run`, `Popen.store` | the three statements of `wait` (`:1742`) |
| `Popen.poll`, `Popen.subprocWait` | `poll` and `wait` of `subprocess.Popen`; `__getattribute__` (`:1732`) finds the former there |

Two layers reap the child, and each has a place of its own for the exit code. `popen_keeps_returncode`: it is kept
as long as neither layer asks `waitpid` again once the child is reaped.
-/

namespace Psutil

open Lib

/-- The child that was spawned. Nobody but the object reaps it. -/
structure Child where
  exitAt : WithTop ℚ
  status : WaitStatus
  pidfdError : Option Errno
  kqueueError : Option Errno
  controlError : Option Exc

namespace Child

variable (χ : Child)

/-- The child, as the functions that wait see it. -/
def target : Target := ⟨true, χ.exitAt, ⊤, le_top, χ.status, χ.pidfdError, χ.kqueueError, χ.controlError⟩

/-- The exit code, or the negated signal. -/
def code : Int :=
  match χ.status with
  | .exited code => code
  | .signaled sig => -sig

theorem convert_status : convertExitCode (.ended χ.status) = .ok χ.code := by
  unfold code
  cases χ.status <;> rfl

theorem held_eq (k : TargetState) : χ.target.held k = !k.reaped := by
  have hgone : χ.target.goneAt = ⊤ := rfl
  simp [Target.held, hgone]

end Child

/-- Where a call of `Popen.wait` is: past the test of `returncode`, or past `ret = super().wait(timeout)`. -/
inductive WaitPc where
  | tested (timeout : TimeoutArg)
  | ran (ret : Option Int)

structure Popen where
  kernel : TargetState
  proc : Process
  /-- `self.__subproc.returncode`. -/
  returncode : Option Int
  /-- The calls of `wait` under way, one a thread. -/
  calls : Nat → Option WaitPc

inductive PopenEv where
  /-- Time passes. -/
  | elapse (d : ℚ)
  | test (th : Nat) (timeout : TimeoutArg)
  | run (th : Nat) (path : WaitPath) (fuel : Nat)
  | store (th : Nat)
  | poll
  | subprocWait (timeout : Timeout)

/-- The call that ends with the step, if one does, and its outcome. -/
abbrev PopenOut := Option (Except Exc (Option Int))

namespace Popen

variable (χ : Child)

/-- `__init__`: nobody has waited yet. -/
def init (pid : Nat) (ident : Ident) (gone : Bool) (clock : ℚ) : Popen :=
  ⟨⟨clock, false⟩, ⟨pid, none, none, ident, gone, false, none⟩, none, fun _ => none⟩

def setCall (s : Popen) (th : Nat) (pc : Option WaitPc) : Popen := { s with calls := Function.update s.calls th pc }

/-- `if self.__subproc.returncode is not None`. -/
def test (th : Nat) (timeout : TimeoutArg) (s : Popen) : Popen × PopenOut :=
  match s.calls th, s.returncode with
  | some _, _ => (s, none)
  | none, some code => (s, some (.ok (some code)))
  | none, none => (s.setCall th (some (.tested timeout)), none)

/-- `ret = super().wait(timeout)`; nothing happens if it does not return. -/
def run (th : Nat) (path : WaitPath) (fuel : Nat) (s : Popen) : Popen × PopenOut :=
  match s.calls th with
  | some (.tested timeout) => match s.proc.wait χ.target.kernel path fuel timeout s.kernel with
    | none => (s, none)
    | some (.ok ret, proc, kernel) => ({ s with proc := proc, kernel := kernel }.setCall th (some (.ran ret)), none)
    | some (.error e, proc, kernel) => ({ s with proc := proc, kernel := kernel }.setCall th none, some (.error e))
  | _ => (s, none)

/-- `self.__subproc.returncode = ret; return ret`. -/
def store (th : Nat) (s : Popen) : Popen × PopenOut :=
  match s.calls th with
  | some (.ran ret) => ({ s with returncode := ret }.setCall th none, some (.ok ret))
  | _ => (s, none)

/-- `subprocess.Popen.poll()`: a child that is not there any more counts as one that exited with 0. -/
def poll (s : Popen) : Popen × Except Exc (Option Int) :=
  match s.returncode with
  | some code => (s, .ok (some code))
  | none => match χ.target.kernel.waitpid s.proc.pid true s.kernel with
    | some (.status st, kernel) => match convertExitCode st with
      | .ok code => ({ s with kernel := kernel, returncode := some code }, .ok (some code))
      | .error e => ({ s with kernel := kernel }, .error e)
    | some (.childProcessError, kernel) => ({ s with kernel := kernel, returncode := some 0 }, .ok (some 0))
    | _ => (s, .ok none)

/-- `subprocess.Popen.wait(timeout)`; nothing happens if it does not return. -/
def subprocWait (timeout : Timeout) (s : Popen) : Popen × PopenOut :=
  match s.returncode, χ.target.block timeout s.kernel with
  | some code, _ => (s, some (.ok (some code)))
  | none, none => (s, none)
  | none, some (_, kernel) => match poll χ { s with kernel := kernel } with
    | (s, .ok none) => (s, some (.error (.timeoutExpired timeout none none)))
    | (s, r) => (s, some r)

def step (s : Popen) : PopenEv → Popen × PopenOut
  | .elapse d => ({ s with kernel := { s.kernel with clock := s.kernel.clock + max 0 d } }, none)
  | .test th timeout => s.test th timeout
  | .run th path fuel => s.run χ th path fuel
  | .store th => s.store th
  | .poll => ((s.poll χ).1, some (s.poll χ).2)
  | .subprocWait timeout => s.subprocWait χ timeout

end Popen

def popen (χ : Child) : Machine Popen PopenEv PopenOut := ⟨Popen.step χ⟩

abbrev PopenLine := Line Popen PopenEv PopenOut

/-- Neither layer asks `waitpid` about a child that is reaped already: not `Process.wait`, which then has the exit
code, and not `subprocess.Popen`, which then has the return code (or takes the child for one that exited with 0,
which may be right). -/
def ReapedOnce (χ : Child) (l : PopenLine) : Prop :=
  l.pre.kernel.reaped = true →
    match l.ev with
    | .run th _ _ => ∀ timeout t, l.pre.calls th = some (.tested timeout) → timeout.check = .ok t → l.pre.proc.exitcode ≠ none
    | .poll | .subprocWait _ => l.pre.returncode ≠ none ∨ χ.code = 0
    | _ => True

/-! ## The system -/

theorem Target.block_reaped {τ : Target} {limit : Timeout} {k k' : TargetState} {events : Bool}
    (h : τ.block limit k = some (events, k')) : k'.reaped = k.reaped := by
  unfold Target.block at h
  dsimp only at h
  by_cases hle : τ.exitAt ≤ k.clock + limit.getD ⊤
  · rw [if_pos hle] at h
    split at h
    · cases h
    · cases h
      rfl
  · rw [if_neg hle] at h
    split at h
    · cases h
    · cases h
      rfl

namespace Child

variable {χ : Child} {pid : Nat}

/-- `waitpid` on the child: it is running, or this call reaps it. -/
theorem waitpid_spec {nohang : Bool} {k k' : TargetState} {r : WaitReply} (hk : k.reaped = false)
    (h : χ.target.kernel.waitpid pid nohang k = some (r, k')) :
    (r = .running ∧ k' = k) ∨ (r = .status (.ended χ.status) ∧ k'.reaped = true) := by
  have hreap : ∀ j : TargetState, j.reaped = false →
      χ.target.reap j = (.status (.ended χ.status), { j with reaped := true }) := by
    intro j hj
    rw [Target.reap, held_eq, hj]
    rfl
  simp only [Target.kernel, held_eq, hk, Bool.not_false, Bool.not_true, Bool.or_false] at h
  rw [if_neg (by simp [target])] at h
  split at h
  · rw [hreap k hk] at h
    cases h
    exact Or.inr ⟨rfl, rfl⟩
  · split at h
    · cases h
      exact Or.inl ⟨rfl, rfl⟩
    · obtain ⟨⟨events, j⟩, hb, hr⟩ := Option.map_eq_some_iff.1 h
      rw [hreap j ((Target.block_reaped hb).trans hk)] at hr
      cases hr
      exact Or.inr ⟨rfl, rfl⟩

theorem waitpid_reaped {nohang : Bool} {k : TargetState} (hk : k.reaped = true) :
    χ.target.kernel.waitpid pid nohang k = some (.childProcessError, k) := by
  simp [Target.kernel, held_eq, hk]

/-- Until it is reaped, the calls answer as for a child. -/
theorem kernel_keeps (χ : Child) (pid : Nat) :
    χ.target.kernel.KeepsChild pid (fun k => k.reaped = false) fun st k => st = .ended χ.status ∧ k.reaped = true where
  sleep d k hk := hk
  status nohang k st k' hk h := by
    rcases waitpid_spec hk h with ⟨hr, -⟩ | ⟨hr, hk'⟩
    · cases hr
    · cases hr
      exact ⟨rfl, hk'⟩
  waitpid nohang k r k' hk h hr := by
    rcases waitpid_spec hk h with ⟨-, rfl⟩ | ⟨rfl, -⟩
    · exact hk
    · exact absurd rfl (hr _)
  pidExists k hk := hk
  pidfdOpen k hk := hk
  poll ms k events k' hk h := (Target.block_reaped h).trans hk
  kqueue k hk := hk
  control timeout k r k' hk h := by
    unfold Target.kernel at h
    dsimp only at h
    split at h
    · cases h
      exact hk
    · split at h
      · obtain ⟨⟨events, j⟩, hb, hr⟩ := Option.map_eq_some_iff.1 h
        cases hr
        exact (Target.block_reaped hb).trans hk
      · cases h
        exact hk
  child nohang k k' hk h := by
    rcases waitpid_spec hk h with ⟨hr, -⟩ | ⟨hr, -⟩ <;> cases hr

/-- **`Process.wait` while the child is not reaped**: it reaps the child and has its code, or it raises. -/
theorem wait_spec {p p' : Process} {path : WaitPath} {fuel : Nat} {timeout : TimeoutArg} {k k' : TargetState}
    {r : Except Exc (Option Int)} (hk : k.reaped = false) (hp : p.exitcode = none)
    (h : p.wait χ.target.kernel path fuel timeout k = some (r, p', k')) :
    (r = .ok (some χ.code) ∧ p' = { p with exitcode := some (some χ.code) } ∧ k'.reaped = true) ∨
      ((∀ ret, r ≠ .ok ret) ∧ p' = p ∧ k'.reaped = false) := by
  unfold Process.wait at h
  split at h
  · cases h
    exact Or.inr ⟨by simp, rfl, hk⟩
  · split at h
    · cases h
      exact Or.inr ⟨by simp, rfl, hk⟩
    · simp only [hp] at h
      have hkeeps := kernel_keeps χ p.pid
      split at h
      · cases h
      · rename_i code j hw
        cases h
        rcases hkeeps.toKeeps.waitPid hk hw with ⟨st, hst, rfl, hj⟩ | ⟨hno, -⟩
        · rw [convert_status] at hst
          cases hst
          exact Or.inl ⟨rfl, rfl, hj⟩
        · cases code with
          | none => exact absurd rfl (hkeeps.waitPid hk hw)
          | some code => exact absurd rfl (hno code)
      all_goals
        rename_i hw
        cases h
        rcases hkeeps.toKeeps.waitPid hk hw with ⟨st, hst, rfl, -⟩ | ⟨-, hj⟩
        · rw [convert_status] at hst
          cases hst
        · exact Or.inr ⟨by simp, rfl, hj⟩

/-- A cached exit code is returned, or the arguments are rejected; nothing changes. -/
theorem wait_cached {p p' : Process} {path : WaitPath} {fuel : Nat} {timeout : TimeoutArg} {k k' : TargetState}
    {code : Option Int} {r : Except Exc (Option Int)} (hp : p.exitcode = some code)
    (h : p.wait χ.target.kernel path fuel timeout k = some (r, p', k')) :
    (r = .ok code ∨ ∀ ret, r ≠ .ok ret) ∧ p' = p ∧ k' = k := by
  unfold Process.wait at h
  split at h
  · cases h
    exact ⟨Or.inr (by simp), rfl, rfl⟩
  · split at h
    · cases h
      exact ⟨Or.inr (by simp), rfl, rfl⟩
    · simp only [hp] at h
      cases h
      exact ⟨Or.inl rfl, rfl, rfl⟩

theorem wait_rejected {p p' : Process} {path : WaitPath} {fuel : Nat} {timeout : TimeoutArg} {k k' : TargetState} {e : Exc}
    {r : Except Exc (Option Int)} (he : timeout.check = .error e)
    (h : p.wait χ.target.kernel path fuel timeout k = some (r, p', k')) : (∀ ret, r ≠ .ok ret) ∧ p' = p ∧ k' = k := by
  unfold Process.wait at h
  split at h
  · cases h
    exact ⟨by simp, rfl, rfl⟩
  · simp only [he] at h
    cases h
    exact ⟨by simp, rfl, rfl⟩

/-- **`Process.wait` has the code of the child or raises**, unless it asks again for a child that is reaped. -/
theorem wait_knows {p p' : Process} {path : WaitPath} {fuel : Nat} {timeout : TimeoutArg} {k k' : TargetState}
    {r : Except Exc (Option Int)} (hp : ∀ code, p.exitcode = some code → code = some χ.code ∧ k.reaped = true)
    (honce : k.reaped = true → ∀ t, timeout.check = .ok t → p.exitcode ≠ none)
    (h : p.wait χ.target.kernel path fuel timeout k = some (r, p', k')) :
    (r = .ok (some χ.code) ∧ p'.exitcode = some (some χ.code) ∧ k'.reaped = true) ∨
      ((∀ ret, r ≠ .ok ret) ∧ p' = p ∧ k'.reaped = k.reaped) := by
  cases he : p.exitcode with
  | some code =>
    obtain ⟨rfl, hk⟩ := hp code he
    obtain ⟨rfl | hr, rfl, rfl⟩ := wait_cached he h
    · exact Or.inl ⟨rfl, he, hk⟩
    · exact Or.inr ⟨hr, rfl, rfl⟩
  | none =>
    cases hk : k.reaped with
    | false =>
      rcases wait_spec hk he h with ⟨rfl, rfl, hk'⟩ | hr
      · exact Or.inl ⟨rfl, rfl, hk'⟩
      · exact Or.inr hr
    | true =>
      cases hc : timeout.check with
      | ok t => exact absurd he (honce hk t hc)
      | error e =>
        obtain ⟨hr, rfl, rfl⟩ := wait_rejected hc h
        exact Or.inr ⟨hr, rfl, hk⟩

end Child

/-! ## What a step keeps -/

/-- Whatever is stored is the code of the child, which is reaped then. -/
structure Popen.Inv (χ : Child) (s : Popen) : Prop where
  returncode : ∀ code, s.returncode = some code → code = χ.code ∧ s.kernel.reaped = true
  exitcode : ∀ code, s.proc.exitcode = some code → code = some χ.code ∧ s.kernel.reaped = true
  ran : ∀ th ret, s.calls th = some (.ran ret) → ret = some χ.code ∧ s.kernel.reaped = true

/-- A call that returns once the child is reaped returns its code. -/
def ReturnsCode (χ : Child) (l : PopenLine) : Prop :=
  ∀ ret, l.out = some (.ok ret) → ((popen χ).step l.pre l.ev).1.kernel.reaped = true → ret = some χ.code

namespace Popen

variable {χ : Child} {s : Popen}

/-- What is wanted of a step from `s` with the result `r`. -/
structure Good (χ : Child) (s : Popen) (r : Popen × PopenOut) : Prop where
  inv : r.1.Inv χ
  keeps : ∀ code, s.returncode = some code → r.1.returncode = some code
  returns : ∀ ret, r.2 = some (.ok ret) → r.1.kernel.reaped = true → ret = some χ.code

theorem inv_init (χ : Child) (pid : Nat) (ident : Ident) (gone : Bool) (clock : ℚ) : (init pid ident gone clock).Inv χ :=
  ⟨by simp [init], by simp [init], by simp [init]⟩

theorem Inv.good_self (hs : s.Inv χ) : Good χ s (s, none) := ⟨hs, fun _ h => h, by simp⟩

/-- Once the child is reaped it stays reaped: a step of the system keeps what is stored. -/
theorem Inv.setKernel (hs : s.Inv χ) {k : TargetState} (hk : s.kernel.reaped = true → k.reaped = true) :
    ({ s with kernel := k } : Popen).Inv χ where
  returncode code h := ⟨(hs.returncode code h).1, hk (hs.returncode code h).2⟩
  exitcode code h := ⟨(hs.exitcode code h).1, hk (hs.exitcode code h).2⟩
  ran th ret h := ⟨(hs.ran th ret h).1, hk (hs.ran th ret h).2⟩

/-- A call moves on. -/
theorem Inv.setCall (hs : s.Inv χ) (th : Nat) {pc : Option WaitPc}
    (hpc : ∀ ret, pc = some (.ran ret) → ret = some χ.code ∧ s.kernel.reaped = true) : (s.setCall th pc).Inv χ where
  returncode := hs.returncode
  exitcode := hs.exitcode
  ran th' ret h := by
    by_cases he : th' = th
    · subst he
      exact hpc ret (by simpa [Popen.setCall] using h)
    · exact hs.ran th' ret (by simpa [Popen.setCall, he] using h)

theorem Inv.test (hs : s.Inv χ) (th : Nat) (timeout : TimeoutArg) : Good χ s (s.test th timeout) := by
  unfold Popen.test
  split
  · exact hs.good_self
  · rename_i code _ hcode
    refine ⟨hs, fun _ h => h, ?_⟩
    rintro _ ⟨⟩ -
    rw [(hs.returncode code hcode).1]
  · exact ⟨hs.setCall th (by simp), fun _ h => h, by simp⟩

theorem Inv.store (hs : s.Inv χ) (th : Nat) : Good χ s (s.store th) := by
  unfold Popen.store
  split
  · rename_i ret hc
    obtain ⟨rfl, hr⟩ := hs.ran th ret hc
    constructor
    · apply Inv.setCall
      · exact ⟨fun code h => ⟨(Option.some.inj h).symm, hr⟩, hs.exitcode, hs.ran⟩
      · simp
    · intro code hcode
      rw [(hs.returncode code hcode).1]
      rfl
    · rintro _ ⟨⟩ -
      rfl
  · exact hs.good_self

/-- `Process.wait`, asked while the child is not reaped or its code is cached. -/
theorem Inv.run (hs : s.Inv χ) {th : Nat} {path : WaitPath} {fuel : Nat} {out : PopenOut}
    (honce : ReapedOnce χ ⟨s, .run th path fuel, out⟩) : Good χ s (s.run χ th path fuel) := by
  unfold Popen.run
  split
  · rename_i timeout hc
    have hwait := fun r p' k' h => @Child.wait_knows χ s.proc p' path fuel timeout s.kernel k' r hs.exitcode
      (fun hr t ht => honce hr timeout t hc ht) h
    split
    · exact hs.good_self
    · rename_i ret proc kernel hw
      rcases hwait _ _ _ hw with ⟨hret, hcode, hr⟩ | ⟨hno, -⟩
      · cases hret
        refine ⟨Inv.setCall ⟨?_, ?_, ?_⟩ th ?_, fun _ h => h, by simp⟩
        · exact fun code h => ⟨(hs.returncode code h).1, hr⟩
        · intro code h
          exact ⟨(Option.some.inj (hcode.symm.trans h)).symm, hr⟩
        · exact fun th' ret h => ⟨(hs.ran th' ret h).1, hr⟩
        · rintro ret ⟨⟩
          exact ⟨rfl, hr⟩
      · exact absurd rfl (hno ret)
    · rename_i e proc kernel hw
      rcases hwait _ _ _ hw with ⟨hret, -⟩ | ⟨-, rfl, hr⟩
      · cases hret
      · refine ⟨(hs.setKernel (k := kernel) fun h => ?_).setCall th (by simp), fun _ h => h, by simp⟩
        rw [hr, h]
  · exact hs.good_self

/-- `subprocess.Popen.poll`, the same. -/
theorem Inv.poll (hs : s.Inv χ) (honce : s.kernel.reaped = true → s.returncode ≠ none ∨ χ.code = 0) :
    Good χ s ((s.poll χ).1, some (s.poll χ).2) := by
  unfold Popen.poll
  cases hcode : s.returncode with
  | some code =>
    refine ⟨hs, fun _ h => h, ?_⟩
    rintro _ ⟨⟩ -
    rw [(hs.returncode code hcode).1]
  | none =>
    have hset : ∀ k : TargetState, k.reaped = true →
        Good χ s ({ s with kernel := k, returncode := some χ.code }, some (.ok (some χ.code))) := by
      intro k hk
      constructor
      · refine ⟨fun code h => ⟨(Option.some.inj h).symm, hk⟩, ?_, ?_⟩
        · exact fun code h => ⟨(hs.exitcode code h).1, hk⟩
        · exact fun th ret h => ⟨(hs.ran th ret h).1, hk⟩
      · intro code h
        rw [hcode] at h
        cases h
      · rintro _ ⟨⟩ -
        rfl
    cases hr : s.kernel.reaped with
    | true =>
      have hzero : χ.code = 0 := (honce hr).resolve_left (absurd hcode)
      simp only [Child.waitpid_reaped hr]
      rw [hzero] at hset
      exact hset s.kernel hr
    | false =>
      dsimp only
      split
      · rename_i st k hw
        rcases Child.waitpid_spec hr hw with ⟨hst, -⟩ | ⟨hst, hk⟩
        · cases hst
        · cases hst
          rw [Child.convert_status]
          exact hset k hk
      · rename_i k hw
        rcases Child.waitpid_spec hr hw with ⟨hst, -⟩ | ⟨hst, -⟩ <;> cases hst
      · refine ⟨hs, fun _ h => h, fun ret _ hreaped => ?_⟩
        rw [hr] at hreaped
        cases hreaped

theorem Inv.subprocWait (hs : s.Inv χ) (timeout : Timeout)
    (honce : s.kernel.reaped = true → s.returncode ≠ none ∨ χ.code = 0) : Good χ s (s.subprocWait χ timeout) := by
  unfold Popen.subprocWait
  split
  · rename_i _ code hcode
    refine ⟨hs, fun _ h => h, ?_⟩
    rintro _ ⟨⟩ -
    rw [(hs.returncode code hcode).1]
  · exact hs.good_self
  · rename_i events k hcode hb
    have hk := Target.block_reaped hb
    have hpoll := (hs.setKernel (k := k) fun h => hk.trans h).poll fun h => honce (hk.symm.trans h)
    split
    · rename_i s' hp
      rw [hp] at hpoll
      exact ⟨hpoll.inv, hpoll.keeps, by simp⟩
    · rename_i s' r _ hp
      rw [hp] at hpoll
      exact ⟨hpoll.inv, hpoll.keeps, hpoll.returns⟩

/-- **What one step keeps**, if it does not ask for a child that is reaped. -/
theorem Inv.step (hs : s.Inv χ) {e : PopenEv} (honce : ReapedOnce χ ⟨s, e, ((popen χ).step s e).2⟩) :
    Good χ s ((popen χ).step s e) := by
  cases e with
  | elapse d => exact ⟨hs.setKernel fun h => h, fun _ h => h, by rintro ret ⟨⟩⟩
  | test th timeout => exact hs.test th timeout
  | run th path fuel => exact hs.run honce
  | store th => exact hs.store th
  | poll => exact hs.poll honce
  | subprocWait timeout => exact hs.subprocWait timeout honce

end Popen

/-! ## Runs -/

/-- The return code stays, from the moment when it is that of the child. -/
def KeepsReturncode (χ : Child) (s : Popen) (es : List PopenEv) : Prop :=
  ∀ es₁ es₂, es = es₁ ++ es₂ → ((popen χ).run s es₁).returncode = some χ.code → ((popen χ).run s es).returncode = some χ.code

/-- **The exit status is not lost** in a run in which neither layer asks for a child that is reaped already. -/
theorem popen_keeps_returncode (χ : Child) (pid : Nat) (ident : Ident) (gone : Bool) (clock : ℚ) (es : List PopenEv)
    (h : ∀ l ∈ (popen χ).trace (.init pid ident gone clock) es, ReapedOnce χ l) :
    KeepsReturncode χ (.init pid ident gone clock) es ∧
      ∀ l ∈ (popen χ).trace (.init pid ident gone clock) es, ReturnsCode χ l := by
  have hinit := Popen.inv_init χ pid ident gone clock
  have hstep : ∀ s e, s.Inv χ → ReapedOnce χ ⟨s, e, ((popen χ).step s e).2⟩ → ((popen χ).step s e).1.Inv χ :=
    fun s e hs hC => (hs.step hC).inv
  constructor
  · rintro es₁ es₂ rfl hset
    rw [Machine.trace_append] at h
    rw [Machine.run_append]
    have hmid := (popen χ).run_inv_of hstep hinit fun l hl => h l (List.mem_append_left _ hl)
    have hkeep : ∀ s e, s.Inv χ ∧ s.returncode = some χ.code → ReapedOnce χ ⟨s, e, ((popen χ).step s e).2⟩ →
        ((popen χ).step s e).1.Inv χ ∧ ((popen χ).step s e).1.returncode = some χ.code := by
      intro s e hs hC
      exact ⟨hstep s e hs.1 hC, (hs.1.step hC).keeps _ hs.2⟩
    exact ((popen χ).run_inv_of hkeep ⟨hmid, hset⟩ fun l hl => h l (List.mem_append_right _ hl)).2
  · intro l hl ret hret hreaped
    obtain ⟨hinv, hout⟩ := (popen χ).lines_of_inv_of hstep hinit h hl
    have hline : ReapedOnce χ l := h l hl
    obtain ⟨pre, ev, out⟩ := l
    obtain rfl : out = ((popen χ).step pre ev).2 := hout
    exact (hinv.step hline).returns ret hret hreaped

/-- A child that has exited with 3. -/
def exitedChild : Child := ⟨((0 : ℚ) : WithTop ℚ), .exited 3, none, none, none⟩

/-- A thread tests `returncode`; another one reaps the child by `poll`, before the first one asks for it. -/
def lateWait : List PopenEv := [.test 1 .none, .poll, .run 1 .posix 1, .store 1]

/-- The first thread gets `None`, and stores it over the exit code. -/
theorem popen_loses_returncode : ¬∀ (χ : Child) (pid : Nat) (ident : Ident) (gone : Bool) (clock : ℚ) (es : List PopenEv),
    KeepsReturncode χ (.init pid ident gone clock) es ∧
      ∀ l ∈ (popen χ).trace (.init pid ident gone clock) es, ReturnsCode χ l := by
  intro h
  have hkeeps := (h exitedChild 5 (5, some 1) false 0 lateWait).1
  exact absurd (hkeeps [.test 1 .none, .poll] [.run 1 .posix 1, .store 1] rfl (by decide)) (by decide)

/-- The first thread reaps the child itself, and then both get its code. -/
def earlyWait : List PopenEv := [.test 1 .none, .run 1 .posix 1, .store 1, .poll]

theorem popen_keeps_returncode_waited : KeepsReturncode exitedChild (.init 5 (5, some 1) false 0) earlyWait ∧
    ∀ l ∈ (popen exitedChild).trace (.init 5 (5, some 1) false 0) earlyWait, ReturnsCode exitedChild l := by
  refine popen_keeps_returncode exitedChild 5 (5, some 1) false 0 earlyWait fun l hl => ?_
  simp only [earlyWait, Machine.trace, List.mem_cons, List.not_mem_nil, or_false] at hl
  rcases hl with rfl | rfl | rfl | rfl
  · intro _
    trivial
  · intro hr
    exact absurd hr (by decide)
  · intro _
    trivial
  · intro _
    exact Or.inl (by decide)

end Psutil
