import Psutil.Proc.Spec
import Psutil.Wait.Spec

/-!
# `Process.wait` and PID reuse

The calls of a wait are answered from the process table, which changes in any way before each of them and while
one blocks. `wait` asks for the bare PID. `wait_own_incarnation`: a call during which no other process has the PID
returns at once when the process of the object is dead and reaped, and the exit codes are those of that process as
long as no other child has the PID during the calls; `wait_not_own_incarnation` shows what happens otherwise.
-/

namespace Psutil

open Lib

/-- What happens before a call gets its answer, or while it blocks: changes of the process table, and the time
that passes if it blocks. `fail` is the error of a call that opens a descriptor. -/
structure Tick where
  events : List WorldEv
  elapsed : ℚ
  fail : Option Errno

/-- The operating system during one call of `wait`. -/
structure Sim where
  world : World
  clock : ℚ
  /-- What is going to happen. -/
  ticks : List Tick
  /-- The PID and the creation time of the process that the pidfd refers to. -/
  fd : Option (Nat × Nat)

def World.steps (w : World) (evs : List WorldEv) : World := evs.foldl World.step w

/-- The process is not running under this PID. -/
def World.hasEnded (w : World) (pid c : Nat) : Bool :=
  match w.holder pid with
  | some e => decide (e.ctime ≠ c) || e.ended.isSome
  | none => true

namespace Sim

/-- What happens before the next call is answered, and the error it may get. -/
def tick (s : Sim) : Option Errno × Sim :=
  match s.ticks with
  | [] => (none, s)
  | t :: ts => (t.fail, { s with world := s.world.steps t.events, ticks := ts })

/-- Block until the process has ended, or the deadline: whether it has. -/
def block (pid c : Nat) (deadline : WithTop ℚ) : List Tick → Sim → Option (Bool × Sim)
  | [], s =>
    if s.world.hasEnded pid c then some (true, { s with ticks := [] })
    else match deadline with
      | ⊤ => none
      | (d : ℚ) => some (false, { s with ticks := [], clock := d })
  | t :: ts, s =>
    if s.world.hasEnded pid c then some (true, { s with ticks := t :: ts })
    else if (s.clock + max 0 t.elapsed : ℚ) ≤ deadline then
      block pid c deadline ts { s with world := s.world.steps t.events, clock := s.clock + max 0 t.elapsed }
    else match deadline with
      | ⊤ => none
      | (d : ℚ) => some (false, { s with ticks := t :: ts, clock := d })

/-- `waitpid` on the PID as it is now: a child that has ended is reaped. -/
def reply (pid : Nat) (s : Sim) : WaitReply × Sim :=
  match s.world.holder pid with
  | some ⟨_, true, some status⟩ => (.status (.ended status), { s with world := s.world.step (.reap pid) })
  | some ⟨_, true, none⟩ => (.running, s)
  | _ => (.childProcessError, s)

/-- `waitpid` without `WNOHANG` blocks while the child is running. -/
def blockingReply (pid : Nat) : List Tick → Sim → Option (WaitReply × Sim)
  | [], s => match ({ s with ticks := [] } : Sim).reply pid with
    | (.running, _) => none
    | r => some r
  | t :: ts, s => match ({ s with ticks := t :: ts } : Sim).reply pid with
    | (.running, _) =>
      blockingReply pid ts { s with world := s.world.steps t.events, clock := s.clock + max 0 t.elapsed }
    | r => some r

def kernel : Syscalls Sim where
  now := Sim.clock
  sleep d s := { s with clock := s.clock + d }
  waitpid pid nohang s :=
    let s := s.tick.2
    if nohang then some (s.reply pid) else blockingReply pid s.ticks s
  pidExists pid s := (s.tick.2.world.holder pid |>.isSome, s.tick.2)
  pidfdOpen pid s := match s.tick.2.world.holder pid with
    | none => (some .esrch, s.tick.2)
    | some e => (s.tick.1, { s.tick.2 with fd := some (pid, e.ctime) })
  poll ms s := match s.fd with
    | none => none
    | some (pid, c) =>
      let limit : Timeout := ms.map fun ms => ((ms / 1000 : ℚ) : WithTop ℚ)
      block pid c (s.clock + limit.getD ⊤) s.tick.2.ticks s.tick.2
  kqueue s := s.tick
  control pid timeout s := match s.tick.2.world.holder pid with
    | none => some (.error (.osError .esrch), s.tick.2)
    | some e => match s.tick.1 with
      | some errno => some (.error (.osError errno), s.tick.2)
      | none => (block pid e.ctime (s.clock + timeout.getD ⊤) s.tick.2.ticks s.tick.2).map fun r => (.ok r.1, r.2)

end Sim

/-! ## Only one process has the PID -/

namespace World

theorem WF.steps {w : World} (h : w.WF) (evs : List WorldEv) : (w.steps evs).WF := by
  induction evs generalizing w with
  | nil => exact h
  | cons ev evs ih => exact ih (h.step ev)

theorem used_steps {w : World} {c : Nat} (h : c ∈ w.used) (evs : List WorldEv) : c ∈ (w.steps evs).used := by
  induction evs generalizing w with
  | nil => exact h
  | cons ev evs ih => exact ih (used_step w ev c h)

theorem never_again_steps {w : World} {c pid : Nat} (hu : c ∈ w.used) (h : ∀ e, w.holder pid = some e → e.ctime ≠ c)
    (evs : List WorldEv) : ∀ e, (w.steps evs).holder pid = some e → e.ctime ≠ c := by
  induction evs generalizing w with
  | nil => exact h
  | cons ev evs ih => exact ih (used_step w ev c hu) (never_again hu h ev)

/-- No process but `c` holds the PID. -/
def Only (pid c : Nat) (w : World) : Prop := ∀ e ∈ w.holder pid, e.ctime = c

/-- No child of the caller but `c` holds the PID. -/
def OnlyChild (pid c : Nat) (w : World) : Prop := ∀ e ∈ w.holder pid, e.child = true → e.ctime = c

instance (pid c : Nat) : DecidablePred (Only pid c) := fun w =>
  inferInstanceAs (Decidable (∀ e ∈ w.holder pid, e.ctime = c))

end World

/-- The process table has the property now and after each of the ticks. -/
def Throughout (P : World → Prop) : World → List Tick → Prop
  | w, [] => P w
  | w, t :: ts => P w ∧ Throughout P (w.steps t.events) ts

namespace Throughout

variable {P : World → Prop}

instance decidable [DecidablePred P] : (w : World) → (ts : List Tick) → Decidable (Throughout P w ts)
  | w, [] => inferInstanceAs (Decidable (P w))
  | w, t :: ts => @instDecidableAnd _ _ (inferInstanceAs (Decidable (P w))) (decidable (w.steps t.events) ts)

theorem now {w : World} {ts : List Tick} (h : Throughout P w ts) : P w := by
  cases ts with
  | nil => exact h
  | cons t ts => exact h.1

theorem imp {Q : World → Prop} {w : World} {ts : List Tick} (h : Throughout P w ts) (hPQ : ∀ w, P w → Q w) :
    Throughout Q w ts := by
  induction ts generalizing w with
  | nil => exact hPQ w h
  | cons t ts ih => exact ⟨hPQ w h.1, ih h.2⟩

theorem of_forall (hP : ∀ w, P w) (w : World) (ts : List Tick) : Throughout P w ts := by
  induction ts generalizing w with
  | nil => exact hP w
  | cons t ts ih => exact ⟨hP w, ih _⟩

end Throughout

namespace Sim

variable {pid c : Nat} {P : World → Prop}

/-- What a wait keeps: a property that the process table has throughout. -/
structure Kept (c : Nat) (P : World → Prop) (s : Sim) : Prop where
  wf : s.world.WF
  used : c ∈ s.world.used
  always : Throughout P s.world s.ticks

/-- A status that was reported is that of a child that had the PID, at a time when the property held. -/
structure ChildEnd (pid c : Nat) (P : World → Prop) (st : RawStatus) (s : Sim) : Prop where
  wf : s.world.WF
  used : c ∈ s.world.used
  ended : ∃ w e status, P w ∧ w.holder pid = some e ∧ e.child = true ∧ st = .ended status ∧ (e.ctime, status) ∈ s.world.ends

theorem Kept.tick {s : Sim} (h : s.Kept c P) : s.tick.2.Kept c P := by
  unfold Sim.tick
  split
  · exact h
  · rename_i t ts hts
    exact ⟨h.wf.steps _, World.used_steps h.used _, (hts ▸ h.always : Throughout P s.world (t :: ts)).2⟩

theorem Kept.block {deadline : WithTop ℚ} {pid' c' : Nat} : ∀ {ts : List Tick} {s s' : Sim} {events : Bool},
    Kept c P { s with ticks := ts } → block pid' c' deadline ts s = some (events, s') → s'.Kept c P
  | [], s, s', events, h, hb => by
    unfold Sim.block at hb
    split at hb
    · cases hb
      exact h
    · split at hb
      · cases hb
      · cases hb
        exact ⟨h.wf, h.used, h.always⟩
  | t :: ts, s, s', events, h, hb => by
    unfold Sim.block at hb
    split at hb
    · cases hb
      exact h
    · split at hb
      · refine Kept.block ?_ hb
        exact ⟨h.wf.steps _, World.used_steps h.used _, h.always.2⟩
      · split at hb
        · cases hb
        · cases hb
          exact ⟨h.wf, h.used, h.always⟩

/-- What `waitpid` answers: how a child ended, or no status. -/
def Answered (pid c : Nat) (P : World → Prop) (x : WaitReply × Sim) : Prop :=
  (∃ st, x.1 = .status st ∧ ChildEnd pid c P st x.2) ∨ ((∀ st, x.1 ≠ .status st) ∧ x.2.Kept c P)

theorem Kept.reply {s : Sim} (h : s.Kept c P) (pid : Nat) : Answered pid c P (s.reply pid) := by
  unfold Sim.reply
  split
  · rename_i c' status he
    have hend := World.ends_step s.world (.reap pid) _ (h.wf.ended pid _ status he rfl)
    exact Or.inl ⟨_, rfl, h.wf.step (.reap pid), World.used_step _ _ _ h.used, s.world, _, status, h.always.now, he, rfl,
      rfl, hend⟩
  · exact Or.inr ⟨by simp, h⟩
  · exact Or.inr ⟨by simp, h⟩

theorem Kept.blockingReply : ∀ {ts : List Tick} {s : Sim} {x : WaitReply × Sim}, Kept c P { s with ticks := ts } →
    blockingReply pid ts s = some x → Answered pid c P x
  | [], s, x, h, hb => by
    unfold Sim.blockingReply at hb
    split at hb
    · cases hb
    · cases hb
      exact h.reply pid
  | t :: ts, s, x, h, hb => by
    unfold Sim.blockingReply at hb
    split at hb
    · refine Kept.blockingReply ?_ hb
      exact ⟨h.wf.steps _, World.used_steps h.used _, h.always.2⟩
    · cases hb
      exact h.reply pid

theorem Kept.waitpid {s : Sim} (h : s.Kept c P) {nohang : Bool} {x : WaitReply × Sim}
    (hw : kernel.waitpid pid nohang s = some x) : Answered pid c P x := by
  simp only [kernel] at hw
  split at hw
  · cases hw
    exact h.tick.reply pid
  · exact h.tick.blockingReply hw

/-- **The calls of a wait keep what holds throughout**, and a status that they report was read while it held. -/
theorem kernel_keeps : kernel.Keeps pid (Kept c P) (ChildEnd pid c P) where
  sleep d s h := ⟨h.wf, h.used, h.always⟩
  status nohang s st s' h hw := by
    rcases h.waitpid hw with ⟨st', hst, hown⟩ | ⟨hno, -⟩
    · cases hst
      exact hown
    · exact absurd rfl (hno st)
  waitpid nohang s r s' h hw hno := by
    rcases h.waitpid hw with ⟨st, hst, -⟩ | ⟨-, hs'⟩
    · exact absurd hst (hno st)
    · exact hs'
  pidExists s h := h.tick
  pidfdOpen s h := by
    simp only [kernel]
    split
    · exact h.tick
    · exact ⟨h.tick.wf, h.tick.used, h.tick.always⟩
  poll ms s events s' h hp := by
    simp only [kernel] at hp
    split at hp
    · cases hp
    · exact h.tick.block hp
  kqueue s h := h.tick
  control timeout s r s' h hc := by
    simp only [kernel] at hc
    split at hc
    · cases hc
      exact h.tick
    · split at hc
      · cases hc
        exact h.tick
      · obtain ⟨⟨events, s''⟩, hb, heq⟩ := Option.map_eq_some_iff.1 hc
        cases heq
        exact h.tick.block hb

/-! ## A process that is dead and reaped -/

/-- The process `c` is dead and reaped, and nobody else gets the PID. -/
structure Reaped (pid c : Nat) (s : Sim) : Prop extends Kept c (World.Only pid c) s where
  dead : ∀ e, s.world.holder pid = some e → e.ctime ≠ c

theorem Reaped.free {s : Sim} (h : s.Reaped pid c) : s.world.holder pid = none := by
  cases he : s.world.holder pid with
  | none => rfl
  | some e => exact absurd (h.always.now e he) (h.dead e he)

theorem Reaped.tick {s : Sim} (h : s.Reaped pid c) : s.tick.2.Reaped pid c ∧ s.tick.2.clock = s.clock := by
  refine ⟨⟨h.toKept.tick, ?_⟩, ?_⟩
  · unfold Sim.tick
    split
    · exact h.dead
    · exact World.never_again_steps h.used h.dead _
  · unfold Sim.tick
    split <;> rfl

theorem Reaped.blockingReply {s : Sim} (h : s.Reaped pid c) :
    blockingReply pid s.ticks s = some (.childProcessError, s) := by
  have hr : ∀ ts, ({ s with ticks := ts } : Sim).reply pid = (.childProcessError, { s with ticks := ts }) := fun ts => by
    simp [reply, h.free]
  cases hts : s.ticks with
  | nil =>
    rw [Sim.blockingReply, hr]
    simp [← hts]
  | cons t ts =>
    rw [Sim.blockingReply, hr]
    simp [← hts]

theorem Reaped.waitpid {s : Sim} (h : s.Reaped pid c) (nohang : Bool) :
    kernel.waitpid pid nohang s = some (.childProcessError, s.tick.2) := by
  have ht := h.tick.1
  cases nohang with
  | true => simp [kernel, reply, ht.free]
  | false => simp [kernel, ht.blockingReply]

/-- The polling function finds no child and no process, and returns, if it can compute its deadline. -/
theorem Reaped.waitPidPosix {s : Sim} (h : s.Reaped pid c) {fuel : Nat} (hf : 0 < fuel) {timeout : Timeout}
    (hfloat : ¬Overflows timeout) :
    ∃ s', waitPidPosix kernel fuel pid timeout s = some (.ok none, s') ∧ s'.clock = s.clock := by
  obtain ⟨h₁, hc₁⟩ := h.tick
  obtain ⟨h₂, hc₂⟩ := h₁.tick
  obtain ⟨fuel, rfl⟩ : ∃ n, fuel = n + 1 := ⟨fuel - 1, by omega⟩
  have hex : kernel.pidExists pid s.tick.2 = (false, s.tick.2.tick.2) := by simp [kernel, h₂.free]
  refine ⟨s.tick.2.tick.2, ?_, hc₂.trans hc₁⟩
  rw [waitPidPosix_of_not_overflows hfloat]
  simp only [waitLoop, h.waitpid, pollPid, hex]

/-- **All three ways to wait return at once.** -/
theorem Reaped.waitPath {s : Sim} (h : s.Reaped pid c) {fuel : Nat} (hf : 0 < fuel) (path : WaitPath) {timeout : Timeout}
    (hfloat : ¬Overflows timeout) :
    ∃ s', waitPath kernel path fuel pid timeout s = some (.ok none, s') ∧ s'.clock = s.clock := by
  obtain ⟨h₁, hc₁⟩ := h.tick
  cases path with
  | posix => exact h.waitPidPosix hf hfloat
  | pidfdOpen =>
    obtain ⟨s', hs', hc⟩ := h₁.waitPidPosix hf hfloat
    have hopen : kernel.pidfdOpen pid s = (some .esrch, s.tick.2) := by simp [kernel, h₁.free]
    exact ⟨s', by simpa only [Psutil.waitPath, waitPidPidfdOpen, hopen] using hs', hc.trans hc₁⟩
  | kqueue =>
    obtain ⟨h₂, hc₂⟩ := h₁.tick
    cases hfail : s.tick.1 with
    | some errno =>
      obtain ⟨s', hs', hc⟩ := h₁.waitPidPosix hf hfloat
      have hopen : kernel.kqueue s = (some errno, s.tick.2) := by simp [kernel, ← hfail]
      exact ⟨s', by simpa only [Psutil.waitPath, waitPidKqueue, hopen] using hs', hc.trans hc₁⟩
    | none =>
      obtain ⟨s', hs', hc⟩ := h₂.waitPidPosix hf hfloat
      have hopen : kernel.kqueue s = (none, s.tick.2) := by simp [kernel, ← hfail]
      have hcontrol : kernel.control pid timeout s.tick.2 = some (.error (.osError .esrch), s.tick.2.tick.2) := by
        simp [kernel, h₂.free]
      refine ⟨s', ?_, hc.trans (hc₂.trans hc₁)⟩
      simpa [Psutil.waitPath, waitPidKqueue, hopen, hcontrol] using hs'

end Sim

/-! ## The calls on one object -/

/-- A `Process` object and the process table; a wait takes time of its own, so the clock starts at 0 each time. -/
structure Waiter where
  world : World
  proc : Process

inductive WaiterEv where
  | world (ev : WorldEv)
  /-- `wait(timeout)`, and what happens while it runs. -/
  | wait (path : WaitPath) (fuel : Nat) (timeout : TimeoutArg) (ticks : List Tick)

inductive WaiterOut where
  | done
  /-- The wait has not returned. -/
  | pending
  /-- What it returned or raised, and for how long it blocked. -/
  | returned (r : Except Exc (Option Int)) (blocked : ℚ)

def waiterMachine : Machine Waiter WaiterEv WaiterOut where
  step s
    | .world ev => ({ s with world := s.world.step ev }, .done)
    | .wait path fuel timeout ticks =>
      match Process.wait Sim.kernel path fuel s.proc timeout ⟨s.world, 0, ticks, none⟩ with
      | none => (s, .pending)
      | some (r, p, s') => (⟨s'.world, p⟩, .returned r s'.clock)

/-- An exit code of the process `c`. -/
def OwnCode (c : Nat) (code : Int) (w : World) : Prop :=
  ∃ status, (c, status) ∈ w.ends ∧ convertExitCode (.ended status) = .ok code

/-- While the wait of this line runs, the process table has a property. -/
def During (P : World → Prop) (l : Line Waiter WaiterEv WaiterOut) : Prop :=
  ∀ path fuel timeout ticks, l.ev = .wait path fuel timeout ticks → Throughout P l.pre.world ticks

/-- An exit code that the wait of this line returns is one of the process `c`. -/
def OwnStatus (c : Nat) (l : Line Waiter WaiterEv WaiterOut) : Prop :=
  ∀ code blocked, l.out = .returned (.ok (some code)) blocked → OwnCode c code (waiterMachine.step l.pre l.ev).1.world

/-- If the process `c` is dead and reaped, the wait of this line returns without blocking. -/
def AtOnce (pid c : Nat) (l : Line Waiter WaiterEv WaiterOut) : Prop :=
  ∀ path fuel timeout ticks, l.ev = .wait path fuel timeout ticks → 0 < fuel → (∃ t, timeout.check = .ok t ∧ ¬Overflows t) →
    (∀ e, l.pre.world.holder pid = some e → e.ctime ≠ c) → ∃ r, l.out = .returned (.ok r) 0

theorem OwnCode.step {c : Nat} {code : Int} {w : World} (h : OwnCode c code w) (ev : WorldEv) : OwnCode c code (w.step ev) := by
  obtain ⟨status, hm, hc⟩ := h
  exact ⟨status, World.ends_step w ev _ hm, hc⟩

/-- The object has the PID, and the process `c` has been born. -/
structure Bound (pid c : Nat) (s : Waiter) : Prop where
  wf : s.world.WF
  used : c ∈ s.world.used
  pid : s.proc.pid = pid

variable {pid c : Nat} {P : World → Prop}

/-- An exit code that was read while the property held. -/
def CodeUnder (pid : Nat) (P : World → Prop) (code : Int) (w : World) : Prop :=
  ∃ w₀ e, P w₀ ∧ w₀.holder pid = some e ∧ e.child = true ∧ OwnCode e.ctime code w

theorem Sim.reported {x : Except Exc (Option Int) × Sim} (h : Reported (Sim.Kept c P) (Sim.ChildEnd pid c P) x) :
    x.2.world.WF ∧ c ∈ x.2.world.used ∧ ∀ code, x.1 = .ok (some code) → CodeUnder pid P code x.2.world := by
  rcases h with ⟨st, hx, hown⟩ | ⟨hno, hkept⟩
  · refine ⟨hown.wf, hown.used, fun code hcode => ?_⟩
    obtain ⟨w, e, status, hP, he, hchild, rfl, hend⟩ := hown.ended
    rw [hx] at hcode
    cases hcv : convertExitCode (.ended status) with
    | error e =>
      rw [hcv] at hcode
      cases hcode
    | ok code' =>
      rw [hcv] at hcode
      cases hcode
      exact ⟨w, e, hP, he, hchild, status, hend, hcv⟩
  · exact ⟨hkept.wf, hkept.used, fun code hcode => absurd hcode (hno code)⟩

/-- **One wait**: the code that it returns, and the one that is cached after it, was cached before, with the process
table unchanged, or was read while the property held. -/
theorem Bound.wait {s : Waiter} (h : Bound pid c s) {path : WaitPath} {fuel : Nat} {timeout : TimeoutArg}
    {ticks : List Tick} (hP : Throughout P s.world ticks) {r : Except Exc (Option Int)} {p : Process} {s' : Sim}
    (hw : Process.wait Sim.kernel path fuel s.proc timeout ⟨s.world, 0, ticks, none⟩ = some (r, p, s')) :
    Bound pid c ⟨s'.world, p⟩ ∧ ∀ code, r = .ok (some code) ∨ p.exitcode = some (some code) →
      (s.proc.exitcode = some (some code) ∧ s'.world = s.world) ∨ CodeUnder pid P code s'.world := by
  obtain rfl := h.pid
  -- a call that changes nothing and returns no code
  have hsame : ∀ {r : Except Exc (Option Int)}, (∀ code, r ≠ .ok (some code)) →
      Bound s.proc.pid c ⟨s.world, s.proc⟩ ∧ ∀ code, r = .ok (some code) ∨ s.proc.exitcode = some (some code) →
        (s.proc.exitcode = some (some code) ∧ s.world = s.world) ∨ CodeUnder s.proc.pid P code s.world := fun hr =>
    ⟨h, fun code hcode => Or.inl ⟨hcode.resolve_left (hr code), rfl⟩⟩
  unfold Process.wait at hw
  split at hw
  · cases hw
    exact hsame (by simp)
  · split at hw
    · cases hw
      exact hsame (by simp)
    · split at hw
      · -- the cached result of an earlier call
        rename_i code hcached
        cases hw
        refine ⟨h, fun code' hcode => Or.inl ⟨?_, rfl⟩⟩
        rcases hcode with hcode | hcode
        · rw [hcached, Except.ok.inj hcode]
        · exact hcode
      · rename_i hnone
        have hkept : Sim.Kept c P ⟨s.world, 0, ticks, none⟩ := ⟨h.wf, h.used, hP⟩
        split at hw
        · cases hw
        · rename_i code s'' hr
          cases hw
          obtain ⟨hwf, hu, hown⟩ := Sim.reported (Sim.kernel_keeps.waitPid hkept hr)
          refine ⟨⟨hwf, hu, h.pid⟩, fun code' hcode => Or.inr (hown code' ?_)⟩
          rcases hcode with hcode | hcode
          · exact hcode
          · rw [Option.some.inj hcode]
        · rename_i s'' hr
          cases hw
          obtain ⟨hwf, hu, -⟩ := Sim.reported (Sim.kernel_keeps.waitPid hkept hr)
          exact ⟨⟨hwf, hu, h.pid⟩, by simp [hnone]⟩
        · rename_i e s'' _ hr
          cases hw
          obtain ⟨hwf, hu, -⟩ := Sim.reported (Sim.kernel_keeps.waitPid hkept hr)
          exact ⟨⟨hwf, hu, h.pid⟩, by simp [hnone]⟩

theorem Bound.step (s : Waiter) (ev : WaiterEv) (h : Bound pid c s) : Bound pid c (waiterMachine.step s ev).1 := by
  cases ev with
  | world ev => exact ⟨h.wf.step ev, World.used_step _ ev _ h.used, h.pid⟩
  | wait path fuel timeout ticks =>
    simp only [waiterMachine]
    split
    · exact h
    · rename_i r p s' hw
      exact (h.wait (P := fun _ => True) (Throughout.of_forall (fun _ => trivial) _ _) hw).1

/-- A process that is dead and reaped is not waited for, as long as nobody else gets the PID or an earlier call has
returned. -/
theorem Bound.atOnce {s : Waiter} (h : Bound pid c s) (hpid : pid ≠ 0) (ev : WaiterEv)
    (hc : s.proc.exitcode ≠ none ∨ During (World.Only pid c) ⟨s, ev, (waiterMachine.step s ev).2⟩) :
    AtOnce pid c ⟨s, ev, (waiterMachine.step s ev).2⟩ := by
  rintro path fuel timeout ticks rfl hf ⟨t, ht, hfloat⟩ hdead
  have hpos : ¬(pid = 0 ∨ ∃ t' ∈ t, t' < 0) := by
    rintro (h0 | ⟨t', ht', hneg⟩)
    · exact hpid h0
    · cases timeout with
      | none => cases ht; cases ht'
      | other type => cases ht
      | number q text =>
        simp only [TimeoutArg.check] at ht
        split at ht
        · cases ht
        · cases ht
          cases ht'
          contradiction
  simp only [waiterMachine, Process.wait, h.pid, hpid, if_false, ht]
  cases hcode : s.proc.exitcode with
  | some code => exact ⟨code, rfl⟩
  | none =>
    have halways := hc.resolve_left (not_not.2 hcode) path fuel timeout ticks rfl
    have hreaped : Sim.Reaped pid c ⟨s.world, 0, ticks, none⟩ := ⟨⟨h.wf, h.used, halways⟩, hdead⟩
    obtain ⟨s', hs', hclock⟩ := hreaped.waitPath hf path hfloat
    have hw : waitPid Sim.kernel path fuel pid t ⟨s.world, 0, ticks, none⟩ = some (.ok none, s') := by
      rw [waitPid, if_neg hpos, hs']
    simp only [hw]
    exact ⟨none, by rw [hclock]⟩

/-- A cached exit code is one of the process of the object. -/
structure OwnCached (pid c : Nat) (s : Waiter) : Prop extends Bound pid c s where
  cached : ∀ code, s.proc.exitcode = some (some code) → OwnCode c code s.world

/-- One wait while no other child has the PID. -/
theorem OwnCached.wait {s : Waiter} (h : OwnCached pid c s) {path : WaitPath} {fuel : Nat} {timeout : TimeoutArg}
    {ticks : List Tick} (hP : Throughout (World.OnlyChild pid c) s.world ticks) {r : Except Exc (Option Int)} {p : Process}
    {s' : Sim} (hw : Process.wait Sim.kernel path fuel s.proc timeout ⟨s.world, 0, ticks, none⟩ = some (r, p, s'))
    {code : Int} (hcode : r = .ok (some code) ∨ p.exitcode = some (some code)) : OwnCode c code s'.world := by
  rcases (h.toBound.wait hP hw).2 code hcode with ⟨hcached, hworld⟩ | ⟨w, e, honly, he, hchild, hown⟩
  · rw [hworld]
    exact h.cached code hcached
  · rw [← honly e he hchild]
    exact hown

theorem OwnCached.step {s : Waiter} (h : OwnCached pid c s) (ev : WaiterEv)
    (hc : During (World.OnlyChild pid c) ⟨s, ev, (waiterMachine.step s ev).2⟩) :
    OwnCached pid c (waiterMachine.step s ev).1 := by
  refine ⟨h.toBound.step s ev, ?_⟩
  cases ev with
  | world ev => exact fun code hcode => (h.cached code hcode).step ev
  | wait path fuel timeout ticks =>
    simp only [waiterMachine]
    split
    · exact h.cached
    · rename_i r p s' hw
      exact fun code hcode => h.wait (hc path fuel timeout ticks rfl) hw (Or.inr hcode)

theorem OwnCached.ownStatus {s : Waiter} (h : OwnCached pid c s) (ev : WaiterEv)
    (hc : During (World.OnlyChild pid c) ⟨s, ev, (waiterMachine.step s ev).2⟩) :
    OwnStatus c ⟨s, ev, (waiterMachine.step s ev).2⟩ := by
  intro code blocked hout
  cases ev with
  | world ev => cases hout
  | wait path fuel timeout ticks =>
    simp only [waiterMachine] at hout ⊢
    split at hout
    · cases hout
    · rename_i r p s' hw
      cases hout
      dsimp only
      exact h.wait (hc path fuel timeout ticks rfl) hw (Or.inl rfl)

/-- **`wait` is about the process of the object**: once this is dead and reaped, a call returns without blocking if no
other process has the PID while it runs or an earlier call has returned; and if no other child has the PID while the
calls of a run are running, an exit code that they return is that of the process. -/
theorem wait_own_incarnation (os : Os) (evs₀ : List WorldEv) {pid : Nat} {p : Process} {e : Entry}
    (hnew : Process.new os (World.init.steps evs₀) pid = .ok p) (he : (World.init.steps evs₀).holder pid = some e)
    (evs : List WaiterEv) :
    (∀ l ∈ waiterMachine.trace ⟨World.init.steps evs₀, p⟩ evs,
      l.pre.proc.exitcode ≠ none ∨ During (World.Only pid e.ctime) l → AtOnce pid e.ctime l) ∧
    ((∀ l ∈ waiterMachine.trace ⟨World.init.steps evs₀, p⟩ evs, During (World.OnlyChild pid e.ctime) l) →
      ∀ l ∈ waiterMachine.trace ⟨World.init.steps evs₀, p⟩ evs, OwnStatus e.ctime l) := by
  have hw : (World.init.steps evs₀).WF := World.wf_init.steps evs₀
  obtain ⟨hpid, hexit⟩ := Process.new_eq_ok hnew
  have hinit : OwnCached pid e.ctime ⟨World.init.steps evs₀, p⟩ :=
    ⟨⟨hw, (hw.ctime pid e he).2, hpid⟩, fun code hcode => by simp [hexit] at hcode⟩
  constructor
  · intro l hl hc
    obtain ⟨hbound, hout⟩ := waiterMachine.lines_of_inv Bound.step hinit.toBound hl
    obtain ⟨s, ev, out⟩ := l
    obtain rfl : out = (waiterMachine.step s ev).2 := hout
    exact hbound.atOnce (hw.pid pid e he).1 ev hc
  · intro hc l hl
    obtain ⟨hown, hout⟩ := waiterMachine.lines_of_inv_of (C := During (World.OnlyChild pid e.ctime))
      (fun s ev h hcl => h.step ev hcl) hinit hc hl
    have hcl := hc l hl
    obtain ⟨s, ev, out⟩ := l
    obtain rfl : out = (waiterMachine.step s ev).2 := hout
    exact hown.ownStatus ev hcl

/-- Process 1 of PID 5 is dead and reaped, and process 2 has its PID. With process 2 alive, and not a child,
`wait(0)` raises `TimeoutExpired`; with process 2 an ended child, `wait()` returns its exit code. -/
theorem wait_not_own_incarnation :
    (¬∀ (evs₀ : List WorldEv) (pid : Nat) (p : Process) (e : Entry),
      Process.new .linux (World.init.steps evs₀) pid = .ok p → (World.init.steps evs₀).holder pid = some e →
      ∀ evs, ∀ l ∈ waiterMachine.trace ⟨World.init.steps evs₀, p⟩ evs, AtOnce pid e.ctime l) ∧
    ¬∀ (evs₀ : List WorldEv) (pid : Nat) (p : Process) (e : Entry),
      Process.new .linux (World.init.steps evs₀) pid = .ok p → (World.init.steps evs₀).holder pid = some e →
      ∀ evs, ∀ l ∈ waiterMachine.trace ⟨World.init.steps evs₀, p⟩ evs, OwnStatus e.ctime l := by
  constructor
  · intro h
    have hlast := h [.birth 5 1 false] 5 ⟨5, none, none, (5, some 1), false, false, none⟩ ⟨1, false, none⟩ rfl rfl
      [.world (.exit 5 (.exited 0)), .world (.reap 5), .world (.birth 5 2 false), .wait .posix 1 (.number 0 "0") []]
      _ (List.mem_of_getElem? (i := 3) rfl) .posix 1 (.number 0 "0") [] rfl Nat.one_pos
      ⟨some 0, rfl, not_overflows (by norm_num)⟩ (by decide)
    obtain ⟨r, hr⟩ := hlast
    -- the check finds process 2, and the clock is at the deadline already
    have hfloat : ¬Overflows (some 0) := not_overflows (by norm_num)
    have hwait : ∀ s, waitPidPosix Sim.kernel 1 5 (some 0) s = waitLoop Sim.kernel 5 (some 0) none 1 backoff.first s :=
      fun s => waitPidPosix_of_not_overflows hfloat
    simp only [waiterMachine, Process.wait, TimeoutArg.check, lt_irrefl, OfNat.ofNat_ne_zero, if_false, false_or, waitPid, waitPath,
      Option.mem_some_iff, exists_eq_left', hwait] at hr
    cases hr
  · intro h
    have hlast := h [.birth 5 1 false] 5 ⟨5, none, none, (5, some 1), false, false, none⟩ ⟨1, false, none⟩ rfl rfl
      [.world (.exit 5 (.exited 0)), .world (.reap 5), .world (.birth 5 2 true), .world (.exit 5 (.exited 7)),
        .wait .posix 1 .none []]
      _ (List.mem_of_getElem? (i := 4) rfl) 7 0 rfl
    obtain ⟨status, hm, hcode⟩ := hlast
    have hm' : (1, status) ∈ [(2, WaitStatus.exited 7), (1, WaitStatus.exited 0)] := hm
    obtain rfl : status = .exited 0 := by simpa using hm'
    cases hcode

/-- A child of the caller ends with 3: the first `wait()` reaps it, and the second one, with the PID free, returns
the cached code. -/
theorem wait_own_incarnation_twice : ¬∃ l ∈ waiterMachine.trace
    ⟨World.init.steps [.birth 5 1 true], ⟨5, none, none, (5, some 1), false, false, none⟩⟩
    [.world (.exit 5 (.exited 3)), .wait .pidfdOpen 1 .none [], .wait .pidfdOpen 1 (.number 0 "0") []],
    ¬(OwnStatus 1 l ∧ AtOnce 5 1 l) := by
  rintro ⟨l, hl, hno⟩
  have honly : ∀ l ∈ waiterMachine.trace ⟨World.init.steps [.birth 5 1 true], ⟨5, none, none, (5, some 1), false, false, none⟩⟩
      [.world (.exit 5 (.exited 3)), .wait .pidfdOpen 1 .none [], .wait .pidfdOpen 1 (.number 0 "0") []],
      During (World.Only 5 1) l := by
    intro l hl
    simp only [Machine.trace, List.mem_cons, List.not_mem_nil, or_false] at hl
    rcases hl with rfl | rfl | rfl <;> intro path fuel timeout ticks hev <;> cases hev
    · exact of_decide_eq_true rfl
    · exact of_decide_eq_true rfl
  have hnew : Process.new .linux (World.init.steps [.birth 5 1 true]) 5 =
      .ok ⟨5, none, none, (5, some 1), false, false, none⟩ := rfl
  obtain ⟨hat, hstatus⟩ := wait_own_incarnation .linux [.birth 5 1 true] hnew (e := ⟨1, true, none⟩) rfl
    [.world (.exit 5 (.exited 3)), .wait .pidfdOpen 1 .none [], .wait .pidfdOpen 1 (.number 0 "0") []]
  refine hno ⟨hstatus (fun l hl => ?_) l hl, hat l hl (Or.inr (honly l hl))⟩
  exact fun path fuel timeout ticks hev => (honly l hl path fuel timeout ticks hev).imp fun w h e he _ => h e he

end Psutil
