import Psutil.Proc.Spec

/-!
# PID reuse: what signals and setters act on

`actions_safe_iff`: in a run, the calls on an object act on its own process or on a free PID only, exactly
when no call meets an object that was found gone while its PID was free and whose PID has been given to
another process since: `_gone` makes `is_running` return early, and `_pid_reused` is then never set.
-/

namespace Psutil

open Lib

/-- What an action on an object bound to the incarnation `c` of `pid` may do: if it reaches the PID, this
is held by `c` or by nobody, and if it is held by another process the call raises `NoSuchProcess`. -/
def ActsSafely (pid c : Nat) (w : World) : SysOut → Prop
  | .acted result action =>
    (action ≠ none → ∀ e, w.holder pid = some e → e.ctime = c) ∧
      ∀ e, w.holder pid = some e → e.ctime ≠ c →
        (∃ name msg, result = .error (.noSuchProcess pid name msg)) ∧ action = none
  | _ => False

/-- The object was found gone, not reused, and another process than `c` holds its PID now. -/
def MissedReuse (o c : Nat) (s : Sys) : Prop :=
  ∃ p e, s.procs[o]? = some p ∧ p.gone = true ∧ p.pidReused = false ∧ s.world.holder p.pid = some e ∧ e.ctime ≠ c

/-- The object `o` is bound to the incarnation `c` of `pid`. -/
def BoundTo (o pid c : Nat) (s : Sys) : Prop := ∃ p, s.procs[o]? = some p ∧ p.pid = pid ∧ p.ident = (pid, some c)

variable {os : Os}

theorem BoundTo.step {o pid c : Nat} {s : Sys} (h : BoundTo o pid c s) (ev : SysEv) :
    BoundTo o pid c ((sysMachine os).step s ev).1 := by
  obtain ⟨p, hp, hpid, hid⟩ := h
  obtain ⟨p', hp', hpid', hid'⟩ := Sys.old_object os hp ev
  exact ⟨p', hp', hpid'.trans hpid, hid'.trans hid⟩

/-- One action is safe iff the object has not missed a reuse of its PID. -/
theorem act_safe_iff (hos : os.monotonicIdent = true) {s : Sys} (hw : s.world.WF) {o pid c : Nat} (hpid : pid ≠ 0)
    (hc : c ≠ 0) (h : BoundTo o pid c s) (call : ActionCall) :
    ActsSafely pid c s.world ((sysMachine os).step s (.act o call)).2 ↔ ¬MissedReuse o c s := by
  obtain ⟨p, hp, rfl, hid⟩ := h
  have hout : ((sysMachine os).step s (.act o call)).2 =
      .acted (p.act os s.world call).result (p.act os s.world call).acted := by
    simp [sysMachine, Sys.act, hp]
  have hmiss : MissedReuse o c s ↔ p.gone = true ∧ p.pidReused = false ∧
      ∃ e, s.world.holder p.pid = some e ∧ e.ctime ≠ c := by
    simp [MissedReuse, hp]
  rw [hout, hmiss]
  have hpass := Process.raiseIfPidReused_eq_none hos hw hid hc
  cases hr : (p.raiseIfPidReused os s.world).1 with
  | some x =>
    -- the check raised: nothing is done, and the flags rule out a missed reuse
    obtain ⟨hres, hact⟩ := Process.act_of_raise hr call
    obtain rfl := Process.raiseIfPidReused_eq_some hr
    refine iff_of_true ⟨fun hne => absurd hact hne, fun e he hne => ⟨⟨_, _, hres⟩, hact⟩⟩ ?_
    rintro ⟨hg, hf, -⟩
    rw [hpass.2 ⟨hf, Or.inl hg⟩] at hr
    cases hr
  | none =>
    obtain ⟨hf, hor⟩ := hpass.1 hr
    have hacted := Process.act_of_pass hr hpid call
    constructor
    · rintro ⟨hsafe, -⟩ ⟨-, -, e, he, hne⟩
      exact hne (hsafe hacted e he)
    · intro hno
      have hheld : ∀ e, s.world.holder p.pid = some e → e.ctime = c := by
        rcases hor with hg | hheld
        · intro e he
          by_contra hne
          exact hno ⟨hg, hf, e, he, hne⟩
        · exact hheld
      exact ⟨fun _ => hheld, fun e he hne => absurd (hheld e he) hne⟩

/-- **Signals and setters act on the right process, exactly when** no call meets an object that has missed
a reuse of its PID. The object is any one that a step of a run builds, and `e` is the process that held its
PID then; the calls are all those on it in the rest of the run. -/
theorem actions_safe_iff (hos : os.monotonicIdent = true) (evs : List SysEv) (ev : SysEv) {o : Nat} {p : Process}
    (hnew : ((sysMachine os).run .init evs).procs.length ≤ o)
    (hp : ((sysMachine os).run .init (evs ++ [ev])).procs[o]? = some p) :
    ∃ e, ((sysMachine os).run .init evs).world.holder p.pid = some e ∧ ∀ rest : List SysEv,
      ((∀ l ∈ (sysMachine os).trace ((sysMachine os).run .init (evs ++ [ev])) rest, ∀ call,
          l.ev = .act o call → ActsSafely p.pid e.ctime l.pre.world l.out) ↔
        ∀ l ∈ (sysMachine os).trace ((sysMachine os).run .init (evs ++ [ev])) rest, ∀ call,
          l.ev = .act o call → ¬MissedReuse o e.ctime l.pre) := by
  have hw := Sys.world_wf os evs
  have hw' := Sys.world_wf os (evs ++ [ev])
  have hrun : (sysMachine os).run .init (evs ++ [ev]) =
      ((sysMachine os).step ((sysMachine os).run .init evs) ev).1 := (sysMachine os).run_append _ _ _
  obtain ⟨e, he, hid⟩ := Sys.new_object hos hw hnew (hrun ▸ hp)
  obtain ⟨hpid, -⟩ := hw.pid _ e he
  obtain ⟨hc, -⟩ := hw.ctime _ e he
  refine ⟨e, he, fun rest => ?_⟩
  have hstep : ∀ (s : Sys) (ev : SysEv), s.world.WF ∧ BoundTo o p.pid e.ctime s →
      ((sysMachine os).step s ev).1.world.WF ∧ BoundTo o p.pid e.ctime ((sysMachine os).step s ev).1 :=
    fun s ev h => ⟨Sys.world_wf_step s ev h.1, h.2.step ev⟩
  refine forall₂_congr fun l hl => forall_congr' fun call => imp_congr_right fun hev => ?_
  obtain ⟨⟨hwl, hb⟩, hout⟩ := (sysMachine os).lines_of_inv hstep ⟨hw', p, hp, rfl, hid⟩ hl
  rw [hout, hev]
  exact act_safe_iff hos hwl hpid hc hb call

/-- The process 1 that held PID 5 is found gone, the PID goes to process 2, and `kill()` hits that one. -/
theorem kill_hits_other_process : ¬∀ (evs : List SysEv) (ev : SysEv) (o : Nat) (p : Process) (e : Entry),
    ((sysMachine .linux).run .init evs).procs.length ≤ o →
    ((sysMachine .linux).run .init (evs ++ [ev])).procs[o]? = some p →
    ((sysMachine .linux).run .init evs).world.holder p.pid = some e →
    ∀ rest, ∀ l ∈ (sysMachine .linux).trace ((sysMachine .linux).run .init (evs ++ [ev])) rest, ∀ call,
      l.ev = .act o call → ActsSafely p.pid e.ctime l.pre.world l.out := by
  intro h
  have hlast := h [.world (.birth 5 1 false)] (.new 5) 0 ⟨5, none, none, (5, some 1), false, false, none⟩
    ⟨1, false, none⟩ (by decide) rfl rfl
    [.world (.exit 5 (.exited 0)), .world (.reap 5), .isRunning 0, .world (.birth 5 2 false), .act 0 (.kill true)]
    _ (List.mem_of_getElem? (i := 4) rfl) (.kill true) rfl
  exact absurd (hlast.1 (Option.some_ne_none (Action.signal .sigkill)) ⟨2, false, none⟩ rfl) (by decide)

/-- Without the `is_running()` call in between, the reuse is noticed and `kill()` does nothing. -/
theorem kill_spares_other_process : ∃ e, ((sysMachine .linux).run .init [.world (.birth 5 1 false)]).world.holder 5 = some e ∧
    ∀ l ∈ (sysMachine .linux).trace ((sysMachine .linux).run .init [.world (.birth 5 1 false), .new 5])
      [.world (.exit 5 (.exited 0)), .world (.reap 5), .world (.birth 5 2 false), .act 0 (.kill true)],
      ∀ call, l.ev = .act 0 call → ActsSafely 5 e.ctime l.pre.world l.out := by
  obtain ⟨e, he, h⟩ := @actions_safe_iff .linux rfl [.world (.birth 5 1 false)] (.new 5) 0
    ⟨5, none, none, (5, some 1), false, false, none⟩ (by decide) rfl
  refine ⟨e, he, (h _).2 fun l hl call hev => ?_⟩
  simp only [Machine.trace, List.mem_cons, List.not_mem_nil, or_false] at hl
  rcases hl with rfl | rfl | rfl | rfl <;> cases hev
  rintro ⟨p, e', hp, hg, -⟩
  cases hp
  cases hg

end Psutil
