import Psutil.Proc.PidReuse

/-!
# `is_running` over whole runs

`Told` ties the two latched flags of an object to the process table: once `_gone` or `_pid_reused` is set, the
process of the object does not hold its PID any more, and so never will. `is_running_truth` reads off what `is_running`
returns, that a `False` is final, and which PIDs get into `_pids_reused`.
-/

namespace Psutil

open Lib

/-- What a call on an object may do to it: its binding stays, and a flag is set only if nobody with its identity
holds the PID. -/
structure Noted (os : Os) (w : World) (p p' : Process) : Prop where
  binding : SameBinding p p'
  flags : p'.gone = true ∨ p'.pidReused = true →
    (p.gone = true ∨ p.pidReused = true) ∨ getIdent os w p.pid ≠ some p.ident

namespace Process

variable {os : Os} {w : World}

theorem noted_refl (os : Os) (w : World) (p : Process) : Noted os w p p := ⟨⟨rfl, rfl⟩, Or.inl⟩

/-- A new object for a PID has the identity of its holder. -/
theorem getIdent_of_new {pid : Nat} {p : Process} (h : new os w pid = .ok p) : getIdent os w pid = some p.ident := by
  unfold new at h
  split at h
  · cases h
  · split at h
    · rename_i ident hi
      cases h
      exact hi
    · cases h

theorem new_flags {pid : Nat} {p : Process} (h : new os w pid = .ok p) : p.gone = false ∧ p.pidReused = false := by
  unfold new at h
  split at h
  · cases h
  · split at h
    · cases h
      exact ⟨rfl, rfl⟩
    · cases h

theorem getIdent_of_new_error (hw : w.WF) {pid : Nat} {e : Exc} (h : new os w pid = .error e) :
    getIdent os w pid = none := by
  cases hh : w.holder pid with
  | none => simp [getIdent, hh]
  | some e' =>
    obtain ⟨p, hp, -⟩ := new_of_holder os hw hh
    rw [h] at hp
    cases hp

theorem isRunning_noted (hw : w.WF) (p : Process) : Noted os w p (p.isRunning os w).proc := by
  refine ⟨p.isRunning_ident, fun h => ?_⟩
  unfold isRunning at h
  split at h
  · exact Or.inl h
  · split at h
    · rename_i other hother
      split at h
      · exact Or.inl h
      · rename_i hne
        right
        rw [getIdent_of_new hother]
        intro hsame
        have heq : p.eq other = true := by
          rw [Process.eq, Option.some.inj hsame]
          exact decide_eq_true (cmpIdents_self p.ident)
        exact hne heq
    · rename_i e he
      right
      rw [getIdent_of_new_error hw he]
      simp

theorem raiseIfPidReused_noted (hw : w.WF) (p : Process) : Noted os w p (p.raiseIfPidReused os w).2.1 := by
  unfold raiseIfPidReused
  split
  · exact noted_refl os w p
  · exact isRunning_noted hw p

/-- Only an `ESRCH` for a free PID sets `_gone`: on OpenBSD a zombie is told apart first. -/
theorem holder_of_esrch {pid : Nat} {allowed : Bool} (h : osKill os w pid allowed = .esrch)
    (hno : ¬(os = .openbsd ∧ pidExists w pid = true)) : w.holder pid = none := by
  unfold osKill at h
  split at h
  · assumption
  · rename_i e he
    split at h
    · rename_i hbsd
      exact absurd ⟨hbsd.1, by simp [pidExists, he]⟩ hno
    · split at h <;> cases h

theorem sendSignal_noted (hw : w.WF) (p : Process) (sig : Signal) (allowed : Bool) :
    Noted os w p (p.sendSignal os w sig allowed).proc := by
  have hp : Noted os w p (p.raiseIfPidReused os w).2.1 := raiseIfPidReused_noted hw p
  unfold sendSignal
  split
  · rename_i e p' d hr
    rwa [hr] at hp
  · rename_i p' d hr
    rw [hr] at hp
    split
    · exact hp
    · split
      · exact hp
      · rename_i hk
        split
        · exact hp
        · rename_i hno
          have hfree : w.holder p.pid = none := by
            rw [← hp.binding.1]
            exact holder_of_esrch hk hno
          exact ⟨hp.binding, fun _ => Or.inr (by simp [getIdent, hfree])⟩
      · exact hp

theorem set_noted (hw : w.WF) (p : Process) (s : Setter) (reply : Except Exc Unit) :
    Noted os w p (p.set os w s reply).proc := by
  have hp : Noted os w p (p.raiseIfPidReused os w).2.1 := raiseIfPidReused_noted hw p
  unfold Process.set
  split
  · rename_i e p' d hr
    rwa [hr] at hp
  · rename_i p' d hr
    rwa [hr] at hp

theorem act_noted (hw : w.WF) (p : Process) (c : ActionCall) : Noted os w p (p.act os w c).proc := by
  cases c <;> first | exact sendSignal_noted hw p _ _ | exact set_noted hw p _ _

/-- The reuse is detected only if a process with another identity holds the PID. -/
theorem isRunning_detected {p : Process} (h : (p.isRunning os w).detected = true) :
    ∃ ident, getIdent os w p.pid = some ident ∧ ident ≠ p.ident := by
  unfold isRunning at h
  split at h
  · cases h
  · split at h
    · rename_i other hother
      split at h
      · cases h
      · rename_i hne
        refine ⟨other.ident, getIdent_of_new hother, fun hsame => hne ?_⟩
        rw [Process.eq, hsame]
        exact decide_eq_true (cmpIdents_self p.ident)
    · cases h

theorem raiseIfPidReused_detected {p : Process} (h : (p.raiseIfPidReused os w).2.2 = true) :
    ∃ ident, getIdent os w p.pid = some ident ∧ ident ≠ p.ident := by
  unfold raiseIfPidReused at h
  split at h
  · cases h
  · exact isRunning_detected h

/-- A signal or a setter detects what its check detects. -/
theorem act_detected (p : Process) (c : ActionCall) :
    (p.act os w c).detected = (p.raiseIfPidReused os w).2.2 := by
  have hsig : ∀ sig allowed, (p.sendSignal os w sig allowed).detected = (p.raiseIfPidReused os w).2.2 := by
    intro sig allowed
    unfold sendSignal
    split
    · rename_i e p' d hr
      rw [hr]
    · rename_i p' d hr
      rw [hr]
      split
      · rfl
      · split
        · rfl
        · split <;> rfl
        · rfl
  have hset : ∀ s reply, (p.set os w s reply).detected = (p.raiseIfPidReused os w).2.2 := by
    intro s reply
    unfold Process.set
    split <;> rename_i hr <;> rw [hr]
  cases c <;> first | exact hsig _ _ | exact hset _ _

end Process

/-- The process `c` of the object does not hold its PID any more, once a flag is set. -/
def Told (o c : Nat) (s : Sys) : Prop :=
  ∀ p, s.procs[o]? = some p → p.gone = true ∨ p.pidReused = true → ∀ e, s.world.holder p.pid = some e → e.ctime ≠ c

structure Truthful (o pid c : Nat) (s : Sys) : Prop where
  world : s.world.WF
  used : c ∈ s.world.used
  bound : BoundTo o pid c s
  told : Told o c s

/-- The object is as it should be, and its process does not hold the PID any more. -/
def Absent (o pid c : Nat) (s : Sys) : Prop :=
  Truthful o pid c s ∧ ∀ e, s.world.holder pid = some e → e.ctime ≠ c

variable {os : Os}

theorem used_step (s : Sys) (ev : SysEv) : ∀ c ∈ s.world.used, c ∈ ((sysMachine os).step s ev).1.world.used := by
  intro c hc
  rw [Sys.step_world]
  cases ev with
  | world ev => exact World.used_step _ ev c hc
  | _ => exact hc

/-- A process that does not hold its PID does not after a step either. -/
theorem gone_step {pid c : Nat} {s : Sys} (hu : c ∈ s.world.used) (h : ∀ e, s.world.holder pid = some e → e.ctime ≠ c)
    (ev : SysEv) : ∀ e, ((sysMachine os).step s ev).1.world.holder pid = some e → e.ctime ≠ c := by
  rw [Sys.step_world]
  cases ev with
  | world ev => exact World.never_again hu h ev
  | _ => exact h

theorem Truthful.step (hos : os.monotonicIdent = true) {o pid c : Nat} (s : Sys) (ev : SysEv)
    (h : Truthful o pid c s) : Truthful o pid c ((sysMachine os).step s ev).1 := by
  refine ⟨Sys.world_wf_step s ev h.world, used_step s ev c h.used, h.bound.step ev, fun p' hp' hflag => ?_⟩
  obtain ⟨p, hp, hpid, hid⟩ := h.bound
  obtain ⟨p'', hp'', hnoted⟩ := Sys.old_object_of os (Process.noted_refl os s.world) (Process.isRunning_noted h.world)
    (Process.act_noted h.world) hp ev
  obtain rfl : p' = p'' := Option.some.inj (hp'.symm.trans hp'')
  rw [hnoted.binding.1]
  refine gone_step h.used ?_ ev
  rcases hnoted.flags hflag with hflag | hident
  · exact h.told p hp hflag
  · intro e he hc
    have hsome : getIdent os s.world p.pid = some p.ident := by
      rw [getIdent, he, Option.map_some, hos, if_pos rfl, hc, hid, hpid]
    exact hident hsome

/-- What a call returns. -/
theorem Truthful.isRunning (hos : os.monotonicIdent = true) {o pid c : Nat} {s : Sys} (h : Truthful o pid c s) (hc : c ≠ 0) :
    ∃ b, ((sysMachine os).step s (.isRunning o)).2 = .running b ∧
      (b = true ↔ ∃ e, s.world.holder pid = some e ∧ e.ctime = c) := by
  obtain ⟨p, hp, rfl, hid⟩ := h.bound
  refine ⟨(p.isRunning os s.world).result, by simp [sysMachine, Sys.isRunning, hp], ?_⟩
  by_cases hflag : p.gone = true ∨ p.pidReused = true
  · rw [Process.isRunning_of_flag hflag]
    refine iff_of_false Bool.false_ne_true ?_
    rintro ⟨e, he, hec⟩
    exact h.told p hp hflag e he hec
  · rw [not_or, Bool.not_eq_true, Bool.not_eq_true] at hflag
    rw [Process.isRunning_eq hos h.world hid hc hflag]
    cases hh : s.world.holder p.pid with
    | none => simp
    | some e => by_cases hec : e.ctime = c <;> simp [hec]

/-- A call that returned `False` found the process gone. -/
theorem Truthful.absent (hos : os.monotonicIdent = true) {o pid c : Nat} {s : Sys} (h : Truthful o pid c s) (hc : c ≠ 0)
    (hfalse : ((sysMachine os).step s (.isRunning o)).2 = .running false) : Absent o pid c s := by
  obtain ⟨b, hb, htrue⟩ := h.isRunning hos hc
  refine ⟨h, fun e he hec => ?_⟩
  rw [hb] at hfalse
  cases hfalse
  exact Bool.false_ne_true (htrue.2 ⟨e, he, hec⟩)

theorem Absent.step (hos : os.monotonicIdent = true) {o pid c : Nat} (s : Sys) (ev : SysEv) (h : Absent o pid c s) :
    Absent o pid c ((sysMachine os).step s ev).1 := ⟨h.1.step hos s ev, gone_step h.1.used h.2 ev⟩

/-- It stays gone, and every later call returns `False` as well. -/
theorem Absent.isRunning (hos : os.monotonicIdent = true) {o pid c : Nat} {s : Sys} (h : Absent o pid c s) (hc : c ≠ 0) :
    ((sysMachine os).step s (.isRunning o)).2 = .running false := by
  obtain ⟨b, hb, htrue⟩ := h.1.isRunning hos hc
  rw [hb]
  cases b with
  | false => rfl
  | true =>
    obtain ⟨e, he, hec⟩ := htrue.1 rfl
    exact absurd hec (h.2 e he)

theorem resume_pidsReused (s : Sys) (g : Nat) (gen : Gen) : (s.resume os g gen).1.pidsReused = s.pidsReused := by
  unfold Sys.resume
  dsimp only
  split <;> rfl

/-- Only a detected reuse adds to `_pids_reused`, and adds the PID of the object. -/
theorem mem_flagReused {s : Sys} {procs : List Process} {d : Bool} {pid q : Nat} (hnew : pid ∉ s.pidsReused)
    (h : pid ∈ ({ s with procs := procs }.flagReused d q).pidsReused) : d = true ∧ pid = q := by
  unfold Sys.flagReused at h
  split at h
  · rename_i hd
    rw [List.mem_append, List.mem_singleton] at h
    exact ⟨((Bool.and_eq_true _ _).mp hd).1, h.resolve_left hnew⟩
  · exact absurd h hnew

/-- A PID gets into `_pids_reused` by a call on an object of this PID, and only if a process with another
identity holds it. -/
theorem mem_pidsReused_step {s : Sys} {ev : SysEv} {pid : Nat} (hnew : pid ∉ s.pidsReused)
    (h : pid ∈ ((sysMachine os).step s ev).1.pidsReused) :
    ∃ o p, (ev = .isRunning o ∨ ∃ c, ev = .act o c) ∧ s.procs[o]? = some p ∧ p.pid = pid ∧
      ∃ ident, getIdent os s.world pid = some ident ∧ ident ≠ p.ident := by
  cases ev with
  | world ev => exact absurd h hnew
  | new pid' =>
    simp only [sysMachine] at h
    split at h <;> exact absurd h hnew
  | isRunning o =>
    simp only [sysMachine, Sys.isRunning] at h
    split at h
    · exact absurd h hnew
    · rename_i p hp
      obtain ⟨hd, rfl⟩ := mem_flagReused hnew h
      exact ⟨o, p, Or.inl rfl, hp, rfl, Process.isRunning_detected hd⟩
  | act o c =>
    simp only [sysMachine, Sys.act] at h
    split at h
    · exact absurd h hnew
    · rename_i p hp
      obtain ⟨hd, rfl⟩ := mem_flagReused hnew h
      rw [Process.act_detected] at hd
      exact ⟨o, p, Or.inr ⟨c, rfl⟩, hp, rfl, Process.raiseIfPidReused_detected hd⟩
  | iterStart =>
    simp only [sysMachine, Sys.iterStart, resume_pidsReused] at h
    cases h
  | iterNext g =>
    simp only [sysMachine, Sys.iterNext] at h
    split at h
    · split at h
      · rw [resume_pidsReused] at h
        exact absurd h hnew
      · exact absurd h hnew
    · exact absurd h hnew
  | iterClose g =>
    simp only [sysMachine, Sys.iterClose] at h
    split at h
    · split at h <;> exact absurd h hnew
    · exact absurd h hnew
  | cacheClear => exact absurd h hnew

/-- **`is_running` tells the truth and latches.** The object is any one that a step of a run builds, and `e` is the
process that held its PID then; in the rest of the run a call returns `True` exactly while `e` holds the PID, the calls
after one that returned `False` return `False`, and a PID is added to `_pids_reused` only by a call on an object of this
PID that is held by another process than the object's. -/
theorem is_running_truth {os : Os} (hos : os.monotonicIdent = true) (evs : List SysEv) (ev : SysEv) {o : Nat} {p : Process}
    (hnew : ((sysMachine os).run .init evs).procs.length ≤ o)
    (hp : ((sysMachine os).run .init (evs ++ [ev])).procs[o]? = some p) :
    ∃ e, ((sysMachine os).run .init evs).world.holder p.pid = some e ∧ ∀ rest : List SysEv,
      (∀ l ∈ (sysMachine os).trace ((sysMachine os).run .init (evs ++ [ev])) rest, l.ev = .isRunning o →
        ∃ b, l.out = .running b ∧ (b = true ↔ ∃ e', l.pre.world.holder p.pid = some e' ∧ e'.ctime = e.ctime)) ∧
      ((sysMachine os).trace ((sysMachine os).run .init (evs ++ [ev])) rest).Pairwise (fun l₁ l₂ =>
        l₁.ev = .isRunning o → l₁.out = .running false → l₂.ev = .isRunning o → l₂.out = .running false) ∧
      ∀ l ∈ (sysMachine os).trace ((sysMachine os).run .init (evs ++ [ev])) rest, ∀ pid, pid ∉ l.pre.pidsReused →
        pid ∈ ((sysMachine os).step l.pre l.ev).1.pidsReused → ∃ o' p' e', (l.ev = .isRunning o' ∨ ∃ c, l.ev = .act o' c) ∧
          l.pre.procs[o']? = some p' ∧ p'.pid = pid ∧ l.pre.world.holder pid = some e' ∧ p'.ident ≠ (pid, some e'.ctime) := by
  have hw := Sys.world_wf os evs
  have hrun : (sysMachine os).run .init (evs ++ [ev]) =
      ((sysMachine os).step ((sysMachine os).run .init evs) ev).1 := (sysMachine os).run_append _ _ _
  obtain ⟨e, he, hid⟩ := Sys.new_object hos hw hnew (hrun ▸ hp)
  obtain ⟨hc, hused⟩ := hw.ctime _ e he
  have hinit : Truthful o p.pid e.ctime ((sysMachine os).run .init (evs ++ [ev])) := by
    refine ⟨Sys.world_wf os _, hrun ▸ used_step _ ev _ hused, ⟨p, hp, rfl, hid⟩, fun p' hp' hflag => ?_⟩
    obtain rfl : p = p' := Option.some.inj (hp.symm.trans hp')
    obtain ⟨pid, hbuilt⟩ := Sys.built_object hnew (hrun ▸ hp)
    obtain ⟨hgone, hreused⟩ := Process.new_flags hbuilt
    simp [hgone, hreused] at hflag
  have hstep : ∀ s ev, Truthful o p.pid e.ctime s → Truthful o p.pid e.ctime ((sysMachine os).step s ev).1 :=
    Truthful.step hos
  refine ⟨e, he, fun rest => ⟨?_, ?_, ?_⟩⟩
  · intro l hl hev
    obtain ⟨hinv, hout⟩ := (sysMachine os).lines_of_inv hstep hinit hl
    rw [hout, hev]
    exact hinv.isRunning hos hc
  · refine (sysMachine os).pairwise_trace hstep (fun s e₁ hs es l hl hev₁ hout₁ hev => ?_) hinit rest
    -- the first call found the process gone, and it stays so
    obtain rfl : e₁ = .isRunning o := hev₁
    have hgone : Absent o p.pid e.ctime ((sysMachine os).step s (.isRunning o)).1 := (hs.absent hos hc hout₁).step hos s _
    obtain ⟨hinv, hout⟩ := (sysMachine os).lines_of_inv (Absent.step hos) hgone hl
    rw [hout, hev]
    exact hinv.isRunning hos hc
  · intro l hl pid hno hmem
    obtain ⟨o', p', hev, hp', hpid, ident, hident, hne⟩ := mem_pidsReused_step hno hmem
    obtain ⟨e', he', rfl⟩ := Option.map_eq_some_iff.1 hident
    rw [hos, if_pos rfl] at hne
    exact ⟨o', p', e', hev, hp', hpid, he', hne.symm⟩

/-- `is_running` on an object whose process is replaced: `True`, then `False` twice, and PID 5 is added once. -/
theorem is_running_truth_reused : ∃ e, ((sysMachine .linux).run .init [.world (.birth 5 1 false)]).world.holder 5 = some e ∧
    ∀ l ∈ (sysMachine .linux).trace ((sysMachine .linux).run .init [.world (.birth 5 1 false), .new 5])
      [.isRunning 0, .world (.exit 5 (.exited 0)), .world (.reap 5), .world (.birth 5 2 false), .isRunning 0, .isRunning 0],
      l.ev = .isRunning 0 → ∃ b, l.out = .running b ∧
        (b = true ↔ ∃ e', l.pre.world.holder 5 = some e' ∧ e'.ctime = e.ctime) := by
  obtain ⟨e, he, h⟩ := @is_running_truth .linux rfl [.world (.birth 5 1 false)] (.new 5) 0
    ⟨5, none, none, (5, some 1), false, false, none⟩ (by decide) rfl
  exact ⟨e, he, (h _).1⟩

end Psutil
