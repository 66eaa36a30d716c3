import Psutil.Proc.System

/-!
# What the methods and the steps do

One lemma for each method of `Process` on the platforms with a monotonic identity, one for the loop of
`process_iter`, and `step_procs`: a step leaves the identity of every object alone, and an object it
builds is bound to the process that holds the PID at that moment.
-/

namespace Psutil

open Lib

namespace Process

variable {os : Os} {w : World} {pid : Nat}

theorem new_of_free (os : Os) (h : w.holder pid = none) : ∃ e, new os w pid = .error e := by
  unfold new
  split
  · exact ⟨_, rfl⟩
  · exact ⟨.noSuchProcess pid none "process PID not found", by simp [getIdent, h]⟩

/-- The object for a PID that is held: bound to its holder, and nothing known to be wrong with it. -/
theorem new_of_held (hos : os.monotonicIdent = true) (hw : w.WF) {e : Entry} (h : w.holder pid = some e) :
    new os w pid = .ok ⟨pid, none, none, (pid, some e.ctime), false, false, none⟩ := by
  have hmax := (hw.pid pid e h).2
  simp [new, getIdent, h, hos, not_lt.2 hmax]

theorem new_eq_ok {p : Process} (h : new os w pid = .ok p) : p.pid = pid ∧ p.exitcode = none := by
  unfold new at h
  split at h
  · cases h
  · split at h
    · cases h
      exact ⟨rfl, rfl⟩
    · cases h

/-- On any platform the object for a PID that is held has the identity of its holder. -/
theorem new_of_holder (os : Os) (hw : w.WF) {e : Entry} (h : w.holder pid = some e) :
    ∃ p, new os w pid = .ok p ∧ p.pid = pid ∧ getIdent os w pid = some p.ident := by
  have hmax := (hw.pid pid e h).2
  refine ⟨⟨pid, none, none, (pid, if os.monotonicIdent then some e.ctime else none), false, false, none⟩, ?_, rfl, ?_⟩
  · simp [new, getIdent, h, not_lt.2 hmax]
  · simp [getIdent, h]

theorem cmpIdents_eq {c c' : Nat} (hc : c ≠ 0) (hc' : c' ≠ 0) :
    cmpIdents (pid, some c) (pid, some c') = if c' = c then .same else .different := by
  simp [cmpIdents, isNull, hc, hc', eq_comm]

/-- `is_running` on an object bound to the incarnation `c`. -/
theorem isRunning_eq (hos : os.monotonicIdent = true) (hw : w.WF) {p : Process} {c : Nat}
    (hid : p.ident = (p.pid, some c)) (hc : c ≠ 0) (hflags : p.gone = false ∧ p.pidReused = false) :
    p.isRunning os w = match w.holder p.pid with
      | none => ⟨false, { p with gone := true }, false⟩
      | some e => if e.ctime = c then ⟨true, p, false⟩ else ⟨false, { p with pidReused := true, gone := true }, true⟩ := by
  unfold isRunning
  rw [hflags.1, hflags.2]
  cases h : w.holder p.pid with
  | none =>
    obtain ⟨e, he⟩ := new_of_free os h
    simp [he]
  | some e =>
    have hc' := (hw.ctime _ e h).1
    rw [new_of_held hos hw h]
    simp only [Process.eq, hid, cmpIdents_eq hc hc']
    by_cases e' : e.ctime = c <;> simp [e']

theorem isRunning_of_flag {p : Process} (h : p.gone = true ∨ p.pidReused = true) :
    p.isRunning os w = ⟨false, p, false⟩ := by
  simp [isRunning, h]

/-- No method changes which process an object is bound to. -/
theorem isRunning_ident (p : Process) :
    (p.isRunning os w).proc.pid = p.pid ∧ (p.isRunning os w).proc.ident = p.ident := by
  unfold isRunning
  split
  · exact ⟨rfl, rfl⟩
  · split
    · split <;> exact ⟨rfl, rfl⟩
    · exact ⟨rfl, rfl⟩

theorem raiseIfPidReused_ident (os : Os) (w : World) (p : Process) :
    (p.raiseIfPidReused os w).2.1.pid = p.pid ∧ (p.raiseIfPidReused os w).2.1.ident = p.ident := by
  unfold raiseIfPidReused
  split
  · exact ⟨rfl, rfl⟩
  · exact isRunning_ident p

/-- The check lets a call pass exactly in these cases; the second one is the object found gone before. -/
theorem raiseIfPidReused_eq_none (hos : os.monotonicIdent = true) (hw : w.WF) {p : Process} {c : Nat}
    (hid : p.ident = (p.pid, some c)) (hc : c ≠ 0) :
    (p.raiseIfPidReused os w).1 = none ↔
      p.pidReused = false ∧ (p.gone = true ∨ ∀ e, w.holder p.pid = some e → e.ctime = c) := by
  unfold raiseIfPidReused
  cases hr : p.pidReused with
  | true => simp
  | false =>
    cases hg : p.gone with
    | true => simp [isRunning_of_flag (p := p) (Or.inl hg), hr]
    | false =>
      rw [isRunning_eq hos hw hid hc ⟨hg, hr⟩]
      cases hh : w.holder p.pid with
      | none => simp [hr]
      | some e => by_cases e' : e.ctime = c <;> simp [e', hr]

theorem raiseIfPidReused_eq_some {p : Process} {e : Exc} (h : (p.raiseIfPidReused os w).1 = some e) :
    e = .noSuchProcess p.pid p.name pidReusedMsg := by
  unfold raiseIfPidReused at h
  split at h
  · exact (Option.some.inj h).symm
  · simp only at h
    split at h
    · exact (Option.some.inj h).symm
    · cases h

/-- A call that the check stops raises its exception and does nothing to the PID. -/
theorem act_of_raise {p : Process} {e : Exc} (h : (p.raiseIfPidReused os w).1 = some e) (c : ActionCall) :
    (p.act os w c).result = .error e ∧ (p.act os w c).acted = none := by
  obtain ⟨r, hr⟩ : ∃ r, p.raiseIfPidReused os w = r := ⟨_, rfl⟩
  obtain ⟨o, p', d⟩ := r
  rw [hr] at h
  obtain rfl : o = some e := h
  cases c <;>
    simp [act, suspend, resume, terminate, kill, sendSignal, nice, ionice, rlimit, cpuAffinity, Process.set, hr]

/-- A call that the check lets pass acts on the PID, whoever holds it. -/
theorem act_of_pass {p : Process} (h : (p.raiseIfPidReused os w).1 = none) (hpid : p.pid ≠ 0) (c : ActionCall) :
    (p.act os w c).acted ≠ none := by
  have hp := (raiseIfPidReused_ident os w p).1
  obtain ⟨r, hr⟩ : ∃ r, p.raiseIfPidReused os w = r := ⟨_, rfl⟩
  obtain ⟨o, p', d⟩ := r
  rw [hr] at h hp
  obtain rfl : o = none := h
  have hsig : ∀ sig allowed, (p.sendSignal os w sig allowed).acted ≠ none := by
    intro sig allowed
    have hp' : p'.pid ≠ 0 := by rw [hp]; exact hpid
    simp only [sendSignal, hr, hp', if_false]
    split
    · simp
    · split <;> simp
    · simp
  have hset : ∀ s reply, (p.set os w s reply).acted ≠ none := fun s reply => by simp [Process.set, hr]
  cases c <;> first | exact hsig _ _ | exact hset _ _

theorem act_ident (p : Process) (c : ActionCall) :
    (p.act os w c).proc.pid = p.pid ∧ (p.act os w c).proc.ident = p.ident := by
  have hp := raiseIfPidReused_ident os w p
  obtain ⟨r, hr⟩ : ∃ r, p.raiseIfPidReused os w = r := ⟨_, rfl⟩
  obtain ⟨o, p', d⟩ := r
  rw [hr] at hp
  have hsig : ∀ sig allowed, (p.sendSignal os w sig allowed).proc.pid = p.pid ∧
      (p.sendSignal os w sig allowed).proc.ident = p.ident := by
    intro sig allowed
    cases o with
    | some e => simpa [sendSignal, hr] using hp
    | none =>
      simp only [sendSignal, hr]
      split
      · exact hp
      · split
        · exact hp
        · split <;> exact hp
        · exact hp
  have hset : ∀ s reply, (p.set os w s reply).proc.pid = p.pid ∧ (p.set os w s reply).proc.ident = p.ident :=
    fun s reply => by cases o <;> simpa [Process.set, hr] using hp
  cases c <;> first | exact hsig _ _ | exact hset _ _

end Process

/-! ## Steps -/

/-- The same object, perhaps with other flags. -/
def SameBinding (p p' : Process) : Prop := p'.pid = p.pid ∧ p'.ident = p.ident

/-- The loop of `process_iter` builds at most one object before its next `yield`. -/
theorem advance_procs (os : Os) (w : World) (procs : List Process) : ∀ (pmap : Dict Nat Nat)
    (ls : List (Nat × Option Nat)), ∃ built, (advance os w procs pmap ls).procs = procs ++ built ∧
      ∀ p ∈ built, ∃ pid, Process.new os w pid = .ok p
  | _, [] => ⟨[], (List.append_nil _).symm, by simp⟩
  | _, (_, some _) :: _ => ⟨[], (List.append_nil _).symm, by simp⟩
  | pmap, (pid, none) :: ls => by
    cases hnew : Process.new os w pid with
    | ok p => exact ⟨[p], by simp [advance, hnew], by simpa using ⟨pid, hnew⟩⟩
    | error e => simpa [advance, hnew] using advance_procs os w procs (pmap.erase pid) ls

theorem forall₂_sameBinding_refl (procs : List Process) : List.Forall₂ SameBinding procs procs :=
  List.forall₂_same.2 fun _ _ => ⟨rfl, rfl⟩

theorem forall₂_set {α : Type} {R : α → α → Prop} (hrefl : ∀ a, R a a) {a' : α} : ∀ {l : List α} {i : Nat} {a : α},
    l[i]? = some a → R a a' → List.Forall₂ R l (l.set i a')
  | [], _, _, h, _ => by simp at h
  | a :: l, 0, b, h, hR => by
    obtain rfl : a = b := by simpa using h
    exact .cons hR (List.forall₂_same.2 fun b _ => hrefl b)
  | a :: l, i + 1, b, h, hR => .cons (hrefl a) (forall₂_set hrefl (by simpa using h) hR)

/-- The event is not one of `process_iter` or its cache. -/
def SysEv.offCache : SysEv → Bool
  | .world _ | .new _ | .isRunning _ | .act _ _ => true
  | .iterStart | .iterNext _ | .iterClose _ | .cacheClear => false

namespace Sys

variable {os : Os}

theorem procs_flagReused (s : Sys) (d : Bool) (pid : Nat) : (s.flagReused d pid).procs = s.procs := by
  unfold flagReused; split <;> rfl

theorem world_flagReused (s : Sys) (d : Bool) (pid : Nat) : (s.flagReused d pid).world = s.world := by
  unfold flagReused; split <;> rfl

theorem procs_resume (s : Sys) (g : Nat) (gen : Gen) :
    (s.resume os g gen).1.procs = (advance os s.world s.procs gen.pmap gen.todo).procs := by
  unfold resume; dsimp only; split <;> rfl

theorem world_resume (s : Sys) (g : Nat) (gen : Gen) : (s.resume os g gen).1.world = s.world := by
  unfold resume; dsimp only; split <;> rfl

/-- **The objects after a step**: those before it, related to what they were as the two kinds of calls on an object
relate them, and those the step built. -/
theorem step_procs_of (os : Os) (s : Sys) (ev : SysEv) {R : Process → Process → Prop} (hrefl : ∀ p, R p p)
    (hrun : ∀ p, R p (p.isRunning os s.world).proc) (hact : ∀ p c, R p (p.act os s.world c).proc) :
    ∃ old built, ((sysMachine os).step s ev).1.procs = old ++ built ∧
      List.Forall₂ R s.procs old ∧ ∀ p ∈ built, ∃ pid, Process.new os s.world pid = .ok p := by
  have hprocs : List.Forall₂ R s.procs s.procs := List.forall₂_same.2 fun p _ => hrefl p
  have hsame : ∀ {procs : List Process}, procs = s.procs → ∃ old built, procs = old ++ built ∧
      List.Forall₂ R s.procs old ∧ ∀ p ∈ built, ∃ pid, Process.new os s.world pid = .ok p := fun h =>
    ⟨s.procs, [], by simp [h], hprocs, by simp⟩
  have hadv : ∀ (pmap : Dict Nat Nat) (ls : List (Nat × Option Nat)), ∃ old built,
      (advance os s.world s.procs pmap ls).procs = old ++ built ∧
      List.Forall₂ R s.procs old ∧ ∀ p ∈ built, ∃ pid, Process.new os s.world pid = .ok p := fun pmap ls =>
    let ⟨built, h, hb⟩ := advance_procs os s.world s.procs pmap ls
    ⟨s.procs, built, h, hprocs, hb⟩
  cases ev with
  | world ev => exact hsame rfl
  | new pid =>
    cases hnew : Process.new os s.world pid with
    | ok p => exact ⟨s.procs, [p], by simp [sysMachine, hnew], hprocs, by simpa using ⟨pid, hnew⟩⟩
    | error e => exact hsame (by simp [sysMachine, hnew])
  | isRunning o =>
    cases hp : s.procs[o]? with
    | none => exact hsame (by simp [sysMachine, isRunning, hp])
    | some p =>
      refine ⟨s.procs.set o (p.isRunning os s.world).proc, [], ?_, forall₂_set hrefl hp (hrun p), by simp⟩
      simp [sysMachine, isRunning, hp, procs_flagReused]
  | act o c =>
    cases hp : s.procs[o]? with
    | none => exact hsame (by simp [sysMachine, act, hp])
    | some p =>
      refine ⟨s.procs.set o (p.act os s.world c).proc, [], ?_, forall₂_set hrefl hp (hact p c), by simp⟩
      simp [sysMachine, act, hp, procs_flagReused]
  | iterStart =>
    have h := hadv s.startGen.pmap s.startGen.todo
    simpa only [sysMachine, iterStart, procs_resume] using h
  | iterNext g =>
    cases hg : s.gens[g]? with
    | none => exact hsame (by simp [sysMachine, iterNext, hg])
    | some gen =>
      cases hu : gen.unfinished with
      | false => exact hsame (by simp [sysMachine, iterNext, hg, hu])
      | true =>
        have h := hadv gen.pmap gen.todo
        simpa only [sysMachine, iterNext, hg, hu, if_true, procs_resume] using h
  | iterClose g =>
    refine hsame ?_
    simp only [sysMachine, iterClose]
    split
    · split <;> rfl
    · rfl
  | cacheClear => exact hsame rfl

/-- The objects keep their bindings. -/
theorem step_procs (os : Os) (s : Sys) (ev : SysEv) : ∃ old built, ((sysMachine os).step s ev).1.procs = old ++ built ∧
    List.Forall₂ SameBinding s.procs old ∧ ∀ p ∈ built, ∃ pid, Process.new os s.world pid = .ok p :=
  step_procs_of os s ev (fun _ => ⟨rfl, rfl⟩) (fun p => p.isRunning_ident) fun p c => p.act_ident c

/-- Only the events of `process_iter` touch the cache and the generators. -/
theorem step_offCache (os : Os) (s : Sys) {ev : SysEv} (h : ev.offCache = true) :
    ((sysMachine os).step s ev).1.pmap = s.pmap ∧ ((sysMachine os).step s ev).1.gens = s.gens ∧
      ((sysMachine os).step s ev).1.drained = s.drained := by
  have hflag : ∀ (s' : Sys) (d : Bool) (pid : Nat), (s'.flagReused d pid).pmap = s'.pmap ∧
      (s'.flagReused d pid).gens = s'.gens ∧ (s'.flagReused d pid).drained = s'.drained := fun s' d pid => by
    unfold flagReused; split <;> exact ⟨rfl, rfl, rfl⟩
  cases ev with
  | world ev => exact ⟨rfl, rfl, rfl⟩
  | new pid => simp only [sysMachine]; split <;> exact ⟨rfl, rfl, rfl⟩
  | isRunning o =>
    simp only [sysMachine, isRunning]
    split
    · exact ⟨rfl, rfl, rfl⟩
    · exact hflag _ _ _
  | act o c =>
    simp only [sysMachine, act]
    split
    · exact ⟨rfl, rfl, rfl⟩
    · exact hflag _ _ _
  | iterStart => cases h
  | iterNext g => cases h
  | iterClose g => cases h
  | cacheClear => cases h

/-- Only the operating system changes the process table. -/
theorem step_world (s : Sys) (ev : SysEv) : ((sysMachine os).step s ev).1.world =
    match ev with
    | .world ev => s.world.step ev
    | _ => s.world := by
  cases ev with
  | world ev => rfl
  | new pid => simp only [sysMachine]; split <;> rfl
  | isRunning o =>
    simp only [sysMachine, isRunning]
    split
    · rfl
    · rw [world_flagReused]
  | act o c =>
    simp only [sysMachine, act]
    split
    · rfl
    · rw [world_flagReused]
  | iterStart => simp only [sysMachine, iterStart, world_resume]
  | iterNext g =>
    simp only [sysMachine, iterNext]
    split
    · split
      · rw [world_resume]
      · rfl
    · rfl
  | iterClose g =>
    simp only [sysMachine, iterClose]
    split
    · split <;> rfl
    · rfl
  | cacheClear => rfl

theorem world_wf_step (s : Sys) (ev : SysEv) (h : s.world.WF) : ((sysMachine os).step s ev).1.world.WF := by
  rw [step_world]
  cases ev with
  | world ev => exact h.step ev
  | _ => exact h

/-- The process table of any reachable state is well formed. -/
theorem world_wf (os : Os) (evs : List SysEv) : ((sysMachine os).run .init evs).world.WF :=
  (sysMachine os).run_inv world_wf_step World.wf_init evs

/-- An object keeps its place. -/
theorem old_object_of (os : Os) {s : Sys} {R : Process → Process → Prop} (hrefl : ∀ p, R p p)
    (hrun : ∀ p, R p (p.isRunning os s.world).proc) (hact : ∀ p c, R p (p.act os s.world c).proc) {o : Nat}
    {p : Process} (h : s.procs[o]? = some p) (ev : SysEv) :
    ∃ p', ((sysMachine os).step s ev).1.procs[o]? = some p' ∧ R p p' := by
  obtain ⟨old, built, hprocs, hold, -⟩ := step_procs_of os s ev hrefl hrun hact
  obtain ⟨ho, rfl⟩ := List.getElem?_eq_some_iff.1 h
  obtain ⟨hlen, hget⟩ := List.forall₂_iff_get.1 hold
  refine ⟨old.get ⟨o, hlen ▸ ho⟩, ?_, hget o ho (hlen ▸ ho)⟩
  rw [hprocs, List.getElem?_append_left (hlen ▸ ho), List.getElem?_eq_getElem (hlen ▸ ho)]
  rfl

/-- An object keeps its place and its binding. -/
theorem old_object (os : Os) {s : Sys} {o : Nat} {p : Process} (h : s.procs[o]? = some p) (ev : SysEv) :
    ∃ p', ((sysMachine os).step s ev).1.procs[o]? = some p' ∧ SameBinding p p' :=
  old_object_of os (fun _ => ⟨rfl, rfl⟩) (fun p => p.isRunning_ident) (fun p c => p.act_ident c) h ev

/-- An object that was not there before is one that the step built. -/
theorem built_object {s : Sys} {ev : SysEv} {o : Nat} {p : Process} (hnew : s.procs.length ≤ o)
    (h : ((sysMachine os).step s ev).1.procs[o]? = some p) : ∃ pid, Process.new os s.world pid = .ok p := by
  obtain ⟨old, built, hprocs, hold, hbuilt⟩ := step_procs os s ev
  rw [hprocs, List.getElem?_append_right (hold.length_eq ▸ hnew)] at h
  exact hbuilt p (List.mem_of_getElem? h)

/-- An object that a step built is bound to the holder of its PID. -/
theorem new_object (hos : os.monotonicIdent = true) {s : Sys} (hw : s.world.WF) {ev : SysEv} {o : Nat} {p : Process}
    (hnew : s.procs.length ≤ o) (h : ((sysMachine os).step s ev).1.procs[o]? = some p) :
    ∃ e, s.world.holder p.pid = some e ∧ p.ident = (p.pid, some e.ctime) := by
  obtain ⟨pid, hpid⟩ := built_object hnew h
  cases he : s.world.holder pid with
  | none =>
    obtain ⟨x, hx⟩ := Process.new_of_free os he
    rw [hx] at hpid
    cases hpid
  | some e =>
    rw [Process.new_of_held hos hw he] at hpid
    cases hpid
    exact ⟨e, he, rfl⟩

end Sys

end Psutil
