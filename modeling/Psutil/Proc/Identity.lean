import Psutil.Proc.Iter
import Mathlib.Data.List.Induction

/-!
# Equal `Process` objects (`__init__.py:468-575`)

Two objects of a program are equal exactly when they were built for one process, or, where the creation time is not part of the
identity, for one PID (`equal_iff_same_process`). So they can be members of sets, as in `wait_procs` and `children`.
-/

namespace Psutil

open Lib

/-- `sys.hash_info.modulus`. -/
def hashModulus : Nat := 2 ^ 61 - 1

/-- `hash(self)`: that of the PID alone, which `_hash` keeps. -/
def Process.hash (p : Process) : Nat := p.ident.1 % hashModulus

/-- A step of the run built the object, while the process that began at `c` held the PID. -/
def BuiltFor (os : Os) (evs : List SysEv) (o pid c : Nat) : Prop :=
  ∃ l ∈ (sysMachine os).trace .init evs, l.pre.procs.length ≤ o ∧
    (∃ p, ((sysMachine os).step l.pre l.ev).1.procs[o]? = some p ∧ p.pid = pid) ∧
    ∃ e, l.pre.world.holder pid = some e ∧ e.ctime = c

/-- What sets and dictionaries need of their members. -/
structure Hashable (procs : List Process) : Prop where
  refl : ∀ p ∈ procs, p.eq p = true
  symm : ∀ p ∈ procs, ∀ q ∈ procs, p.eq q = true → q.eq p = true
  trans : ∀ p ∈ procs, ∀ q ∈ procs, ∀ r ∈ procs, p.eq q = true → q.eq r = true → p.eq r = true
  hash : ∀ p ∈ procs, ∀ q ∈ procs, p.eq q = true → p.hash = q.hash

/-- The identity has a creation time that is not null, or none at all. -/
def Identified (os : Os) (p : Process) : Prop :=
  p.ident.1 = p.pid ∧ if os.monotonicIdent then ∃ c, c ≠ 0 ∧ p.ident.2 = some c else p.ident.2 = none

section
variable {os : Os}

theorem SameBinding.identified {p p' : Process} (h : SameBinding p p') (hp : Identified os p) : Identified os p' := by
  unfold Identified at hp ⊢
  rwa [h.1, h.2]

theorem identified_new {w : World} (hw : w.WF) {pid : Nat} {p : Process} (h : Process.new os w pid = .ok p) : Identified os p := by
  cases he : w.holder pid with
  | none =>
    obtain ⟨x, hx⟩ := Process.new_of_free os he
    rw [hx] at h
    cases h
  | some e =>
    obtain ⟨q, hq, hpid, hid⟩ := Process.new_of_holder os hw he
    obtain rfl := Except.ok.inj (hq.symm.trans h)
    rw [getIdent, he, Option.map_some, Option.some.injEq] at hid
    unfold Identified
    rw [← hid, hpid]
    refine ⟨rfl, ?_⟩
    split
    · exact ⟨e.ctime, (hw.ctime pid e he).1, rfl⟩
    · rfl

theorem identified_run (evs : List SysEv) : ∀ p ∈ ((sysMachine os).run .init evs).procs, Identified os p := by
  suffices h : ((sysMachine os).run .init evs).world.WF ∧ ∀ p ∈ ((sysMachine os).run .init evs).procs, Identified os p from h.2
  have hstep : ∀ s ev, (s.world.WF ∧ ∀ p ∈ s.procs, Identified os p) → ((sysMachine os).step s ev).1.world.WF ∧
      ∀ p ∈ ((sysMachine os).step s ev).1.procs, Identified os p := ?_
  · exact (sysMachine os).run_inv hstep ⟨World.wf_init, by simp [Sys.init]⟩ evs
  intro s ev h
  obtain ⟨old, built, hprocs, hold, hbuilt⟩ := Sys.step_procs os s ev
  refine ⟨Sys.world_wf_step s ev h.1, fun p hp => ?_⟩
  rw [hprocs] at hp
  rcases List.mem_append.1 hp with hp | hp
  · obtain ⟨q, hq, hqp⟩ := exists_of_forall₂ hold.flip hp
    exact SameBinding.identified hqp (h.2 q hq)
  · obtain ⟨pid, hpid⟩ := hbuilt p hp
    exact identified_new h.1 hpid

/-- The answer is `unknown` only where no identity has a creation time. -/
theorem Identified.eq_iff {p q : Process} (hp : Identified os p) (hq : Identified os q) : p.eq q = true ↔ p.ident = q.ident := by
  obtain ⟨ppid, ptime⟩ := hp
  obtain ⟨qpid, qtime⟩ := hq
  unfold Process.eq cmpIdents
  rw [Prod.ext_iff]
  cases hos : os.monotonicIdent with
  | true =>
    rw [hos, if_pos rfl] at ptime qtime
    obtain ⟨c, hc, hpc⟩ := ptime
    obtain ⟨d, hd, hqd⟩ := qtime
    by_cases h1 : p.ident.1 = q.ident.1
    · by_cases h2 : c = d
      · simp [h1, h2, hpc, hqd, isNull, hd]
      · simp [h1, h2, hpc, hqd, isNull, hc, hd]
    · simp [h1]
  | false =>
    rw [hos, if_neg Bool.false_ne_true] at ptime qtime
    by_cases h1 : p.ident.1 = q.ident.1
    · simp [h1, ptime, qtime, isNull]
    · simp [h1]

theorem hashable_run (evs : List SysEv) : Hashable ((sysMachine os).run .init evs).procs where
  refl p hp := ((identified_run evs p hp).eq_iff (identified_run evs p hp)).2 rfl
  symm p hp q hq h := by
    rw [(identified_run evs p hp).eq_iff (identified_run evs q hq)] at h
    rw [(identified_run evs q hq).eq_iff (identified_run evs p hp), h]
  trans p hp q hq r hr h h' := by
    rw [(identified_run evs p hp).eq_iff (identified_run evs q hq)] at h
    rw [(identified_run evs q hq).eq_iff (identified_run evs r hr)] at h'
    rw [(identified_run evs p hp).eq_iff (identified_run evs r hr), h, h']
  hash p hp q hq h := by
    rw [(identified_run evs p hp).eq_iff (identified_run evs q hq)] at h
    rw [Process.hash, h, Process.hash]

theorem procs_length_run (evs : List SysEv) (s : Sys) : s.procs.length ≤ ((sysMachine os).run s evs).procs.length := by
  induction evs generalizing s with
  | nil => exact Nat.le_refl _
  | cons ev evs ih =>
    obtain ⟨old, built, hprocs, hold, -⟩ := Sys.step_procs os s ev
    refine Nat.le_trans ?_ (ih _)
    rw [hprocs, List.length_append, hold.length_eq]
    exact Nat.le_add_right _ _

/-- An object stands for the process it was built for. -/
theorem builtFor_iff (hos : os.monotonicIdent = true) (evs : List SysEv) {o pid c : Nat} {p : Process}
    (hp : ((sysMachine os).run .init evs).procs[o]? = some p) : BuiltFor os evs o pid c ↔ p.ident = (pid, some c) := by
  induction evs using List.reverseRecOn generalizing p with
  | nil => simp [Machine.run, Sys.init] at hp
  | append_singleton evs ev ih =>
    have hw := Sys.world_wf os evs
    rw [Machine.run_append] at hp
    by_cases ho : o < ((sysMachine os).run .init evs).procs.length
    · -- the object is an old one
      obtain ⟨p', hp', hsame⟩ := Sys.old_object os (List.getElem?_eq_getElem ho) ev
      obtain rfl := Option.some.inj (hp'.symm.trans hp)
      rw [hsame.2, ← ih (List.getElem?_eq_getElem ho)]
      unfold BuiltFor
      rw [Machine.trace_append]
      constructor
      · rintro ⟨l, hl, hlen, hrest⟩
        rcases List.mem_append.1 hl with hl | hl
        · exact ⟨l, hl, hlen, hrest⟩
        · rw [Machine.trace, Machine.trace, List.mem_singleton] at hl
          subst hl
          exact absurd hlen (Nat.not_le.2 ho)
      · rintro ⟨l, hl, hrest⟩
        exact ⟨l, List.mem_append_left _ hl, hrest⟩
    · obtain ⟨e, he, hid⟩ := Sys.new_object hos hw (Nat.not_lt.1 ho) hp
      constructor
      · rintro ⟨l, hl, hlen, ⟨q, hq, hqpid⟩, e', he', rfl⟩
        rw [Machine.trace_append, List.mem_append] at hl
        rcases hl with hl | hl
        · -- no earlier step has built it
          obtain ⟨evs₁, evs₂, hsplit, hpre, -⟩ := (sysMachine os).mem_trace.1 hl
          have hlt := (List.getElem?_eq_some_iff.1 hq).1
          have hmono : ((sysMachine os).step l.pre l.ev).1.procs.length ≤ ((sysMachine os).run .init evs).procs.length := by
            rw [hsplit, Machine.run_append, Machine.run_cons, ← hpre]
            exact procs_length_run _ _
          exact absurd (hlt.trans_le hmono) ho
        · rw [Machine.trace, Machine.trace, List.mem_singleton] at hl
          subst hl
          obtain rfl := Option.some.inj (hq.symm.trans hp)
          rw [hqpid] at he
          obtain rfl := Option.some.inj (he.symm.trans he')
          rw [hid, hqpid]
      · intro h
        obtain ⟨rfl, hc⟩ := Prod.ext_iff.1 (hid.symm.trans h)
        refine ⟨⟨(sysMachine os).run .init evs, ev, ((sysMachine os).step ((sysMachine os).run .init evs) ev).2⟩, ?_, Nat.not_lt.1 ho, ⟨p, hp, rfl⟩, e, he, Option.some.inj hc⟩
        rw [Machine.trace_append]
        exact List.mem_append_right _ List.mem_cons_self

/-- **Objects are equal exactly when they stand for one process**, or one PID where the creation time is not used. They can be put
into sets. -/
theorem equal_iff_same_process (os : Os) (evs : List SysEv) :
    Hashable ((sysMachine os).run .init evs).procs ∧
      ∀ o₁ o₂ p₁ p₂, ((sysMachine os).run .init evs).procs[o₁]? = some p₁ → ((sysMachine os).run .init evs).procs[o₂]? = some p₂ →
        (p₁.eq p₂ = true ↔
          if os.monotonicIdent then ∃ pid c, BuiltFor os evs o₁ pid c ∧ BuiltFor os evs o₂ pid c else p₁.pid = p₂.pid) := by
  refine ⟨hashable_run evs, fun o₁ o₂ p₁ p₂ h₁ h₂ => ?_⟩
  have hp₁ := identified_run evs p₁ (List.mem_of_getElem? h₁)
  have hp₂ := identified_run evs p₂ (List.mem_of_getElem? h₂)
  rw [hp₁.eq_iff hp₂]
  split
  · rename_i hos
    constructor
    · intro h
      obtain ⟨c, -, hc⟩ : ∃ c, c ≠ 0 ∧ p₁.ident.2 = some c := by simpa only [hos, if_true] using hp₁.2
      have hid : p₁.ident = (p₁.ident.1, some c) := Prod.ext rfl hc
      exact ⟨p₁.ident.1, c, (builtFor_iff hos evs h₁).2 hid, (builtFor_iff hos evs h₂).2 (h ▸ hid)⟩
    · rintro ⟨pid, c, hb₁, hb₂⟩
      rw [(builtFor_iff hos evs h₁).1 hb₁, (builtFor_iff hos evs h₂).1 hb₂]
  · rename_i hos
    have hnone₁ : p₁.ident.2 = none := by simpa [hos] using hp₁.2
    have hnone₂ : p₂.ident.2 = none := by simpa [hos] using hp₂.2
    rw [Prod.ext_iff, hnone₁, hnone₂, hp₁.1, hp₂.1]
    simp

end

/-- PID 5 goes to another process between the second object and the third one. -/
theorem equal_iff_same_process_reused :
    let evs := [.world (.birth 5 1 false), .new 5, .new 5, .world (.exit 5 (.exited 0)), .world (.reap 5), .world (.birth 5 2 false), .new 5]
    let s := (sysMachine .linux).run .init evs
    ∃ p q r, s.procs[0]? = some p ∧ s.procs[1]? = some q ∧ s.procs[2]? = some r ∧
      (∃ pid c, BuiltFor .linux evs 0 pid c ∧ BuiltFor .linux evs 1 pid c) ∧ ¬∃ pid c, BuiltFor .linux evs 1 pid c ∧ BuiltFor .linux evs 2 pid c := by
  intro evs s
  have hsame := (equal_iff_same_process .linux evs).2
  exact ⟨_, _, _, rfl, rfl, rfl, (hsame 0 1 _ _ rfl rfl).1 (by decide), fun h => absurd ((hsame 1 2 _ _ rfl rfl).2 h) (by decide)⟩

end Psutil
