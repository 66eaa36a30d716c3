import Psutil.Proc.Running
import Psutil.Proc.Tree

/-!
# `Process.parent` and the recorded lowest PID (`__init__.py:727-748`, `:1755-1760`)

Every `pids()` writes the module global `_LOWEST_PID`, and `parent()` reads it.

| here | there |
| --- | --- |
| `Kin` | the two fields of `/proc/PID/stat` that `ppid()` and `create_time()` read |
| `Lineage.pids` | `pids`, also as `process_iter` calls it |
| `Lineage.lowest`, `Lineage.findParent`, `Lineage.parent` | the three parts of `parent`: `lowest_pid`, what follows `ppid`, all of it |

The kernel may show another parent or another creation time of a process at any moment, but not during a call.
`parent_exact_iff` says for every reachable state when `parent()` of a live process is right.
-/

namespace Psutil

open Lib

/-- The parent of a process, and its creation time at the wall clock. -/
structure Kin where
  ppid : Nat
  createTime : ℚ

structure Lineage where
  sys : Sys
  /-- Of the process that holds the PID. -/
  kin : Nat → Kin
  /-- `_LOWEST_PID`. -/
  lowestPid : Option Nat

inductive LineageEv where
  | sys (ev : SysEv)
  | kin (pid : Nat) (k : Kin)
  | pids
  | parent (o : Nat)

inductive LineageOut where
  | done
  | sys (out : SysOut)
  | pids (result : Except Exc (List Nat))
  | parent (result : Except Exc (Option Process))

namespace Lineage

def init : Lineage := ⟨.init, fun _ => ⟨0, 0⟩, none⟩

def pids (s : Lineage) : Except Exc (List Nat) × Lineage :=
  match s.sys.world.pids with
  | [] => (.error .indexError, s)
  | lowest :: rest => (.ok (lowest :: rest), { s with lowestPid := some lowest })

/-- `_LOWEST_PID if _LOWEST_PID is not None else pids()[0]`. -/
def lowest (s : Lineage) : Except Exc Nat × Lineage :=
  match s.lowestPid with
  | some lowest => (.ok lowest, s)
  | none => match s.pids with
    | (.ok (lowest :: _), s) => (.ok lowest, s)
    | (.ok [], s) => (.error .indexError, s)
    | (.error e, s) => (.error e, s)

/-- `/proc/PID/stat`, read for an object. -/
def stat (s : Lineage) (p : Process) : Except Exc Kin :=
  match s.sys.world.holder p.pid with
  | some _ => .ok (s.kin p.pid)
  | none => .error (.noSuchProcess p.pid p.name noSuchProcessMsg)

/-- `Process(pid).create_time()`, and the new object. -/
def newCreateTime (os : Os) (s : Lineage) (pid : Nat) : Except Exc (Process × ℚ) := do
  let p ← Process.new os s.sys.world pid
  let k ← s.stat p
  return (p, k.createTime)

def findParent (os : Os) (s : Lineage) (pid ppid : Nat) : Except Exc (Option Process) :=
  match s.newCreateTime os pid with
  | .error e => .error e
  | .ok (_, procCtime) => match s.newCreateTime os ppid with
    | .ok (parent, ctime) => .ok (if ctime ≤ procCtime then some parent else none)
    | .error e => if e.isGone then .ok none else .error e

/-- `ppid()` makes sure that the PID was not reused, then reads. -/
def ppid (os : Os) (s : Lineage) (o : Nat) (p : Process) : Except Exc Nat × Lineage :=
  let (raised, p', detected) := p.raiseIfPidReused os s.sys.world
  let s := { s with sys := { s.sys with procs := s.sys.procs.set o p' }.flagReused detected p.pid }
  match raised with
  | some e => (.error e, s)
  | none => ((s.stat p).map Kin.ppid, s)

/-- A `Process` that is returned is one more object of the program. -/
def returned (s : Lineage) (result : Except Exc (Option Process)) : Lineage × LineageOut :=
  match result with
  | .ok (some q) => ({ s with sys := { s.sys with procs := s.sys.procs ++ [q] } }, .parent (.ok (some q)))
  | r => (s, .parent r)

def parent (os : Os) (s : Lineage) (o : Nat) : Lineage × LineageOut :=
  match s.sys.procs[o]? with
  | none => (s, .done)
  | some p => match s.lowest with
    | (.error e, s) => (s, .parent (.error e))
    | (.ok lowestPid, s) =>
      if p.pid = lowestPid then (s, .parent (.ok none))
      else match s.ppid os o p with
        | (.error e, s) => (s, .parent (.error e))
        | (.ok ppid, s) => s.returned (s.findParent os p.pid ppid)

end Lineage

/-- `process_iter()` takes its list of PIDs from `pids()`. -/
def lineageMachine (os : Os) : Machine Lineage LineageEv LineageOut where
  step s
    | .kin pid k => ({ s with kin := Function.update s.kin pid k }, .done)
    | .pids => (s.pids.2, .pids s.pids.1)
    | .parent o => s.parent os o
    | .sys .iterStart => match s.pids with
      | (.error e, s) => (s, .sys (.raised e))
      | (.ok _, s) => ({ s with sys := (s.sys.iterStart os).1 }, .sys (s.sys.iterStart os).2)
    | .sys ev => ({ s with sys := ((sysMachine os).step s.sys ev).1 }, .sys ((sysMachine os).step s.sys ev).2)

/-! ## Objects -/

/-- What a call on an object may do to it: `_pid_reused` is set only if another process holds the PID. -/
structure Latched (os : Os) (w : World) (p p' : Process) : Prop where
  binding : SameBinding p p'
  reused : p'.pidReused = true → p.pidReused = true ∨
    ∃ ident, getIdent os w p.pid = some ident ∧ cmpIdents p.ident ident = .different

/-- An object of a process that was there once; if its PID is known to be reused, that process does not hold it. -/
structure PidBound (os : Os) (w : World) (p : Process) : Prop where
  ident : ∃ c ∈ w.used, p.ident = (p.pid, if os.monotonicIdent then some c else none)
  reused : p.pidReused = true → os.monotonicIdent = true ∧ getIdent os w p.pid ≠ some p.ident

section

variable {os : Os} {w : World}

theorem Latched.refl (p : Process) : Latched os w p p := ⟨⟨rfl, rfl⟩, Or.inl⟩

theorem isRunning_latched (p : Process) : Latched os w p (p.isRunning os w).proc := by
  refine ⟨p.isRunning_ident, fun h => ?_⟩
  unfold Process.isRunning at h
  split at h
  · exact Or.inl h
  · split at h
    · rename_i other hother
      split at h
      · exact Or.inl h
      · rename_i hne
        refine Or.inr ⟨other.ident, Process.getIdent_of_new hother, ?_⟩
        simpa [Process.eq] using hne
    · exact Or.inl h

theorem raiseIfPidReused_latched (p : Process) : Latched os w p (p.raiseIfPidReused os w).2.1 := by
  unfold Process.raiseIfPidReused
  split
  · exact .refl p
  · exact isRunning_latched p

theorem sendSignal_latched (p : Process) (sig : Signal) (allowed : Bool) :
    Latched os w p (p.sendSignal os w sig allowed).proc := by
  have hp : Latched os w p (p.raiseIfPidReused os w).2.1 := raiseIfPidReused_latched p
  unfold Process.sendSignal
  split
  · rename_i e p' d hr
    rwa [hr] at hp
  · rename_i p' d hr
    rw [hr] at hp
    split
    · exact hp
    · split
      · exact hp
      · split
        · exact hp
        · exact ⟨hp.binding, hp.reused⟩
      · exact hp

theorem act_latched (p : Process) (c : ActionCall) : Latched os w p (p.act os w c).proc := by
  have hset : ∀ s reply, Latched os w p (p.set os w s reply).proc := by
    intro s reply
    have hp : Latched os w p (p.raiseIfPidReused os w).2.1 := raiseIfPidReused_latched p
    unfold Process.set
    split <;> rename_i hr <;> rwa [hr] at hp
  cases c <;> first | exact sendSignal_latched p _ _ | exact hset _ _

theorem PidBound.new (hw : w.WF) {pid : Nat} {p : Process} (h : Process.new os w pid = .ok p) : PidBound os w p := by
  have hident := Process.getIdent_of_new h
  obtain ⟨e, he, hid⟩ := Option.map_eq_some_iff.1 hident
  refine ⟨⟨e.ctime, (hw.ctime pid e he).2, ?_⟩, fun hr => ?_⟩
  · rw [← hid, (Process.new_eq_ok h).1]
  · simp [(Process.new_flags h).2] at hr

theorem PidBound.latched {p p' : Process} (h : PidBound os w p) (hl : Latched os w p p') : PidBound os w p' := by
  obtain ⟨c, hc, hid⟩ := h.ident
  obtain ⟨hpid, hident⟩ := hl.binding
  refine ⟨⟨c, hc, by rw [hident, hpid, hid]⟩, fun hr => ?_⟩
  rw [hpid, hident]
  rcases hl.reused hr with hr | ⟨ident, hi, hne⟩
  · exact h.reused hr
  · constructor
    · by_contra hos
      rw [Bool.not_eq_true] at hos
      -- without a creation time in the identity the comparison tells nothing
      obtain ⟨e, -, rfl⟩ := Option.map_eq_some_iff.1 hi
      simp [hid, hos, cmpIdents, isNull] at hne
    · intro hsame
      rw [hsame, Option.some.injEq] at hi
      exact cmpIdents_self p.ident (hi ▸ hne)

theorem PidBound.world {p : Process} (h : PidBound os w p) (ev : WorldEv) : PidBound os (w.step ev) p := by
  obtain ⟨c, hc, hid⟩ := h.ident
  refine ⟨⟨c, World.used_step w ev c hc, hid⟩, fun hr => ?_⟩
  obtain ⟨hos, hne⟩ := h.reused hr
  rw [hos, if_pos rfl] at hid
  have hgone : ∀ e, w.holder p.pid = some e → e.ctime ≠ c := by
    intro e he hec
    exact hne (by simp [getIdent, he, hos, hec, hid])
  refine ⟨hos, fun hsame => ?_⟩
  obtain ⟨e, he, hie⟩ := Option.map_eq_some_iff.1 hsame
  rw [hos, if_pos rfl, hid, Prod.mk.injEq, Option.some.injEq] at hie
  exact World.never_again hc hgone ev e he hie.2

/-- **The check passes** for an object of the process that holds the PID. -/
theorem raiseIfPidReused_of_live {p : Process} (hb : PidBound os w p) (hlive : getIdent os w p.pid = some p.ident) :
    (p.raiseIfPidReused os w).1 = none := by
  have hr : p.pidReused = false := by
    by_contra hr
    rw [Bool.not_eq_false] at hr
    exact (hb.reused hr).2 hlive
  have hstill : (p.isRunning os w).proc.pidReused = false := by
    by_contra hr'
    rw [Bool.not_eq_false] at hr'
    rcases (isRunning_latched p).reused hr' with h | ⟨ident, hi, hne⟩
    · rw [h] at hr
      cases hr
    · rw [hlive, Option.some.injEq] at hi
      exact cmpIdents_self p.ident (hi ▸ hne)
  simp [Process.raiseIfPidReused, hr, hstill]

end

namespace Lineage

variable {os : Os} {s s' : Lineage}

/-! ## The right answer -/

/-- The object is of the process that holds its PID now. -/
def Live (os : Os) (s : Lineage) (p : Process) : Prop := getIdent os s.sys.world p.pid = some p.ident

/-- The parent PID is held, and not by a younger process. -/
def IsParent (s : Lineage) (pid ppid : Nat) : Prop :=
  (s.kin pid).ppid = ppid ∧ (∃ e, s.sys.world.holder ppid = some e) ∧ (s.kin ppid).createTime ≤ (s.kin pid).createTime

def IsLowest (s : Lineage) (pid : Nat) : Prop := ∀ other e, s.sys.world.holder other = some e → pid ≤ other

/-- The live parent of a process that is not the lowest one, and `None` otherwise. -/
structure ParentExact (os : Os) (s : Lineage) (pid : Nat) (out : LineageOut) : Prop where
  found : ∀ ppid, s.IsParent pid ppid → ¬s.IsLowest pid →
    ∃ q, out = .parent (.ok (some q)) ∧ q.pid = ppid ∧ s.Live os q
  otherwise : (¬∃ ppid, s.IsParent pid ppid) ∨ s.IsLowest pid → out = .parent (.ok none)

/-! ## One call -/

structure Inv (os : Os) (s : Lineage) : Prop where
  world : s.sys.world.WF
  bound : ∀ p ∈ s.sys.procs, PidBound os s.sys.world p

theorem held_of_live {p : Process} (h : s.Live os p) : ∃ e, s.sys.world.holder p.pid = some e :=
  let ⟨e, he, _⟩ := Option.map_eq_some_iff.1 h
  ⟨e, he⟩

theorem pids_shown (s : Lineage) : s.pids.2.sys = s.sys ∧ s.pids.2.kin = s.kin := by
  unfold pids
  split <;> exact ⟨rfl, rfl⟩

theorem lowest_shown (s : Lineage) : s.lowest.2.sys = s.sys ∧ s.lowest.2.kin = s.kin := by
  have h := s.pids_shown
  unfold lowest
  split
  · exact ⟨rfl, rfl⟩
  · split <;> rename_i hp <;> rwa [hp] at h

/-- What `parent` takes for the lowest PID. -/
theorem lowest_eq (h : ∃ pid e, s.sys.world.holder pid = some e) : ∃ l, s.lowest.1 = .ok l ∧
    (s.lowestPid = some l ∨ s.lowestPid = none ∧ s.IsLowest l ∧ ∃ e, s.sys.world.holder l = some e) := by
  cases hr : s.lowestPid with
  | some l => exact ⟨l, by simp [lowest, hr], Or.inl rfl⟩
  | none =>
    obtain ⟨pid, e, he⟩ := h
    cases hp : s.sys.world.pids with
    | nil =>
      have hmem : pid ∈ s.sys.world.pids := World.mem_pids.2 ⟨e, he⟩
      simp [hp] at hmem
    | cons l rest =>
      refine ⟨l, by simp [lowest, pids, hr, hp], Or.inr ⟨rfl, fun other e' he' => ?_, ?_⟩⟩
      · have hmem : other ∈ s.sys.world.pids := World.mem_pids.2 ⟨e', he'⟩
        have hsorted := s.sys.world.sorted_pids
        rw [hp] at hmem hsorted
        rcases List.mem_cons.1 hmem with rfl | hmem
        · exact le_rfl
        · exact (List.rel_of_pairwise_cons hsorted hmem).le
      · exact World.mem_pids.1 (by simp [hp])

theorem newCreateTime_of_held (os : Os) (hw : s.sys.world.WF) {pid : Nat} (h : ∃ e, s.sys.world.holder pid = some e) :
    ∃ q, s.newCreateTime os pid = .ok (q, (s.kin pid).createTime) ∧ q.pid = pid ∧ s.Live os q := by
  obtain ⟨e, he⟩ := h
  obtain ⟨q, hq, rfl, hid⟩ := Process.new_of_holder os hw he
  exact ⟨q, by simp [newCreateTime, stat, hq, he, bind, Except.bind, pure, Except.pure], rfl, hid⟩

theorem newCreateTime_of_free (os : Os) {pid : Nat} (h : s.sys.world.holder pid = none) :
    ∃ e, s.newCreateTime os pid = .error e ∧ e.isGone = true := by
  unfold newCreateTime Process.new
  split
  · exact ⟨_, rfl, rfl⟩
  · simp [getIdent, h, bind, Except.bind, Exc.isGone]

theorem findParent_of_isParent (os : Os) (hw : s.sys.world.WF) {pid ppid : Nat} (hpid : ∃ e, s.sys.world.holder pid = some e)
    (h : s.IsParent pid ppid) : ∃ q, s.findParent os pid ppid = .ok (some q) ∧ q.pid = ppid ∧ s.Live os q := by
  obtain ⟨-, hheld, hle⟩ := h
  obtain ⟨p, hp, -⟩ := newCreateTime_of_held os hw hpid
  obtain ⟨q, hq, hqpid, hlive⟩ := newCreateTime_of_held os hw hheld
  exact ⟨q, by simp [findParent, hp, hq, hle], hqpid, hlive⟩

theorem findParent_of_not_isParent (hw : s.sys.world.WF) {pid : Nat} (hpid : ∃ e, s.sys.world.holder pid = some e)
    (h : ¬∃ ppid, s.IsParent pid ppid) : s.findParent os pid (s.kin pid).ppid = .ok none := by
  obtain ⟨p, hp, -⟩ := newCreateTime_of_held os hw hpid
  cases hh : s.sys.world.holder (s.kin pid).ppid with
  | none =>
    obtain ⟨e, he, hgone⟩ := newCreateTime_of_free os hh
    simp [findParent, hp, he, hgone]
  | some e =>
    obtain ⟨q, hq, -⟩ := newCreateTime_of_held os hw ⟨e, hh⟩
    have hlt : ¬(s.kin (s.kin pid).ppid).createTime ≤ (s.kin pid).createTime := fun hle => h ⟨_, rfl, ⟨e, hh⟩, hle⟩
    simp [findParent, hp, hq, hlt]

/-- The search reads the process table and nothing else. -/
theorem findParent_congr (hw : s'.sys.world = s.sys.world) (hk : s'.kin = s.kin) :
    s'.findParent os = s.findParent os := by
  funext pid ppid
  simp only [findParent, newCreateTime, stat, hw, hk]

theorem returned_out (s : Lineage) (r : Except Exc (Option Process)) : (s.returned r).2 = .parent r := by
  cases r with
  | error e => rfl
  | ok q => cases q <;> rfl

/-- `ppid()` of a live process. -/
theorem ppid_of_live {p : Process} (hb : PidBound os s.sys.world p) (hlive : s.Live os p) (o : Nat) :
    ∃ s', s.ppid os o p = (.ok (s.kin p.pid).ppid, s') ∧ s'.sys.world = s.sys.world ∧ s'.kin = s.kin := by
  obtain ⟨e, he⟩ := held_of_live hlive
  have hpass := raiseIfPidReused_of_live hb hlive
  obtain ⟨⟨raised, p', detected⟩, hr⟩ : ∃ r, p.raiseIfPidReused os s.sys.world = r := ⟨_, rfl⟩
  obtain rfl : raised = none := by rwa [hr] at hpass
  obtain ⟨s', hs'⟩ : ∃ s' : Lineage, s' =
      { s with sys := { s.sys with procs := s.sys.procs.set o p' }.flagReused detected p.pid } := ⟨_, rfl⟩
  have hworld : s'.sys.world = s.sys.world := by rw [hs']; exact Sys.world_flagReused _ _ _
  have hkin : s'.kin = s.kin := by rw [hs']
  have hstat : s'.stat p = .ok (s.kin p.pid) := by simp only [stat, hworld, he, hkin]
  refine ⟨s', ?_, hworld, hkin⟩
  simp only [ppid, hr, ← hs', hstat, Except.map]

/-- **The answer of a call** on a live process. -/
theorem parent_eq (h : s.Inv os) {o : Nat} {p : Process} (hp : s.sys.procs[o]? = some p) (hlive : s.Live os p) {l : Nat}
    (hl : s.lowest.1 = .ok l) :
    (s.parent os o).2 = .parent (if p.pid = l then .ok none else s.findParent os p.pid (s.kin p.pid).ppid) := by
  obtain ⟨hsys, hkin⟩ := s.lowest_shown
  obtain ⟨r, s₁, hlow⟩ : ∃ r s₁, s.lowest = (r, s₁) := ⟨_, _, rfl⟩
  rw [hlow] at hl hsys hkin
  dsimp only at hl hsys hkin
  simp only [parent, hp, hlow, hl]
  by_cases hpl : p.pid = l
  · simp only [if_pos hpl]
  · have hlive₁ : s₁.Live os p := by rwa [Live, hsys]
    have hb : PidBound os s₁.sys.world p := hsys ▸ h.bound p (List.mem_of_getElem? hp)
    obtain ⟨s₂, hppid, hworld, hkin₂⟩ := ppid_of_live hb hlive₁ o
    simp only [if_neg hpl, hppid]
    rw [returned_out, findParent_congr (hworld.trans (by rw [hsys])) (hkin₂.trans hkin), hkin]

/-- The answer is the parent, unless the process is taken for the one with the lowest PID. -/
theorem parentExact_answer_iff {pid ppid l : Nat} {q : Process} (hpar : s.IsParent pid ppid) (hqpid : q.pid = ppid) (hqlive : s.Live os q) :
    s.ParentExact os pid (.parent (if pid = l then .ok none else .ok (some q))) ↔ (pid = l ↔ s.IsLowest pid) := by
  by_cases hpl : pid = l
  · simp only [hpl, true_iff]
    constructor
    · intro hx
      by_contra hlow
      obtain ⟨q', hq', -⟩ := hx.found _ (hpl ▸ hpar) hlow
      cases hq'
    · exact fun hlow => ⟨fun _ _ hnot => absurd hlow hnot, fun _ => rfl⟩
  · simp only [hpl, false_iff]
    constructor
    · intro hx hlow
      cases hx.otherwise (Or.inr hlow)
    · intro hlow
      refine ⟨fun ppid' hpar' _ => ⟨q, rfl, ?_, hqlive⟩, fun hno => ?_⟩
      · rw [hqpid, ← hpar.1, hpar'.1]
      · rcases hno with hno | hno
        · exact absurd ⟨_, hpar⟩ hno
        · exact absurd hno hlow

/-- **One call is right exactly if** the recorded PID is still the lowest one, or there is no parent anyway. -/
theorem parentExact_iff (h : s.Inv os) {o : Nat} {p : Process} (hp : s.sys.procs[o]? = some p) (hlive : s.Live os p) :
    s.ParentExact os p.pid (s.parent os o).2 ↔
      (∀ l, s.lowestPid = some l → (p.pid = l ↔ s.IsLowest p.pid)) ∨ ¬∃ ppid, s.IsParent p.pid ppid := by
  obtain ⟨e, he⟩ := held_of_live hlive
  obtain ⟨l, hl, hrec⟩ := lowest_eq (s := s) ⟨p.pid, e, he⟩
  rw [parent_eq h hp hlive hl]
  by_cases hpar : ∃ ppid, s.IsParent p.pid ppid
  · obtain ⟨ppid, hpar⟩ := hpar
    obtain rfl : (s.kin p.pid).ppid = ppid := hpar.1
    obtain ⟨q, hq, hqpid, hqlive⟩ := findParent_of_isParent os h.world ⟨e, he⟩ hpar
    rw [hq, parentExact_answer_iff hpar hqpid hqlive, or_iff_left (not_not.2 ⟨_, hpar⟩)]
    rcases hrec with hrec | ⟨hrec, hlow, e', he'⟩
    · simp [hrec]
    · -- nothing is recorded: the list is read now
      refine iff_of_true ⟨fun hpl => hpl ▸ hlow, fun hp => le_antisymm (hp l e' he') (hlow p.pid e he)⟩ (by simp [hrec])
  · refine iff_of_true ⟨fun ppid hp' => absurd ⟨ppid, hp'⟩ hpar, fun _ => ?_⟩ (Or.inr hpar)
    rw [findParent_of_not_isParent h.world ⟨e, he⟩ hpar, ite_self]

/-! ## Runs -/

theorem Inv.of_objects {old built : List Process} {w : World} (hw : w.WF) (h : ∀ p ∈ s.sys.procs, PidBound os w p)
    (hold : List.Forall₂ (Latched os w) s.sys.procs old) (hbuilt : ∀ p ∈ built, ∃ pid, Process.new os w pid = .ok p) :
    ∀ p ∈ old ++ built, PidBound os w p := by
  intro p hp
  rcases List.mem_append.1 hp with hp | hp
  · obtain ⟨p₀, hp₀, hl⟩ : ∃ p₀ ∈ s.sys.procs, Latched os w p₀ p := by
      obtain ⟨hlen, hget⟩ := List.forall₂_iff_get.1 hold
      obtain ⟨i, hi, rfl⟩ := List.getElem_of_mem hp
      exact ⟨_, List.getElem_mem (hlen ▸ hi), hget i (hlen ▸ hi) hi⟩
    exact (h p₀ hp₀).latched hl
  · obtain ⟨pid, hnew⟩ := hbuilt p hp
    exact .new hw hnew

theorem Inv.sys (h : s.Inv os) (ev : SysEv) : Inv os { s with sys := ((sysMachine os).step s.sys ev).1 } := by
  refine ⟨Sys.world_wf_step s.sys ev h.world, ?_⟩
  obtain ⟨old, built, hprocs, hold, hbuilt⟩ := Sys.step_procs_of os s.sys ev Latched.refl isRunning_latched act_latched
  have hbound := Inv.of_objects h.world h.bound hold hbuilt
  intro p hp
  rw [Sys.step_world]
  rw [hprocs] at hp
  cases ev with
  | world ev => exact (hbound p hp).world ev
  | _ => exact hbound p hp

theorem newCreateTime_fst {pid : Nat} {r : Process × ℚ} (h : s.newCreateTime os pid = .ok r) :
    Process.new os s.sys.world pid = .ok r.1 := by
  unfold newCreateTime at h
  cases hn : Process.new os s.sys.world pid with
  | error e => simp [hn, bind, Except.bind] at h
  | ok p =>
    cases hs : s.stat p with
    | error e => simp [hn, hs, bind, Except.bind] at h
    | ok k =>
      simp only [hn, hs, bind, Except.bind, pure, Except.pure, Except.ok.injEq] at h
      rw [← h]

theorem findParent_new {pid ppid : Nat} {q : Process} (h : s.findParent os pid ppid = .ok (some q)) :
    Process.new os s.sys.world ppid = .ok q := by
  unfold findParent at h
  split at h
  · cases h
  · split at h
    · rename_i hq
      split at h
      · cases h
        exact newCreateTime_fst hq
      · cases h
    · split at h <;> cases h

theorem Inv.lowest (h : s.Inv os) : Inv os s.lowest.2 := by
  have hsys := s.lowest_shown.1
  exact ⟨hsys ▸ h.world, hsys ▸ h.bound⟩

theorem Inv.ppid (h : s.Inv os) {o : Nat} {p : Process} (hp : s.sys.procs[o]? = some p) : Inv os (s.ppid os o p).2 := by
  obtain ⟨⟨raised, p', detected⟩, hr⟩ : ∃ r, p.raiseIfPidReused os s.sys.world = r := ⟨_, rfl⟩
  have hl : Latched os s.sys.world p p' := by
    have hl : Latched os s.sys.world p _ := raiseIfPidReused_latched p
    rwa [hr] at hl
  have hinv : Inv os { s with sys := { s.sys with procs := s.sys.procs.set o p' }.flagReused detected p.pid } := by
    refine ⟨by simpa only [Sys.world_flagReused] using h.world, fun q hq => ?_⟩
    simp only [Sys.world_flagReused, Sys.procs_flagReused] at hq ⊢
    have hbound := @Inv.of_objects os s _ [] _ h.world h.bound (forall₂_set Latched.refl hp hl) (by simp)
    exact hbound q (by simpa using hq)
  unfold Lineage.ppid
  rw [hr]
  cases raised <;> exact hinv

theorem Inv.returned (h : s.Inv os) {r : Except Exc (Option Process)}
    (hr : ∀ q, r = .ok (some q) → ∃ pid, Process.new os s.sys.world pid = .ok q) : Inv os (s.returned r).1 := by
  cases r with
  | error e => exact h
  | ok q => cases q with
    | none => exact h
    | some q =>
      refine ⟨h.world, fun p hp => ?_⟩
      rcases List.mem_append.1 hp with hp | hp
      · exact h.bound p hp
      · obtain rfl := List.mem_singleton.1 hp
        obtain ⟨pid, hnew⟩ := hr _ rfl
        exact .new h.world hnew

theorem Inv.parent (h : s.Inv os) (o : Nat) : Inv os (s.parent os o).1 := by
  have hlow := h.lowest
  have hsys := s.lowest_shown.1
  unfold Lineage.parent
  split
  · exact h
  · rename_i p hp
    split
    · rename_i hl
      rwa [hl] at hlow
    · rename_i l s₁ hl
      rw [hl] at hlow hsys
      split
      · exact hlow
      · have hppid := hlow.ppid (o := o) (p := p) (hsys ▸ hp)
        split
        · rename_i hq
          rwa [hq] at hppid
        · rename_i ppid s₂ hq
          rw [hq] at hppid
          exact hppid.returned fun q hfound => ⟨ppid, findParent_new hfound⟩

theorem Inv.step (s : Lineage) (ev : LineageEv) (h : s.Inv os) : Inv os ((lineageMachine os).step s ev).1 := by
  have hpids : Inv os s.pids.2 := ⟨s.pids_shown.1 ▸ h.world, s.pids_shown.1 ▸ h.bound⟩
  cases ev with
  | kin pid k => exact ⟨h.world, h.bound⟩
  | pids => exact hpids
  | parent o => exact h.parent o
  | sys ev =>
    cases ev with
    | iterStart =>
      simp only [lineageMachine]
      split
      · rename_i hp
        rwa [hp] at hpids
      · rename_i hp
        rw [hp] at hpids
        exact hpids.sys .iterStart
    | _ => exact h.sys _

theorem inv_init : Inv os init := ⟨World.wf_init, by simp [init, Sys.init]⟩

end Lineage

/-- **`parent()` of a live process**, in every run: it is the live parent, and `None` for the process that has the lowest
PID now, exactly when the recorded PID tells the same or there is no parent to return. -/
theorem parent_exact_iff (os : Os) (evs : List LineageEv) (s : Lineage) (hs : (lineageMachine os).run .init evs = s) (o : Nat)
    (p : Process) (hp : s.sys.procs[o]? = some p) (hlive : s.Live os p) :
    s.ParentExact os p.pid ((lineageMachine os).step s (.parent o)).2 ↔
      (∀ l, s.lowestPid = some l → (p.pid = l ↔ s.IsLowest p.pid)) ∨ ¬∃ ppid, s.IsParent p.pid ppid :=
  Lineage.parentExact_iff (hs ▸ (lineageMachine os).run_inv Lineage.Inv.step Lineage.inv_init evs) hp hlive

/-- The recorded PID 5 is free again, then held by a child of a process with a lower PID. -/
def staleLowest : List LineageEv :=
  [.sys (.world (.birth 9 1 false)), .kin 9 ⟨1, 10⟩, .sys (.world (.birth 5 2 false)), .kin 5 ⟨9, 20⟩, .pids,
    .sys (.world (.exit 5 (.exited 0))), .sys (.world (.reap 5)), .sys (.world (.birth 3 3 false)), .kin 3 ⟨9, 30⟩,
    .sys (.world (.birth 5 4 false)), .kin 5 ⟨3, 40⟩, .sys (.new 5)]

theorem parent_stale_lowest : ¬∀ (evs : List LineageEv) (s : Lineage), (lineageMachine .linux).run .init evs = s →
    ∀ (o : Nat) (p : Process), s.sys.procs[o]? = some p → s.Live .linux p →
      s.ParentExact .linux p.pid ((lineageMachine .linux).step s (.parent o)).2 := by
  intro h
  have hexact := h staleLowest _ rfl 0 ⟨5, none, none, (5, some 4), false, false, none⟩ rfl rfl
  have hnone : ((lineageMachine .linux).step ((lineageMachine .linux).run .init staleLowest) (.parent 0)).2 =
      .parent (.ok none) := rfl
  have hle : (30 : ℚ) ≤ 40 := by norm_num
  obtain ⟨q, hq, -⟩ := hexact.found 3 ⟨rfl, ⟨_, rfl⟩, hle⟩ fun hlow => absurd (hlow 3 _ rfl) (by decide)
  rw [hnone] at hq
  cases hq

/-- A process with the lowest PID and its child. -/
def freshChild : List LineageEv :=
  [.sys (.world (.birth 9 1 false)), .kin 9 ⟨1, 10⟩, .pids, .sys (.world (.birth 12 2 false)), .kin 12 ⟨9, 20⟩, .sys (.new 12)]

theorem parent_exact_child : ∃ s, (lineageMachine .linux).run .init freshChild = s ∧
    s.ParentExact .linux 12 ((lineageMachine .linux).step s (.parent 0)).2 := by
  refine ⟨_, rfl, (parent_exact_iff .linux freshChild _ rfl 0 ⟨12, none, none, (12, some 2), false, false, none⟩ rfl rfl).2
    (Or.inl ?_)⟩
  intro l hl
  obtain rfl : 9 = l := Option.some.inj hl
  exact iff_of_false (by decide) fun hlow => absurd (hlow 9 _ rfl) (by decide)

end Psutil
