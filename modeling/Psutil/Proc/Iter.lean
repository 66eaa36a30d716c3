import Psutil.Lib.Fold
import Psutil.Proc.Spec

/-!
# What `process_iter` yields

A pass is one generator run to its end while no process is born or dies. `process_iter_complete_iff` says
when it yields the whole PID snapshot: exactly when no PID that is both cached and alive is waiting in
`_pids_reused`, since `new_pids` is computed before such a PID is dropped from the map (`__init__.py:1838`).
-/

namespace Psutil

open Lib

/-! ## The list of a generator -/

theorem get?_removeAll (pmap : Dict Nat Nat) (pids : List Nat) (pid : Nat) :
    (removeAll pmap pids).get? pid = if pid ∈ pids then none else pmap.get? pid := by
  induction pids generalizing pmap with
  | nil => rfl
  | cons p pids ih =>
    have hcons : removeAll pmap (p :: pids) = removeAll (pmap.erase p) pids := rfl
    rw [hcons, ih, Dict.get?_erase]
    by_cases e : pid = p <;> simp [e]

namespace Sys

/-- The private map of a new generator: what is cached, alive and not waiting in `_pids_reused`. -/
theorem get?_startGen (s : Sys) (pid : Nat) :
    s.startGen.pmap.get? pid = if pid ∈ s.world.pids ∧ pid ∉ s.pidsReused then s.pmap.get? pid else none := by
  simp only [startGen, get?_removeAll, List.mem_filter, decide_eq_true_eq]
  by_cases hr : pid ∈ s.pidsReused
  · simp [hr]
  by_cases hp : pid ∈ s.world.pids
  · simp [hr, hp]
  by_cases hm : pid ∈ s.pmap
  · simp [hr, hp, Dict.mem_def.1 hm]
  · simp [hr, hp, Dict.get?_eq_none.2 hm]

theorem mem_toVisit {pmap : Dict Nat Nat} {newPids : List Nat} {item : Nat × Option Nat} :
    item ∈ toVisit pmap newPids ↔
      (∃ o, item.2 = some o ∧ pmap.get? item.1 = some o) ∨ (item.2 = none ∧ item.1 ∈ newPids) := by
  obtain ⟨pid, o⟩ := item
  simp only [toVisit, List.mem_insertionSort, List.mem_append, List.mem_map, Prod.mk.injEq, Prod.exists]
  refine or_congr ⟨?_, ?_⟩ ⟨?_, ?_⟩
  · rintro ⟨p, o', hm, rfl, rfl⟩
    exact ⟨o', rfl, Dict.mem_items.1 hm⟩
  · rintro ⟨o', rfl, hm⟩
    exact ⟨pid, o', Dict.mem_items.2 hm, rfl, rfl⟩
  · rintro ⟨p, hm, rfl, rfl⟩
    exact ⟨rfl, hm⟩
  · rintro ⟨rfl, hm⟩
    exact ⟨pid, hm, rfl, rfl⟩

theorem map_fst_toVisit (pmap : Dict Nat Nat) (newPids : List Nat) :
    (toVisit pmap newPids).map Prod.fst = (pmap.keys ++ newPids).insertionSort (· ≤ ·) := by
  rw [toVisit, List.map_insertionSort (fun p q : Nat × Option Nat => p.1 ≤ q.1) (· ≤ ·) Prod.fst _
    fun _ _ _ _ => Iff.rfl, List.map_append, List.map_map, List.map_map]
  simp [Dict.keys, Function.comp_def]

theorem todo_startGen (s : Sys) :
    s.startGen.todo = toVisit s.startGen.pmap (s.world.pids.filter (· ∉ s.pmap)) := rfl

/-- The list `ls` of a new generator: the instances of its private map, and the PIDs that were not cached. -/
theorem mem_todo {s : Sys} {item : Nat × Option Nat} :
    item ∈ s.startGen.todo ↔ (∃ o, item.2 = some o ∧ s.startGen.pmap.get? item.1 = some o) ∨
      (item.2 = none ∧ item.1 ∈ s.world.pids ∧ item.1 ∉ s.pmap) := by
  rw [todo_startGen, mem_toVisit, List.mem_filter, decide_eq_true_eq]

/-- The PIDs it visits: those alive, but for the cached ones that are waiting in `_pids_reused`. -/
theorem mem_visited {s : Sys} {pid : Nat} :
    pid ∈ s.startGen.todo.map Prod.fst ↔ pid ∈ s.world.pids ∧ (pid ∈ s.pmap → pid ∉ s.pidsReused) := by
  have hg := s.get?_startGen pid
  constructor
  · intro h
    obtain ⟨item, hitem, rfl⟩ := List.mem_map.1 h
    rcases mem_todo.1 hitem with ⟨o, -, ho⟩ | ⟨-, hp, hm⟩
    · rw [ho] at hg
      by_cases hc : item.1 ∈ s.world.pids ∧ item.1 ∉ s.pidsReused
      · exact ⟨hc.1, fun _ => hc.2⟩
      · rw [if_neg hc] at hg
        cases hg
    · exact ⟨hp, fun hm' => absurd hm' hm⟩
  · rintro ⟨hp, hr⟩
    by_cases hm : pid ∈ s.pmap
    · obtain ⟨o, ho⟩ := Dict.mem_iff_get?.1 hm
      rw [if_pos ⟨hp, hr hm⟩, ho] at hg
      exact List.mem_map.2 ⟨(pid, some o), mem_todo.2 (Or.inl ⟨o, rfl, hg⟩), rfl⟩
    · exact List.mem_map.2 ⟨(pid, none), mem_todo.2 (Or.inr ⟨rfl, hp, hm⟩), rfl⟩

/-- It visits them in strictly increasing order: the cached and the new PIDs are disjoint. -/
theorem sorted_visited (s : Sys) : (s.startGen.todo.map Prod.fst).Pairwise (· < ·) := by
  rw [todo_startGen, map_fst_toVisit]
  refine World.pairwise_lt_insertionSort (List.nodup_append.2
    ⟨s.startGen.pmap.nodup_keys, (s.world.sorted_pids.imp ne_of_lt).filter _, fun a ha b hb => ?_⟩)
  rintro rfl
  obtain ⟨o, ho⟩ := Dict.mem_iff_get?.1 (Dict.mem_def.2 ha)
  rw [get?_startGen] at ho
  by_cases hc : a ∈ s.world.pids ∧ a ∉ s.pidsReused
  · rw [if_pos hc] at ho
    simp [Dict.mem_of_get? ho] at hb
  · rw [if_neg hc] at ho
    cases ho

end Sys

/-! ## The maps refer to objects of their PIDs -/

def Refers (procs : List Process) (m : Dict Nat Nat) : Prop :=
  ∀ pid o, m.get? pid = some o → ∃ p, procs[o]? = some p ∧ p.pid = pid

theorem Refers.mono {procs old built : List Process} {m : Dict Nat Nat} (h : Refers procs m)
    (hold : List.Forall₂ SameBinding procs old) : Refers (old ++ built) m := by
  intro pid o hm
  obtain ⟨p, hp, rfl⟩ := h pid o hm
  obtain ⟨ho, rfl⟩ := List.getElem?_eq_some_iff.1 hp
  obtain ⟨hlen, hget⟩ := List.forall₂_iff_get.1 hold
  refine ⟨old.get ⟨o, hlen ▸ ho⟩, ?_, (hget o ho (hlen ▸ ho)).1⟩
  rw [List.getElem?_append_left (hlen ▸ ho), List.getElem?_eq_getElem (hlen ▸ ho)]
  rfl

theorem Refers.erase {procs : List Process} {m : Dict Nat Nat} (h : Refers procs m) (pid : Nat) :
    Refers procs (m.erase pid) := by
  intro pid' o hm
  rw [Dict.get?_erase] at hm
  by_cases e : pid' = pid
  · simp [e] at hm
  · exact h pid' o (by rwa [if_neg e] at hm)

theorem advance_refers (os : Os) (w : World) {procs : List Process} : ∀ {pmap : Dict Nat Nat}
    (ls : List (Nat × Option Nat)), Refers procs pmap →
    Refers (advance os w procs pmap ls).procs (advance os w procs pmap ls).pmap
  | _, [], h => h
  | _, (_, some _) :: _, h => h
  | pmap, (pid, none) :: ls, h => by
    cases hnew : Process.new os w pid with
    | error e => simpa [advance, hnew] using advance_refers os w ls (h.erase pid)
    | ok p =>
      simp only [advance, hnew]
      intro pid' o hm
      rw [Dict.get?_set] at hm
      by_cases e : pid' = p.pid
      · rw [if_pos e, Option.some.injEq] at hm
        exact ⟨p, by simp [← hm], e.symm⟩
      · exact h.mono (forall₂_sameBinding_refl procs) pid' o (by rwa [if_neg e] at hm)

/-- `_pmap` and the private maps of the generators. -/
structure Refs (s : Sys) : Prop where
  pmap : Refers s.procs s.pmap
  gens : ∀ gen ∈ s.gens, Refers s.procs gen.pmap

theorem Refs.startGen {s : Sys} (h : Refs s) : Refers s.procs s.startGen.pmap := by
  intro pid o hm
  rw [Sys.get?_startGen] at hm
  split at hm
  · exact h.pmap pid o hm
  · cases hm

theorem Refs.resume {os : Os} {s : Sys} (h : Refs s) {g : Nat} {gen : Gen} (hgen : Refers s.procs gen.pmap) :
    Refs (s.resume os g gen).1 := by
  obtain ⟨built, hb, -⟩ := advance_procs os s.world s.procs gen.pmap gen.todo
  have hadv := advance_refers os s.world gen.todo hgen
  have hold : ∀ {m : Dict Nat Nat}, Refers s.procs m →
      Refers (advance os s.world s.procs gen.pmap gen.todo).procs m := fun hm => by
    rw [hb]
    exact hm.mono (forall₂_sameBinding_refl _)
  unfold Sys.resume
  dsimp only
  split
  · refine ⟨hold h.pmap, fun gen' hg => ?_⟩
    rcases List.mem_or_eq_of_mem_set hg with hg | rfl
    · exact hold (h.gens gen' hg)
    · exact hadv
  · refine ⟨hadv, fun gen' hg => ?_⟩
    rcases List.mem_or_eq_of_mem_set hg with hg | rfl
    · exact hold (h.gens gen' hg)
    · exact hadv

theorem Refs.step {os : Os} (s : Sys) (ev : SysEv) (h : Refs s) : Refs ((sysMachine os).step s ev).1 := by
  -- an event that is not one of `process_iter` only changes or adds objects
  have hother : ev.offCache = true → Refs ((sysMachine os).step s ev).1 := by
    intro hev
    obtain ⟨hm, hg, -⟩ := Sys.step_offCache os s hev
    obtain ⟨old, built, hprocs, hold, -⟩ := Sys.step_procs os s ev
    constructor
    · rw [hm, hprocs]
      exact h.pmap.mono hold
    · intro gen hgen
      rw [hprocs]
      exact (h.gens gen (hg ▸ hgen)).mono hold
  cases ev with
  | world ev => exact hother rfl
  | new pid => exact hother rfl
  | isRunning o => exact hother rfl
  | act o c => exact hother rfl
  | iterStart =>
    have hs : Refs { s with pidsReused := [], gens := s.gens ++ [s.startGen], drained := s.drained ++ s.startGen.drains } := by
      refine ⟨h.pmap, fun gen hgen => ?_⟩
      rcases List.mem_append.1 hgen with hgen | hgen
      · exact h.gens gen hgen
      · exact List.mem_singleton.1 hgen ▸ h.startGen
    exact hs.resume h.startGen
  | iterNext g =>
    simp only [sysMachine, Sys.iterNext]
    split
    · rename_i gen hgen
      split
      · exact h.resume (h.gens gen (List.mem_of_getElem? hgen))
      · exact h
    · exact h
  | iterClose g =>
    simp only [sysMachine, Sys.iterClose]
    split
    · rename_i gen hgen
      split
      · refine ⟨h.gens gen (List.mem_of_getElem? hgen), fun gen' hg => ?_⟩
        rcases List.mem_or_eq_of_mem_set hg with hg | rfl
        · exact h.gens gen' hg
        · exact h.gens gen (List.mem_of_getElem? hgen)
      · exact h
    · exact h
  | cacheClear => exact ⟨fun pid o hm => by simp [sysMachine] at hm, h.gens⟩

theorem refs_run (os : Os) (evs : List SysEv) : Refs ((sysMachine os).run .init evs) :=
  (sysMachine os).run_inv Refs.step ⟨fun pid o hm => by simp [Sys.init] at hm, by simp [Sys.init]⟩ evs

/-! ## A pass -/

/-- The objects among the answers. -/
def yields (outs : List SysOut) : List Nat :=
  outs.filterMap fun
    | .yielded o => some o
    | _ => none

/-- The object for an item of `ls`: the cached one, or a new one for the holder of the PID. -/
def YieldedFor (os : Os) (w : World) (old : Nat) (procs : List Process) (item : Nat × Option Nat) (o : Nat) : Prop :=
  match item.2 with
  | some o' => o = o'
  | none => old ≤ o ∧ ∃ p, procs[o]? = some p ∧ Process.new os w item.1 = .ok p

theorem getElem?_append_of_some {procs : List Process} {o : Nat} {p : Process} (h : procs[o]? = some p)
    (built : List Process) : (procs ++ built)[o]? = some p := by
  obtain ⟨ho, -⟩ := List.getElem?_eq_some_iff.1 h
  rwa [List.getElem?_append_left ho]

theorem YieldedFor.mono {os : Os} {w : World} {old old' : Nat} {procs : List Process} {item : Nat × Option Nat}
    {o : Nat} (h : YieldedFor os w old procs item o) (hold : old' ≤ old) (built : List Process) :
    YieldedFor os w old' (procs ++ built) item o := by
  unfold YieldedFor at h ⊢
  split at h
  · exact h
  · obtain ⟨hle, p, hget, hnew⟩ := h
    exact ⟨hold.trans hle, p, getElem?_append_of_some hget built, hnew⟩

namespace Sys

variable {os : Os}

/-- A generator with nothing left yields nothing more. -/
theorem run_exhausted (os : Os) (k : Nat) : ∀ {s : Sys} {g : Nat} {gen : Gen}, s.gens[g]? = some gen → gen.todo = [] →
    ((sysMachine os).run s (List.replicate k (.iterNext g))).procs = s.procs ∧
      yields ((sysMachine os).outs s (List.replicate k (.iterNext g))) = [] := by
  induction k with
  | zero => exact fun _ _ => ⟨rfl, rfl⟩
  | succ k ih =>
    intro s g gen hg hls
    have hlt : g < s.gens.length := (List.getElem?_eq_some_iff.1 hg).1
    obtain ⟨s', hstep, hprocs, gen', hg', hls'⟩ : ∃ s', (sysMachine os).step s (.iterNext g) = (s', .stop) ∧
        s'.procs = s.procs ∧ ∃ gen', s'.gens[g]? = some gen' ∧ gen'.todo = [] := by
      cases hu : gen.unfinished with
      | false => exact ⟨s, by simp [sysMachine, iterNext, hg, hu], rfl, gen, hg, hls⟩
      | true =>
        let gen' : Gen := { gen with todo := [], unfinished := false }
        refine ⟨{ s with pmap := gen.pmap, gens := s.gens.set g gen' }, ?_, rfl, gen', List.getElem?_set_self hlt, rfl⟩
        simp [sysMachine, iterNext, hg, hu, resume, hls, advance, gen']
    obtain ⟨hrun, houts⟩ := ih hg' hls'
    rw [List.replicate_succ, Machine.run_cons, Machine.outs_cons, hstep]
    exact ⟨hrun.trans hprocs, houts⟩

/-- One `next()` of a generator that has a PID left, whose holder is known if it has no instance: it yields
an object for that PID. -/
theorem resume_cons (os : Os) {s : Sys} (hw : s.world.WF) {g : Nat} {gen : Gen} {item : Nat × Option Nat}
    {ls : List (Nat × Option Nat)} (hls : gen.todo = item :: ls)
    (hheld : item.2 = none → ∃ e, s.world.holder item.1 = some e) :
    ∃ o built pmap, s.resume os g gen = ({ s with procs := s.procs ++ built, gens := s.gens.set g { gen with pmap := pmap, todo := ls } }, .yielded o) ∧
      YieldedFor os s.world s.procs.length (s.procs ++ built) item o := by
  obtain ⟨pid, x⟩ := item
  cases x with
  | some o => exact ⟨o, [], gen.pmap, by simp [resume, hls, advance], rfl⟩
  | none =>
    obtain ⟨e, he⟩ := hheld rfl
    obtain ⟨p, hnew, -, -⟩ := Process.new_of_holder os hw he
    refine ⟨s.procs.length, [p], gen.pmap.set p.pid s.procs.length, by simp [resume, hls, advance, hnew], ?_⟩
    exact ⟨le_rfl, p, by simp, hnew⟩

/-- **A generator run to its end while nothing else happens** yields one object for each PID it has left. -/
theorem run_generator (os : Os) (k : Nat) : ∀ {s : Sys} {g : Nat} {gen : Gen}, s.world.WF → s.gens[g]? = some gen →
    gen.unfinished = true → (∀ item ∈ gen.todo, item.2 = none → ∃ e, s.world.holder item.1 = some e) →
    gen.todo.length ≤ k →
    ∃ built, ((sysMachine os).run s (List.replicate k (.iterNext g))).procs = s.procs ++ built ∧
      List.Forall₂ (YieldedFor os s.world s.procs.length (s.procs ++ built)) gen.todo
        (yields ((sysMachine os).outs s (List.replicate k (.iterNext g)))) := by
  induction k with
  | zero =>
    intro s g gen _ _ _ _ hk
    rw [List.length_eq_zero_iff.1 (Nat.le_zero.1 hk)]
    exact ⟨[], (List.append_nil _).symm, .nil⟩
  | succ k ih =>
    intro s g gen hw hg hu hheld hk
    cases hls : gen.todo with
    | nil =>
      obtain ⟨hrun, houts⟩ := run_exhausted os (k + 1) hg hls
      exact ⟨[], by rw [hrun, List.append_nil], houts ▸ .nil⟩
    | cons item ls =>
      have hlt : g < s.gens.length := (List.getElem?_eq_some_iff.1 hg).1
      have hstep : (sysMachine os).step s (.iterNext g) = s.resume os g gen := by simp [sysMachine, iterNext, hg, hu]
      rw [hls] at hheld hk
      obtain ⟨o, built, pmap, hres, ho⟩ := resume_cons os hw (g := g) hls (hheld item List.mem_cons_self)
      rw [List.replicate_succ, Machine.run_cons, Machine.outs_cons, hstep, hres]
      obtain ⟨built', hrun, hys⟩ := ih (s := { s with procs := s.procs ++ built, gens := s.gens.set g { gen with pmap := pmap, todo := ls } })
        hw (List.getElem?_set_self hlt) hu (fun i hi => hheld i (List.mem_cons_of_mem _ hi)) (by simpa using hk)
      refine ⟨built ++ built', by rw [hrun, List.append_assoc], ?_⟩
      simp only [List.append_assoc] at hys
      refine .cons ?_ (hys.imp fun i o' hi => ?_)
      · simpa using ho.mono le_rfl built'
      · simpa using hi.mono (by simp) []

/-- The list of a new generator has only PIDs that are held, each once. -/
theorem startGen_todo_held {s : Sys} (item : Nat × Option Nat) (h : item ∈ s.startGen.todo) :
    ∃ e, s.world.holder item.1 = some e :=
  World.mem_pids.1 (mem_visited.1 (List.mem_map_of_mem h)).1

theorem length_startGen_todo (s : Sys) : s.startGen.todo.length ≤ s.world.pids.length := by
  have hsub : s.startGen.todo.map Prod.fst ⊆ s.world.pids := fun pid h => (mem_visited.1 h).1
  have hle := (List.subperm_of_subset (s.sorted_visited.imp ne_of_lt) hsub).length_le
  rwa [List.length_map] at hle

/-- A pass with nothing else in between: the first `next()`, and `k` more on the same generator. -/
def pass (s : Sys) (k : Nat) : List SysEv := .iterStart :: List.replicate k (.iterNext s.gens.length)

/-- **What a pass yields**: one object for each PID of its list. -/
theorem pass_yields (os : Os) {s : Sys} (hw : s.world.WF) {k : Nat} (hk : s.world.pids.length ≤ k) :
    ∃ built, ((sysMachine os).run s (s.pass k)).procs = s.procs ++ built ∧
      List.Forall₂ (YieldedFor os s.world s.procs.length (s.procs ++ built)) s.startGen.todo
        (yields ((sysMachine os).outs s (s.pass k))) := by
  -- the first `next()` on the generator once it is in the list is the same step as `iterStart`
  let s' : Sys := { s with pidsReused := [], gens := s.gens ++ [s.startGen], drained := s.drained ++ s.startGen.drains }
  have hg : s'.gens[s.gens.length]? = some s.startGen := List.getElem?_concat_length
  have hstep : (sysMachine os).step s .iterStart = (sysMachine os).step s' (.iterNext s.gens.length) := by
    simp only [sysMachine, iterStart, iterNext, hg]
    rfl
  have h := run_generator os (k + 1) (s := s') hw hg rfl (fun item hi _ => startGen_todo_held (s := s) item hi)
    ((length_startGen_todo s).trans (hk.trans k.le_succ))
  rw [List.replicate_succ, Machine.run_cons, Machine.outs_cons, ← hstep] at h
  exact h

/-- A pass over the PIDs alive in `s`, of a generator whose `next()` is called `k + 1` times. -/
structure CompletePass (os : Os) (s : Sys) (k : Nat) : Prop where
  /-- One object for each PID of the snapshot, in its order, and no other. -/
  visits : (yields ((sysMachine os).outs s (s.pass k))).map
    (fun o => (((sysMachine os).run s (s.pass k)).procs[o]?).map Process.pid) = s.world.pids.map some
  increasing : s.world.pids.Pairwise (· < ·)
  /-- A PID flagged as reused comes as a new object, with the identity of the current holder. -/
  refreshed : ∀ pid ∈ s.pidsReused, pid ∈ s.world.pids → ∃ o ∈ yields ((sysMachine os).outs s (s.pass k)),
    s.procs.length ≤ o ∧ ∃ p, ((sysMachine os).run s (s.pass k)).procs[o]? = some p ∧ p.pid = pid ∧
      getIdent os s.world pid = some p.ident

end Sys

/-- The object for an item has the PID of the item. -/
theorem YieldedFor.pid {os : Os} {s : Sys} (h : Refs s) {procs : List Process} {item : Nat × Option Nat} {o : Nat}
    (hitem : item ∈ s.startGen.todo) {built : List Process} (hprocs : procs = s.procs ++ built)
    (ho : YieldedFor os s.world s.procs.length procs item o) : procs[o]?.map Process.pid = some item.1 := by
  rcases Sys.mem_todo.1 hitem with ⟨o', hi, hm⟩ | ⟨hi, -, -⟩
  · obtain ⟨p, hp, hpid⟩ := h.startGen item.1 o' hm
    simp only [YieldedFor, hi] at ho
    rw [ho, hprocs, getElem?_append_of_some hp built, ← hpid]
    rfl
  · simp only [YieldedFor, hi] at ho
    obtain ⟨-, p, hp, hnew⟩ := ho
    rw [hp, ← (Process.new_eq_ok hnew).1]
    rfl

/-- **`process_iter` is complete, exactly when** no PID that is cached and alive waits in `_pids_reused`. -/
theorem process_iter_complete_iff (os : Os) (evs : List SysEv) (k : Nat)
    (hk : ((sysMachine os).run .init evs).world.pids.length ≤ k) :
    ((sysMachine os).run .init evs).CompletePass os k ↔
      ∀ pid ∈ ((sysMachine os).run .init evs).pidsReused, pid ∈ ((sysMachine os).run .init evs).pmap →
        pid ∉ ((sysMachine os).run .init evs).world.pids := by
  have hw := Sys.world_wf os evs
  have hrefs := refs_run os evs
  generalize (sysMachine os).run .init evs = s at hk hw hrefs ⊢
  obtain ⟨built, hrun, hys⟩ := Sys.pass_yields os hw hk
  have hpids : (yields ((sysMachine os).outs s (s.pass k))).map
      (fun o => (((sysMachine os).run s (s.pass k)).procs[o]?).map Process.pid) =
      (s.startGen.todo.map Prod.fst).map some := by
    rw [hrun, List.map_map]
    apply Eq.symm
    rw [← List.forall₂_eq_eq_eq, List.forall₂_map_left_iff, List.forall₂_map_right_iff]
    exact ((List.forall₂_and_left _ _).2 ⟨fun _ h => h, hys⟩).imp fun item o h => (h.2.pid hrefs h.1 rfl).symm
  constructor
  · intro hc pid hr hm hp
    have hvis : s.startGen.todo.map Prod.fst = s.world.pids :=
      List.map_injective_iff.2 (Option.some_injective _) (hpids.symm.trans hc.visits)
    rw [← hvis, Sys.mem_visited] at hp
    exact hp.2 hm hr
  · intro hcond
    have hvis : s.startGen.todo.map Prod.fst = s.world.pids :=
      s.sorted_visited.eq_of_mem_iff s.world.sorted_pids fun pid => by
        rw [Sys.mem_visited]
        exact ⟨fun h => h.1, fun hp => ⟨hp, fun hm hr => hcond pid hr hm hp⟩⟩
    refine ⟨hpids.trans (by rw [hvis]), s.world.sorted_pids, fun pid hr hp => ?_⟩
    -- the PID is not cached, so it is one of the new ones
    have hitem : (pid, none) ∈ s.startGen.todo := Sys.mem_todo.2 (Or.inr ⟨rfl, hp, fun hm => hcond pid hr hm hp⟩)
    obtain ⟨o, ho, hle, p, hget, hnew⟩ := exists_of_forall₂ hys hitem
    obtain ⟨e, he⟩ := World.mem_pids.1 hp
    obtain ⟨p', hnew', hpid, hid⟩ := Process.new_of_holder os hw he
    obtain rfl : p = p' := Except.ok.inj (hnew.symm.trans hnew')
    exact ⟨o, ho, hle, p, by rw [hrun, hget], hpid, hid⟩

/-- PID 5 is cached, goes to process 2, and is flagged by `is_running()`: the next pass leaves it out. -/
theorem process_iter_misses_reused_pid : ¬∀ (evs : List SysEv) (k : Nat),
    ((sysMachine .linux).run .init evs).world.pids.length ≤ k →
    ((sysMachine .linux).run .init evs).CompletePass .linux k := by
  intro h
  have hc := h [.world (.birth 5 1 false), .iterStart, .iterNext 0, .world (.exit 5 (.exited 0)), .world (.reap 5),
    .world (.birth 5 2 false), .isRunning 0] 1 (by decide)
  exact absurd hc.visits (by decide)

/-- Without the `is_running()` call the pass yields it, though as the stale object. -/
theorem process_iter_yields_cached_pid : ((sysMachine .linux).run .init [.world (.birth 5 1 false), .iterStart,
    .iterNext 0, .world (.exit 5 (.exited 0)), .world (.reap 5), .world (.birth 5 2 false)]).CompletePass .linux 1 :=
  (process_iter_complete_iff .linux _ 1 (by decide)).2 (by decide)

end Psutil
