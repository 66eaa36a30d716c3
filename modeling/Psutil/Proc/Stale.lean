import Psutil.Proc.Iter

/-!
# Overlapping `process_iter` generators and stale instances

An object found to be stale by `is_running` is dropped by the next generator that starts: it takes the PID
from `_pids_reused` and removes it from its private map, which replaces `_pmap` when it finishes (`__init__.py:1843`,
`:1868`). `no_resurrection`: later generators do not yield the object again, as long as none of them copies
`_pmap` before that, and no generator that still holds the object finishes after that.
-/

namespace Psutil

open Lib

/-- The rest of `ls` yields nothing: it has only PIDs without an instance that nobody holds any more. -/
def Gen.Spent (w : World) (gen : Gen) : Prop := ∀ item ∈ gen.todo, item.2 = none ∧ w.holder item.1 = none

/-- A map without drained objects. -/
def Clean (s : Sys) (m : Dict Nat Nat) : Prop := ∀ p ∈ m.items, p.2 ∉ s.drained

theorem Clean.get? {s : Sys} {m : Dict Nat Nat} (h : Clean s m) {pid o : Nat} (hm : m.get? pid = some o) :
    o ∉ s.drained := h (pid, o) (Dict.mem_items.2 hm)

/-- A generator does not start while `_pmap` holds, for a PID it would visit, an object that an unfinished
generator drained; and it does not finish while its own map holds a drained object. -/
def KeepsStaleOut (s : Sys) : SysEv → Prop
  | .iterStart => ∀ gen ∈ s.gens, gen.unfinished = true → ∀ p ∈ s.pmap.items, p.2 ∈ gen.drains →
    p.1 ∈ s.world.pids → p.1 ∈ s.pidsReused
  | .iterNext g => ∀ gen ∈ s.gens[g]?, gen.unfinished = true → gen.Spent s.world → Clean s gen.pmap
  | .iterClose g => ∀ gen ∈ s.gens[g]?, gen.unfinished = true → Clean s gen.pmap
  | _ => True

instance (w : World) (gen : Gen) : Decidable (gen.Spent w) :=
  inferInstanceAs (Decidable (∀ item ∈ gen.todo, item.2 = none ∧ w.holder item.1 = none))

instance (s : Sys) (m : Dict Nat Nat) : Decidable (Clean s m) :=
  inferInstanceAs (Decidable (∀ p ∈ m.items, p.2 ∉ s.drained))

instance (s : Sys) : (ev : SysEv) → Decidable (KeepsStaleOut s ev)
  | .iterStart => inferInstanceAs (Decidable (∀ gen ∈ s.gens, gen.unfinished = true → ∀ p ∈ s.pmap.items,
    p.2 ∈ gen.drains → p.1 ∈ s.world.pids → p.1 ∈ s.pidsReused))
  | .iterNext g => inferInstanceAs (Decidable (∀ gen ∈ s.gens[g]?, gen.unfinished = true → gen.Spent s.world →
    Clean s gen.pmap))
  | .iterClose g => inferInstanceAs (Decidable (∀ gen ∈ s.gens[g]?, gen.unfinished = true → Clean s gen.pmap))
  | .world _ | .new _ | .isRunning _ | .act _ _ | .cacheClear => isTrue trivial

/-- The objects that were drained by generators started before the one that takes the step. -/
def staleFor (s : Sys) : SysEv → List Nat
  | .iterStart => s.drained
  | .iterNext g => match s.gens[g]? with
    | some gen => gen.stale
    | none => []
  | _ => []

/-! ## The loop -/

/-- What the loop does up to its next `yield`. -/
structure Advances (w : World) (procs : List Process) (pmap : Dict Nat Nat) (ls : List (Nat × Option Nat))
    (r : Advanced) : Prop where
  todo : r.todo ⊆ ls
  yielded : ∀ o, r.yielded = some o → o = procs.length ∨ ∃ pid, (pid, some o) ∈ ls
  pmap : ∀ pid o, r.pmap.get? pid = some o → o = procs.length ∨ pmap.get? pid = some o
  spent : r.yielded = none → ∀ item ∈ ls, item.2 = none ∧ w.holder item.1 = none

/-- A PID that no process has is passed over. -/
theorem Advances.cons {w : World} {procs : List Process} {pmap : Dict Nat Nat} {pid : Nat} {ls : List (Nat × Option Nat)} {r : Advanced}
    (h : Advances w procs (pmap.erase pid) ls r) (hgone : w.holder pid = none) : Advances w procs pmap ((pid, none) :: ls) r := by
  refine ⟨List.Subset.trans h.todo (List.subset_cons_self _ _), ?_, ?_, ?_⟩
  · intro o ho
    rcases h.yielded o ho with hnew | ⟨pid', hmem⟩
    · exact Or.inl hnew
    · exact Or.inr ⟨pid', List.mem_cons_of_mem _ hmem⟩
  · intro pid' o hm
    rcases h.pmap pid' o hm with hnew | hget
    · exact Or.inl hnew
    · rw [Dict.get?_erase] at hget
      by_cases e : pid' = pid
      · simp [e] at hget
      · rw [if_neg e] at hget
        exact Or.inr hget
  · intro hn item hi
    rcases List.mem_cons.1 hi with rfl | hi
    · exact ⟨rfl, hgone⟩
    · exact h.spent hn item hi

theorem advance_advances (os : Os) {w : World} (hw : w.WF) (procs : List Process) : ∀ (pmap : Dict Nat Nat)
    (ls : List (Nat × Option Nat)), Advances w procs pmap ls (advance os w procs pmap ls)
  | _, [] => ⟨fun _ h => h, by simp [advance], fun _ _ h => Or.inr h, by simp⟩
  | _, (pid, some o) :: ls => by
    refine ⟨List.subset_cons_self _ _, fun o' ho => Or.inr ⟨pid, ?_⟩, fun _ _ h => Or.inr h, by simp [advance]⟩
    obtain rfl : o = o' := Option.some.inj ho
    exact List.mem_cons_self
  | pmap, (pid, none) :: ls => by
    cases hnew : Process.new os w pid with
    | ok p =>
      simp only [advance, hnew]
      refine ⟨List.subset_cons_self _ _, fun o ho => Or.inl (Option.some.inj ho).symm, fun pid' o hm => ?_, by simp⟩
      rw [Dict.get?_set] at hm
      by_cases e : pid' = p.pid
      · rw [if_pos e] at hm
        exact Or.inl (Option.some.inj hm).symm
      · rw [if_neg e] at hm
        exact Or.inr hm
    | error e =>
      have hgone : w.holder pid = none := by
        cases hh : w.holder pid with
        | none => rfl
        | some e' =>
          obtain ⟨p, hp, -⟩ := Process.new_of_holder os hw hh
          rw [hnew] at hp
          cases hp
      simp only [advance, hnew]
      exact (advance_advances os hw procs (pmap.erase pid) ls).cons hgone

/-! ## The invariant -/

/-- An object that was drained is in `_pmap` only as long as a generator that drained it has not finished, and
no generator has it left to yield that was started after it was drained. -/
structure NoStale (s : Sys) : Prop where
  bound : ∀ o ∈ s.drained, o < s.procs.length
  stale : ∀ gen ∈ s.gens, ∀ o ∈ gen.stale, o ∈ s.drained
  todo : ∀ gen ∈ s.gens, ∀ item ∈ gen.todo, ∀ o, item.2 = some o → o ∉ gen.stale
  cached : ∀ o ∈ s.drained, ∀ pid, s.pmap.get? pid = some o → ∃ gen ∈ s.gens, gen.unfinished = true ∧ o ∈ gen.drains

theorem noStale_init : NoStale .init := by
  constructor <;> simp [Sys.init]

theorem mem_set_or_eq {α : Type} {l : List α} {i : Nat} {a b : α} (ha : a ∈ l) (hb : l[i]? = some b) (c : α) :
    a ∈ l.set i c ∨ a = b := by
  obtain ⟨j, hj⟩ := List.mem_iff_getElem?.1 ha
  by_cases e : i = j
  · subst e
    exact Or.inr (Option.some.inj (hj.symm.trans hb))
  · exact Or.inl (List.mem_of_getElem? ((List.getElem?_set_ne e).trans hj))

variable {os : Os}

/-- A generator is put back with the same objects to leave out. -/
theorem NoStale.stale_set {s : Sys} (h : NoStale s) {g : Nat} {gen gen' : Gen} (hmem : gen ∈ s.gens) (hs : gen'.stale = gen.stale) :
    ∀ gen₀ ∈ s.gens.set g gen', ∀ o ∈ gen₀.stale, o ∈ s.drained := by
  intro gen₀ hg₀
  rcases List.mem_or_eq_of_mem_set hg₀ with hg₀ | rfl
  · exact h.stale gen₀ hg₀
  · exact hs ▸ h.stale gen hmem

/-- It is put back with a part of its list. -/
theorem NoStale.todo_set {s : Sys} (h : NoStale s) {g : Nat} {gen gen' : Gen} (hmem : gen ∈ s.gens) (hs : gen'.stale = gen.stale)
    (ht : gen'.todo ⊆ gen.todo) : ∀ gen₀ ∈ s.gens.set g gen', ∀ item ∈ gen₀.todo, ∀ o, item.2 = some o → o ∉ gen₀.stale := by
  intro gen₀ hg₀
  rcases List.mem_or_eq_of_mem_set hg₀ with hg₀ | rfl
  · exact h.todo gen₀ hg₀
  · exact fun item hi => hs ▸ h.todo gen hmem item (ht hi)

/-- A generator that runs up to its next `yield`, or to its end with a map that has no drained object. -/
theorem NoStale.resume {s : Sys} (h : NoStale s) (os : Os) (hw : s.world.WF) {g : Nat} {gen : Gen} (hg : s.gens[g]? = some gen)
    (hu : gen.unfinished = true) (hclean : gen.Spent s.world → Clean s gen.pmap) :
    NoStale (s.resume os g gen).1 := by
  have hmem := List.mem_of_getElem? hg
  have hadv := advance_advances os hw s.procs gen.pmap gen.todo
  obtain ⟨built, hb, -⟩ := advance_procs os s.world s.procs gen.pmap gen.todo
  have hbound : ∀ o ∈ s.drained, o < (advance os s.world s.procs gen.pmap gen.todo).procs.length := by
    intro o ho
    rw [hb, List.length_append]
    exact Nat.lt_add_right _ (h.bound o ho)
  unfold Sys.resume
  dsimp only
  split
  · refine ⟨hbound, h.stale_set hmem rfl, h.todo_set hmem rfl hadv.todo, fun o ho pid hm => ?_⟩
    obtain ⟨gen₀, hg₀, hu₀, hd⟩ := h.cached o ho pid hm
    rcases mem_set_or_eq hg₀ hg { gen with pmap := _, todo := _ } with hg₀ | rfl
    · exact ⟨gen₀, hg₀, hu₀, hd⟩
    · exact ⟨_, List.mem_set (List.getElem?_eq_some_iff.1 hg).1 _, hu₀, hd⟩
  · rename_i hy
    refine ⟨hbound, h.stale_set hmem rfl, h.todo_set hmem rfl hadv.todo, fun o ho pid hm => ?_⟩
    rcases hadv.pmap pid o hm with rfl | hm
    · exact absurd (h.bound _ ho) (lt_irrefl _)
    · exact absurd ho ((hclean (hadv.spent hy)).get? hm)

theorem NoStale.not_yielded {s : Sys} (h : NoStale s) (hw : s.world.WF) {g : Nat} {gen : Gen} (hg : s.gens[g]? = some gen)
    {o : Nat} (ho : (s.resume os g gen).2 = .yielded o) : o ∉ gen.stale := by
  have hmem := List.mem_of_getElem? hg
  have hadv := advance_advances os hw s.procs gen.pmap gen.todo
  have hy : (advance os s.world s.procs gen.pmap gen.todo).yielded = some o := by
    unfold Sys.resume at ho
    dsimp only at ho
    split at ho
    · rename_i o' hy
      cases ho
      exact hy
    · cases ho
  intro hs
  rcases hadv.yielded o hy with rfl | ⟨pid, hi⟩
  · exact absurd (h.bound _ (h.stale gen hmem _ hs)) (lt_irrefl _)
  · exact h.todo gen hmem _ hi o rfl hs

/-- The map of a generator that starts has nothing that was drained before. -/
theorem NoStale.startGen_old {s : Sys} (h : NoStale s) (hc : KeepsStaleOut s .iterStart) {pid o : Nat}
    (hm : s.startGen.pmap.get? pid = some o) : o ∉ s.drained := by
  intro ho
  rw [Sys.get?_startGen] at hm
  split at hm
  · rename_i hp
    obtain ⟨gen, hg, hu, hd⟩ := h.cached o ho pid hm
    exact hp.2 (hc gen hg hu (pid, o) (Dict.mem_items.2 hm) hd hp.1)
  · cases hm

/-- Nor has it what the generator drains itself. -/
theorem startGen_own {s : Sys} (hr : Refs s) {pid o : Nat} (hm : s.startGen.pmap.get? pid = some o) : o ∉ s.startGen.drains := by
  intro ho
  obtain ⟨p, hp, hpid⟩ := hr.startGen pid o hm
  have hdrain : s.toDrain o = true := (List.mem_filter.1 ho).2
  simp only [Sys.toDrain, hp, hpid, Bool.and_eq_true, decide_eq_true_eq] at hdrain
  rw [Sys.get?_startGen, if_neg fun hc => hc.2 hdrain.2] at hm
  cases hm

/-- The generator that starts, before its first item: its map has no drained object, its own ones included. -/
theorem NoStale.start {s : Sys} (h : NoStale s) (hr : Refs s) (hc : KeepsStaleOut s .iterStart) {s' : Sys}
    (hs' : s' = { s with pidsReused := [], gens := s.gens ++ [s.startGen], drained := s.drained ++ s.startGen.drains }) :
    NoStale s' ∧ Clean s' s.startGen.pmap := by
  subst hs'
  refine ⟨⟨?_, ?_, ?_, ?_⟩, ?_⟩
  · intro o ho
    rcases List.mem_append.1 ho with ho | ho
    · exact h.bound o ho
    · exact List.mem_range.1 (List.mem_filter.1 ho).1
  · intro gen hg o ho
    rcases List.mem_append.1 hg with hg | hg
    · exact List.mem_append_left _ (h.stale gen hg o ho)
    · rw [List.mem_singleton.1 hg] at ho
      exact List.mem_append_left _ ho
  · intro gen hg item hi o hio
    rcases List.mem_append.1 hg with hg | hg
    · exact h.todo gen hg item hi o hio
    · rw [List.mem_singleton.1 hg] at hi ⊢
      rcases Sys.mem_todo.1 hi with ⟨o', hio', hm⟩ | ⟨hio', -⟩
      · obtain rfl : o = o' := Option.some.inj (hio.symm.trans hio')
        exact h.startGen_old hc hm
      · rw [hio] at hio'
        cases hio'
  · intro o ho pid hm
    rcases List.mem_append.1 ho with ho | ho
    · obtain ⟨gen, hg, hu, hd⟩ := h.cached o ho pid hm
      exact ⟨gen, List.mem_append_left _ hg, hu, hd⟩
    · exact ⟨s.startGen, List.mem_append_right _ (List.mem_singleton.2 rfl), rfl, ho⟩
  · intro p hp ho
    rcases List.mem_append.1 ho with ho | ho
    · exact h.startGen_old hc (Dict.mem_items.1 hp) ho
    · exact startGen_own hr (Dict.mem_items.1 hp) ho

theorem NoStale.step {s : Sys} {ev : SysEv} (h : NoStale s) (hw : s.world.WF) (hr : Refs s) (hc : KeepsStaleOut s ev) :
    NoStale ((sysMachine os).step s ev).1 := by
  have hother : ev.offCache = true → NoStale ((sysMachine os).step s ev).1 := by
    intro hev
    obtain ⟨hm, hg, hd⟩ := Sys.step_offCache os s hev
    obtain ⟨old, built, hprocs, hold, -⟩ := Sys.step_procs os s ev
    refine ⟨fun o ho => ?_, by rw [hg, hd]; exact h.stale, by rw [hg]; exact h.todo, by rw [hg, hd, hm]; exact h.cached⟩
    rw [hprocs, List.length_append, ← hold.length_eq]
    exact Nat.lt_add_right _ (h.bound o (hd ▸ ho))
  cases ev with
  | world ev => exact hother rfl
  | new pid => exact hother rfl
  | isRunning o => exact hother rfl
  | act o c => exact hother rfl
  | iterStart =>
    obtain ⟨hs, hclean⟩ := h.start hr hc rfl
    exact hs.resume os hw List.getElem?_concat_length rfl fun _ => hclean
  | iterNext g =>
    cases hg : s.gens[g]? with
    | none => simpa only [sysMachine, Sys.iterNext, hg] using h
    | some gen =>
      cases hu : gen.unfinished with
      | false => simpa [sysMachine, Sys.iterNext, hg, hu] using h
      | true =>
        have hres := h.resume os hw hg hu (hc gen hg hu)
        simpa only [sysMachine, Sys.iterNext, hg, hu, if_true] using hres
  | iterClose g =>
    cases hg : s.gens[g]? with
    | none => simpa only [sysMachine, Sys.iterClose, hg] using h
    | some gen =>
      cases hu : gen.unfinished with
      | false => simpa [sysMachine, Sys.iterClose, hg, hu] using h
      | true =>
        simp only [sysMachine, Sys.iterClose, hg, hu, if_true]
        have hmem := List.mem_of_getElem? hg
        exact ⟨h.bound, h.stale_set hmem rfl, h.todo_set hmem rfl fun _ hi => hi,
          fun o ho pid hm => absurd ho ((hc gen hg hu).get? hm)⟩
  | cacheClear => exact ⟨h.bound, h.stale, h.todo, fun o _ pid hm => by simp [sysMachine] at hm⟩

/-- What a step yields had not been drained by an earlier generator. -/
theorem NoStale.out {s : Sys} {ev : SysEv} (h : NoStale s) (hw : s.world.WF) (hr : Refs s) (hc : KeepsStaleOut s ev)
    {o : Nat} (ho : ((sysMachine os).step s ev).2 = .yielded o) : o ∉ staleFor s ev := by
  cases ev with
  | iterStart =>
    obtain ⟨hs, -⟩ := h.start hr hc rfl
    exact hs.not_yielded hw List.getElem?_concat_length ho
  | iterNext g =>
    cases hg : s.gens[g]? with
    | none => simp [staleFor, hg]
    | some gen =>
      cases hu : gen.unfinished with
      | false => simp [sysMachine, Sys.iterNext, hg, hu] at ho
      | true =>
        simp only [sysMachine, Sys.iterNext, hg, hu, if_true] at ho
        simpa only [staleFor, hg] using h.not_yielded hw hg ho
  | world ev => exact List.not_mem_nil
  | new pid => exact List.not_mem_nil
  | isRunning o => exact List.not_mem_nil
  | act o c => exact List.not_mem_nil
  | iterClose g => exact List.not_mem_nil
  | cacheClear => exact List.not_mem_nil

structure CacheInv (s : Sys) : Prop where
  world : s.world.WF
  refs : Refs s
  noStale : NoStale s

/-- **No stale instance comes back**: in every run whose steps keep the stale instances out, no generator
yields an object that a generator started before it had drained. -/
theorem no_resurrection (os : Os) (evs : List SysEv)
    (hc : ∀ l ∈ (sysMachine os).trace .init evs, KeepsStaleOut l.pre l.ev) :
    ∀ l ∈ (sysMachine os).trace .init evs, ∀ o, l.out = .yielded o → o ∉ staleFor l.pre l.ev := by
  intro l hl o ho
  have hstep : ∀ s ev, CacheInv s → KeepsStaleOut s ev → CacheInv ((sysMachine os).step s ev).1 := fun s ev h hc =>
    ⟨Sys.world_wf_step s ev h.world, h.refs.step s ev, h.noStale.step h.world h.refs hc⟩
  have hinit : CacheInv .init := ⟨World.wf_init, refs_run os [], noStale_init⟩
  obtain ⟨hinv, hout⟩ := (sysMachine os).lines_of_inv_of (C := fun l => KeepsStaleOut l.pre l.ev) hstep hinit hc hl
  exact hinv.noStale.out hinv.world hinv.refs (hc l hl) (hout.symm.trans ho)

/-- Generator 1 holds object 0, bound to process 1; the reuse of PID 5 is detected, generator 2 drains it and
finishes; then generator 1 finishes and puts its map in place, and generator 3 yields object 0. -/
theorem stale_instance_resurrected : ¬∀ (evs : List SysEv), ∀ l ∈ (sysMachine .linux).trace .init evs, ∀ o,
    l.out = .yielded o → o ∉ staleFor l.pre l.ev := by
  intro h
  have hlast := h [.world (.birth 5 1 false), .iterStart, .iterNext 0, .world (.exit 5 (.exited 0)), .world (.reap 5),
    .world (.birth 5 2 false), .iterStart, .isRunning 0, .iterStart, .iterNext 1, .iterStart]
    _ (List.mem_of_getElem? (i := 10) rfl) 0 rfl
  exact absurd (by decide) hlast

/-- When generator 1 finishes before the reuse is detected, the next two generators do without object 0. -/
theorem no_resurrection_in_turn : ¬∃ l ∈ (sysMachine .linux).trace .init [.world (.birth 5 1 false), .iterStart, .iterNext 0,
    .world (.exit 5 (.exited 0)), .world (.reap 5), .world (.birth 5 2 false), .iterStart, .iterNext 1, .isRunning 0,
    .iterStart, .iterStart], ∃ o, l.out = .yielded o ∧ o ∈ staleFor l.pre l.ev := by
  rintro ⟨l, hl, o, ho, hs⟩
  exact no_resurrection .linux _ (by decide) l hl o ho hs

end Psutil
