import Psutil.Proc.Iter
import Mathlib.Data.List.Induction

/-!
# What `process_iter` keeps (`__init__.py:1784-1869`)

`cache_bounded`: whatever generators run, `_pmap` and their private maps hold PIDs of one listing each, so that the cache does not
grow beyond the process table. `pass_reuses`: a second pass yields the objects of the first one again, exactly those whose PIDs
are still listed and have not been flagged.
-/

namespace Psutil

open Lib

section
variable {os : Os}

/-! ## Memory -/

/-- The PIDs were all listed at one earlier moment of the run. -/
def ListedOnce (os : Os) (evs : List SysEv) (pids : List Nat) : Prop :=
  ∃ evs₁, evs₁ <+: evs ∧ ∀ pid ∈ pids, pid ∈ ((sysMachine os).run .init evs₁).world.pids

/-- `_pmap`, and what each generator has in its map or may put into it. -/
structure CacheListed (os : Os) (evs : List SysEv) (s : Sys) : Prop where
  pmap : ListedOnce os evs s.pmap.keys
  gens : ∀ gen ∈ s.gens, ListedOnce os evs (gen.pmap.keys ++ gen.todo.map Prod.fst)

theorem ListedOnce.mono {evs evs' : List SysEv} {pids pids' : List Nat} (h : ListedOnce os evs pids) (hevs : evs <+: evs')
    (hpids : ∀ pid ∈ pids', pid ∈ pids) : ListedOnce os evs' pids' := by
  obtain ⟨evs₁, hprefix, hlisted⟩ := h
  exact ⟨evs₁, hprefix.trans hevs, fun pid hpid => hlisted pid (hpids pid hpid)⟩

/-- The loop adds PIDs of its list only, and drops items from it. -/
theorem advance_keys (w : World) (procs : List Process) : ∀ (pmap : Dict Nat Nat) (ls : List (Nat × Option Nat)),
    (∀ pid ∈ (advance os w procs pmap ls).pmap.keys, pid ∈ pmap.keys ++ ls.map Prod.fst) ∧
      ∀ pid ∈ (advance os w procs pmap ls).todo.map Prod.fst, pid ∈ ls.map Prod.fst
  | pmap, [] => ⟨fun pid h => by simpa [advance] using h, fun pid h => by simp [advance] at h⟩
  | pmap, (pid, some o) :: ls => ⟨fun _ h => List.mem_append_left _ h, fun _ h => List.mem_cons_of_mem _ h⟩
  | pmap, (pid, none) :: ls => by
    unfold advance
    cases hnew : Process.new os w pid with
    | ok p =>
      refine ⟨fun q hq => ?_, fun q hq => List.mem_cons_of_mem _ hq⟩
      rcases Dict.mem_set.1 hq with rfl | hq
      · exact List.mem_append_right _ (by simp [(Process.new_eq_ok hnew).1])
      · exact List.mem_append_left _ hq
    | error e =>
      obtain ⟨hkeys, htodo⟩ := advance_keys w procs (pmap.erase pid) ls
      refine ⟨fun q hq => ?_, fun q hq => List.mem_cons_of_mem _ (htodo q hq)⟩
      rcases List.mem_append.1 (hkeys q hq) with hq | hq
      · exact List.mem_append_left _ (Dict.mem_erase.1 hq).2
      · exact List.mem_append_right _ (List.mem_cons_of_mem _ hq)

theorem CacheListed.resume {evs : List SysEv} {s : Sys} (h : CacheListed os evs s) {g : Nat} {gen : Gen}
    (hgen : ListedOnce os evs (gen.pmap.keys ++ gen.todo.map Prod.fst)) : CacheListed os evs (s.resume os g gen).1 := by
  obtain ⟨hkeys, htodo⟩ : (∀ pid ∈ (advance os s.world s.procs gen.pmap gen.todo).pmap.keys, pid ∈ gen.pmap.keys ++ gen.todo.map Prod.fst) ∧
      ∀ pid ∈ (advance os s.world s.procs gen.pmap gen.todo).todo.map Prod.fst, pid ∈ gen.todo.map Prod.fst :=
    advance_keys s.world s.procs gen.pmap gen.todo
  have hafter : ListedOnce os evs ((advance os s.world s.procs gen.pmap gen.todo).pmap.keys ++
      (advance os s.world s.procs gen.pmap gen.todo).todo.map Prod.fst) :=
    hgen.mono (List.prefix_refl _) fun pid hpid => (List.mem_append.1 hpid).elim (hkeys pid) fun h => List.mem_append_right _ (htodo pid h)
  have hset : ∀ gen' : Gen, gen'.pmap = (advance os s.world s.procs gen.pmap gen.todo).pmap →
      gen'.todo = (advance os s.world s.procs gen.pmap gen.todo).todo →
      ∀ gen'' ∈ s.gens.set g gen', ListedOnce os evs (gen''.pmap.keys ++ gen''.todo.map Prod.fst) := by
    intro gen' hpmap htodo' gen'' hmem
    rcases List.mem_or_eq_of_mem_set hmem with hmem | rfl
    · exact h.gens gen'' hmem
    · rwa [hpmap, htodo']
  unfold Sys.resume
  dsimp only
  split
  · exact ⟨h.pmap, hset _ rfl rfl⟩
  · exact ⟨hafter.mono (List.prefix_refl _) fun pid hpid => List.mem_append_left _ hpid, hset _ rfl rfl⟩

/-- A new generator has PIDs of its own listing only. -/
theorem startGen_listed {s : Sys} (pid : Nat) (h : pid ∈ s.startGen.pmap.keys ++ s.startGen.todo.map Prod.fst) : pid ∈ s.world.pids := by
  rcases List.mem_append.1 h with h | h
  · obtain ⟨o, ho⟩ := Dict.mem_iff_get?.1 (Dict.mem_def.2 h)
    rw [Sys.get?_startGen] at ho
    by_contra hnot
    rw [if_neg fun hc => hnot hc.1] at ho
    cases ho
  · exact (Sys.mem_visited.1 h).1

theorem CacheListed.step {evs : List SysEv} {ev : SysEv} (h : CacheListed os evs ((sysMachine os).run .init evs)) :
    CacheListed os (evs ++ [ev]) ((sysMachine os).run .init (evs ++ [ev])) := by
  rw [Machine.run_append, Machine.run_cons]
  have hprefix : evs <+: evs ++ [ev] := List.prefix_append _ _
  have hlift : CacheListed os (evs ++ [ev]) ((sysMachine os).run .init evs) :=
    ⟨h.pmap.mono hprefix fun _ => id, fun gen hgen => (h.gens gen hgen).mono hprefix fun _ => id⟩
  generalize hs : (sysMachine os).run .init evs = s at hlift
  have hother : ev.offCache = true → CacheListed os (evs ++ [ev]) ((sysMachine os).step s ev).1 := by
    intro hev
    obtain ⟨hm, hg, -⟩ := Sys.step_offCache os s hev
    exact ⟨hm ▸ hlift.pmap, hg ▸ hlift.gens⟩
  cases ev with
  | world ev => exact hother rfl
  | new pid => exact hother rfl
  | isRunning o => exact hother rfl
  | act o c => exact hother rfl
  | iterStart =>
    have hnew : ListedOnce os (evs ++ [.iterStart]) (s.startGen.pmap.keys ++ s.startGen.todo.map Prod.fst) :=
      ⟨evs, hprefix, fun pid hpid => hs ▸ startGen_listed pid hpid⟩
    have hstart : CacheListed os (evs ++ [.iterStart])
        { s with pidsReused := [], gens := s.gens ++ [s.startGen], drained := s.drained ++ s.startGen.drains } := by
      refine ⟨hlift.pmap, fun gen hgen => ?_⟩
      rcases List.mem_append.1 hgen with hgen | hgen
      · exact hlift.gens gen hgen
      · exact List.mem_singleton.1 hgen ▸ hnew
    exact hstart.resume hnew
  | iterNext g =>
    simp only [sysMachine, Sys.iterNext]
    split
    · rename_i gen hgen
      split
      · exact hlift.resume (hlift.gens gen (List.mem_of_getElem? hgen))
      · exact hlift
    · exact hlift
  | iterClose g =>
    simp only [sysMachine, Sys.iterClose]
    split
    · rename_i gen hgen
      have hlisted := hlift.gens gen (List.mem_of_getElem? hgen)
      split
      · refine ⟨hlisted.mono (List.prefix_refl _) fun pid hpid => List.mem_append_left _ hpid, fun gen' hg => ?_⟩
        rcases List.mem_or_eq_of_mem_set hg with hg | rfl
        · exact hlift.gens gen' hg
        · exact hlisted
      · exact hlift
    · exact hlift
  | cacheClear => exact ⟨⟨evs, hprefix, fun pid hpid => by cases hpid⟩, hlift.gens⟩

theorem cacheListed_run (evs : List SysEv) : CacheListed os evs ((sysMachine os).run .init evs) := by
  induction evs using List.reverseRecOn with
  | nil => exact ⟨⟨[], List.prefix_refl _, fun pid hpid => by cases hpid⟩, fun gen hgen => by cases hgen⟩
  | append_singleton evs ev ih => exact ih.step

/-- **The cache does not outgrow the process table**: in any state of any interleaving, the PIDs of `_pmap` were all listed at one
earlier moment, and so were those of each generator's map. -/
theorem cache_bounded (os : Os) (evs : List SysEv) :
    ListedOnce os evs ((sysMachine os).run .init evs).pmap.keys ∧
      (∀ gen ∈ ((sysMachine os).run .init evs).gens, ListedOnce os evs gen.pmap.keys) ∧
      ∀ n, (∀ evs₁, evs₁ <+: evs → ((sysMachine os).run .init evs₁).world.pids.length ≤ n) →
        ((sysMachine os).run .init evs).pmap.keys.length ≤ n := by
  have hb : CacheListed os evs ((sysMachine os).run .init evs) := cacheListed_run evs
  refine ⟨hb.pmap, fun gen hgen => (hb.gens gen hgen).mono (List.prefix_refl _) fun pid hpid => List.mem_append_left _ hpid, fun n hn => ?_⟩
  obtain ⟨evs₁, hprefix, hlisted⟩ := hb.pmap
  have hle := (List.subperm_of_subset (Dict.nodup_keys _) fun pid hpid => hlisted pid hpid).length_le
  exact hle.trans (hn evs₁ hprefix)

/-- PID 5 is cached, and no other can be. -/
theorem cache_bounded_five :
    ((sysMachine .linux).run .init [.world (.birth 5 1 false), .iterStart, .iterNext 0]).pmap.keys.length ≤ 1 := by
  refine (cache_bounded .linux _).2.2 1 fun evs₁ hprefix => ?_
  rw [List.prefix_iff_eq_take.1 hprefix]
  rcases evs₁.length with _ | _ | _ | n
  · decide
  · decide
  · decide
  · rw [List.take_of_length_le (by simp)]
    decide

/-! ## Reuse -/

namespace Sys

/-- What a generator has yielded, under the PIDs of its list. -/
abbrev yielded (os : Os) (s : Sys) (todo : List (Nat × Option Nat)) (evs : List SysEv) : List (Nat × Nat) :=
  (todo.map Prod.fst).zip (yields ((sysMachine os).outs s evs))

/-- A generator that has ended does nothing more. -/
theorem run_ended (k : Nat) {s : Sys} {g : Nat} {gen : Gen} (hg : s.gens[g]? = some gen) (hu : gen.unfinished = false) :
    (sysMachine os).run s (List.replicate k (.iterNext g)) = s := by
  induction k with
  | zero => rfl
  | succ k ih =>
    have hstep : (sysMachine os).step s (.iterNext g) = (s, .stop) := by simp [sysMachine, iterNext, hg, hu]
    rw [List.replicate_succ, Machine.run_cons, hstep, ih]

/-- The object that is yielded is in the map under its PID. -/
theorem resume_cons_pmap {s : Sys} (hw : s.world.WF) {g : Nat} {gen : Gen} {item : Nat × Option Nat} {ls : List (Nat × Option Nat)}
    (hls : gen.todo = item :: ls) (hheld : item.2 = none → ∃ e, s.world.holder item.1 = some e)
    (hown : ∀ o, item.2 = some o → gen.pmap.get? item.1 = some o) :
    ∃ o built pmap, s.resume os g gen =
        ({ s with procs := s.procs ++ built, gens := s.gens.set g { gen with pmap := pmap, todo := ls } }, .yielded o) ∧
      ∀ pid, pmap.get? pid = if pid = item.1 then some o else gen.pmap.get? pid := by
  obtain ⟨pid, x⟩ := item
  cases x with
  | some o =>
    refine ⟨o, [], gen.pmap, by simp [resume, hls, advance], fun q => ?_⟩
    split
    · rename_i h
      rw [h, hown o rfl]
    · rfl
  | none =>
    obtain ⟨e, he⟩ := hheld rfl
    obtain ⟨p, hnew, hpid, -⟩ := Process.new_of_holder os hw he
    exact ⟨s.procs.length, [p], gen.pmap.set p.pid s.procs.length, by simp [resume, hls, advance, hnew], fun q => by rw [hpid, Dict.get?_set]⟩

/-- **What a generator run to its end leaves in `_pmap`**: the objects it has yielded, over those it had. -/
theorem run_generator_pmap (k : Nat) : ∀ {s : Sys} {g : Nat} {gen : Gen}, s.world.WF → s.gens[g]? = some gen → gen.unfinished = true →
    (∀ item ∈ gen.todo, item.2 = none → ∃ e, s.world.holder item.1 = some e) →
    (∀ item ∈ gen.todo, ∀ o, item.2 = some o → gen.pmap.get? item.1 = some o) → (gen.todo.map Prod.fst).Nodup → gen.todo.length < k →
    ∀ pid, ((sysMachine os).run s (List.replicate k (.iterNext g))).pmap.get? pid =
      ((s.yielded os gen.todo (List.replicate k (.iterNext g))).lookup pid).or (gen.pmap.get? pid) := by
  induction k with
  | zero => exact fun _ _ _ _ _ _ hk => absurd hk (Nat.not_lt_zero _)
  | succ k ih =>
    intro s g gen hw hg hu hheld hown hnd hk pid
    have hlt : g < s.gens.length := (List.getElem?_eq_some_iff.1 hg).1
    have hstep : (sysMachine os).step s (.iterNext g) = s.resume os g gen := by simp [sysMachine, iterNext, hg, hu]
    cases hls : gen.todo with
    | nil =>
      let gen' : Gen := { gen with todo := [], unfinished := false }
      have hend : s.resume os g gen = ({ s with pmap := gen.pmap, gens := s.gens.set g gen' }, .stop) := by
        simp [resume, hls, advance, gen']
      rw [List.replicate_succ, Machine.run_cons, hstep, hend, run_ended k (List.getElem?_set_self hlt : _ = some gen') rfl]
      rfl
    | cons item ls =>
      rw [hls] at hheld hown hnd hk
      obtain ⟨o, built, pmap, hres, hpmap⟩ := resume_cons_pmap hw (g := g) hls (hheld item List.mem_cons_self) (hown item List.mem_cons_self)
      obtain ⟨hnotin, hnd⟩ := List.nodup_cons.1 hnd
      have hne : ∀ i ∈ ls, i.1 ≠ item.1 := fun i hi heq => hnotin (heq ▸ List.mem_map_of_mem hi)
      have hrest := ih (s := { s with procs := s.procs ++ built, gens := s.gens.set g { gen with pmap := pmap, todo := ls } }) hw
        (List.getElem?_set_self hlt) hu (fun i hi => hheld i (List.mem_cons_of_mem _ hi))
        (fun i hi o' ho' => by rw [hpmap, if_neg (hne i hi)]; exact hown i (List.mem_cons_of_mem _ hi) o' ho') hnd
        (Nat.succ_lt_succ_iff.1 hk) pid
      rw [List.replicate_succ, Machine.run_cons, yielded, Machine.outs_cons, hstep, hres, hrest]
      simp only [yields, List.filterMap_cons, List.map_cons, List.zip_cons_cons, Dict.lookup_cons, hpmap]
      split
      · rename_i heq
        have hnone : (yielded os { s with procs := s.procs ++ built, gens := s.gens.set g { gen with pmap := pmap, todo := ls } } ls
            (List.replicate k (.iterNext g))).lookup pid = none := by
          rw [Dict.lookup_eq_none_iff', heq]
          intro hmem
          obtain ⟨q, hq, hq1⟩ := List.mem_map.1 hmem
          exact hnotin (hq1 ▸ (List.of_mem_zip hq).1)
        rw [hnone]
        rfl
      · rfl

/-- After a pass the map has what the pass has yielded, and nothing else. -/
theorem pass_pmap {s : Sys} (hw : s.world.WF) {k : Nat} (hk : s.world.pids.length ≤ k) (pid o : Nat) :
    ((sysMachine os).run s (s.pass k)).pmap.get? pid = some o ↔ (pid, o) ∈ s.yielded os s.startGen.todo (s.pass k) := by
  let s' : Sys := { s with pidsReused := [], gens := s.gens ++ [s.startGen], drained := s.drained ++ s.startGen.drains }
  have hg : s'.gens[s.gens.length]? = some s.startGen := List.getElem?_concat_length
  have hstep : (sysMachine os).step s .iterStart = (sysMachine os).step s' (.iterNext s.gens.length) := by
    simp only [sysMachine, iterStart, iterNext, hg]
    rfl
  have hown : ∀ item ∈ s.startGen.todo, ∀ o, item.2 = some o → s.startGen.pmap.get? item.1 = some o := by
    intro item hitem o ho
    rcases mem_todo.1 hitem with ⟨o', ho', hget⟩ | ⟨hnone, -⟩
    · rw [hget, ← ho', ho]
    · rw [hnone] at ho
      cases ho
  have hnd : (s.startGen.todo.map Prod.fst).Nodup := s.sorted_visited.imp ne_of_lt
  have hheld : ∀ item ∈ s.startGen.todo, ∃ e, s.world.holder item.1 = some e := startGen_todo_held
  have hwf : s'.world.WF := hw
  have hget := @run_generator_pmap os (k + 1) s' _ _ hwf hg rfl (fun item hi _ => hheld item hi) hown hnd (Nat.lt_succ_of_le ((length_startGen_todo s).trans hk)) pid
  rw [List.replicate_succ, Machine.run_cons, yielded, Machine.outs_cons, ← hstep] at hget
  obtain ⟨_, -, hys⟩ := pass_yields os hw hk
  have hkeys : (s.yielded os s.startGen.todo (s.pass k)).map Prod.fst = s.startGen.todo.map Prod.fst :=
    List.map_fst_zip (by rw [List.length_map, hys.length_eq])
  have hzip : ((s.yielded os s.startGen.todo (s.pass k)).map Prod.fst).Nodup := hkeys ▸ hnd
  have hlookup : ((sysMachine os).run s (s.pass k)).pmap.get? pid =
      ((s.yielded os s.startGen.todo (s.pass k)).lookup pid).or (s.startGen.pmap.get? pid) := hget
  rw [hlookup, Dict.lookup_of_mem hzip]
  constructor
  · intro h
    cases hl : (s.yielded os s.startGen.todo (s.pass k)).lookup pid with
    | some o' => rwa [hl] at h
    | none =>
      -- what a new generator has is in its list
      rw [Dict.lookup_eq_none_iff', hkeys, mem_visited] at hl
      rw [(Dict.lookup_eq_none_iff'.2 (by rwa [hkeys, mem_visited])), Option.none_or, get?_startGen] at h
      split at h
      · rename_i hc
        exact absurd ⟨hc.1, fun _ => hc.2⟩ hl
      · cases h
  · intro h
    rw [h]
    rfl

end Sys

section
variable {w : World} {old : Nat} {procs : List Process} {item : Nat × Option Nat} {o : Nat}

theorem YieldedFor.cached {o' : Nat} (h : YieldedFor os w old procs item o) (hitem : item.2 = some o') : o = o' := by
  rwa [YieldedFor, hitem] at h

theorem YieldedFor.built (h : YieldedFor os w old procs item o) (hitem : item.2 = none) :
    old ≤ o ∧ ∃ p, procs[o]? = some p ∧ Process.new os w item.1 = .ok p := by
  rwa [YieldedFor, hitem] at h

end

theorem run_offCache {between : List SysEv} (hoff : ∀ ev ∈ between, ev.offCache = true) (s : Sys) :
    ((sysMachine os).run s between).pmap = s.pmap := by
  induction between generalizing s with
  | nil => rfl
  | cons ev between ih =>
    rw [Machine.run_cons, ih (fun ev' h => hoff ev' (List.mem_cons_of_mem _ h)), (Sys.step_offCache os s (hoff ev List.mem_cons_self)).1]

/-- **A process object is created once**: an object that a pass has yielded is yielded again by the next one exactly when its PID is
listed then and has not been flagged, and that pass builds objects only for PIDs that the first one did not have. -/
theorem pass_reuses (os : Os) (evs between : List SysEv) (hoff : ∀ ev ∈ between, ev.offCache = true) (k k' : Nat) {s₀ s : Sys}
    (hs₀ : (sysMachine os).run .init evs = s₀) (hk : s₀.world.pids.length ≤ k)
    (hs : (sysMachine os).run s₀ (s₀.pass k ++ between) = s) (hk' : s.world.pids.length ≤ k') :
    ∀ o ∈ yields ((sysMachine os).outs s₀ (s₀.pass k)), ∃ p, s.procs[o]? = some p ∧
      (o ∈ yields ((sysMachine os).outs s (s.pass k')) ↔ p.pid ∈ s.world.pids ∧ p.pid ∉ s.pidsReused) ∧
      ∀ o' ∈ yields ((sysMachine os).outs s (s.pass k')), s.procs.length ≤ o' →
        ∀ p', ((sysMachine os).run s (s.pass k')).procs[o']? = some p' → p'.pid ≠ p.pid := by
  have hw₀ : s₀.world.WF := hs₀ ▸ Sys.world_wf os evs
  have hrun : (sysMachine os).run .init (evs ++ (s₀.pass k ++ between)) = s := by rw [Machine.run_append, hs₀, hs]
  have hw : s.world.WF := hrun ▸ Sys.world_wf os _
  have hrefs : Refs s := hrun ▸ refs_run os _
  obtain ⟨_, -, hys₀⟩ := Sys.pass_yields os hw₀ hk
  obtain ⟨built, hprocs, hys⟩ := Sys.pass_yields os hw hk'
  intro o ho
  -- the object is cached under its PID
  have hsnd : (s₀.yielded os s₀.startGen.todo (s₀.pass k)).map Prod.snd = yields ((sysMachine os).outs s₀ (s₀.pass k)) :=
    List.map_snd_zip (by rw [List.length_map, hys₀.length_eq])
  have hcached : ∃ pid, s.pmap.get? pid = some o := by
    obtain ⟨⟨pid, o'⟩, hmem, rfl⟩ := List.mem_map.1 (hsnd ▸ ho)
    refine ⟨pid, ?_⟩
    rw [← hs, Machine.run_append, run_offCache hoff]
    exact (Sys.pass_pmap hw₀ hk pid o').2 hmem
  obtain ⟨pid, hpmap⟩ := hcached
  obtain ⟨p, hp, rfl⟩ := hrefs.pmap pid o hpmap
  have hlt : o < s.procs.length := (List.getElem?_eq_some_iff.1 hp).1
  refine ⟨p, hp, ⟨fun ho' => ?_, fun hc => ?_⟩, fun o' ho' hnew p' hp' heq => ?_⟩
  · obtain ⟨item, hitem, hfor⟩ := exists_of_forall₂ hys.flip ho'
    rcases Sys.mem_todo.1 hitem with ⟨o', hitem2, hget⟩ | ⟨hitem2, -, -⟩
    · have hfor' : o = o' := YieldedFor.cached hfor hitem2
      rw [Sys.get?_startGen] at hget
      split at hget
      · rename_i hc
        obtain ⟨q, hq, hqpid⟩ := hrefs.pmap item.1 o' hget
        rw [← hfor', hp, Option.some.injEq] at hq
        rwa [hq, hqpid]
      · cases hget
    · -- an object that is built has no place yet
      exact absurd hlt (Nat.not_lt.2 (YieldedFor.built hfor hitem2).1)
  · have hitem : (p.pid, some o) ∈ s.startGen.todo := Sys.mem_todo.2 (Or.inl ⟨o, rfl, by rw [Sys.get?_startGen, if_pos hc, hpmap]⟩)
    obtain ⟨o', ho', hfor⟩ := exists_of_forall₂ hys hitem
    exact YieldedFor.cached hfor rfl ▸ ho'
  · obtain ⟨item, hitem, hfor⟩ := exists_of_forall₂ hys.flip ho'
    rcases Sys.mem_todo.1 hitem with ⟨o'', hitem2, hget⟩ | ⟨hitem2, -, hnot⟩
    · obtain ⟨q, hq, -⟩ := hrefs.startGen item.1 o'' hget
      have hfor' : o' = o'' := YieldedFor.cached hfor hitem2
      exact absurd (List.getElem?_eq_some_iff.1 hq).1 (Nat.not_lt.2 (hfor' ▸ hnew))
    · obtain ⟨-, q, hq, hqnew⟩ := YieldedFor.built hfor hitem2
      rw [hprocs, hq, Option.some.injEq] at hp'
      rw [← (Process.new_eq_ok hqnew).1, hp', heq] at hnot
      exact hnot (Dict.mem_of_get? hpmap)

end

/-- PID 5 stays, PID 6 comes: the second pass yields the object for PID 5 again. -/
theorem pass_reuses_five :
    let s₀ := (sysMachine .linux).run .init [.world (.birth 5 1 false)]
    let s := (sysMachine .linux).run s₀ (s₀.pass 1 ++ [.world (.birth 6 2 false)])
    yields ((sysMachine .linux).outs s₀ (s₀.pass 1)) = [0] ∧ 0 ∈ yields ((sysMachine .linux).outs s (s.pass 2)) := by
  intro s₀ s
  have hyields : yields ((sysMachine .linux).outs s₀ (s₀.pass 1)) = [0] := by decide
  obtain ⟨p, hp, hagain, -⟩ := pass_reuses .linux [.world (.birth 5 1 false)] [.world (.birth 6 2 false)] (by decide) 1 2 rfl (by decide) rfl
    (by decide) 0 (by decide)
  obtain rfl : _ = p := Option.some.inj ((rfl : s.procs[0]? = some ⟨5, none, none, (5, some 1), false, false, none⟩).symm.trans hp)
  exact ⟨hyields, hagain.2 (by decide)⟩

end Psutil
