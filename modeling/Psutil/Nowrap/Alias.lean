import Psutil.Nowrap.Threads

/-!
# Returned dictionaries as shared cells

The dictionaries of the per-device calls are cells of a store here, and `_wn.cache[name]` and the result of a
call are references to them. `run` hands out two kinds of objects: the first call for a name returns the
input dictionary it has just put in the cache (`_common.py:490-493`), every later one a dictionary of its own
(`:495`). `results_isolated` says that a caller may edit any returned dictionary that is not in the cache.

| here | there |
| --- | --- |
| `Heap.view` | `_wn` as it reads its cells at this moment |
| `Heap.run` | `_WrapNumbers.run`, by references; the values are those of `WrapNumbers.run` |
| `Heap.ioCounters` | the common body of the public functions; the last loop writes equal tuples back |
-/

namespace Psutil

open Lib

/-- `returned` lists the dictionaries callers hold. -/
structure Heap where
  store : List (Dict String (List Int))
  cache : Dict String Nat
  reminders : Dict String (Dict (String × Nat) Int)
  reminderKeys : Dict String (Dict String (List (String × Nat)))
  returned : List Nat

namespace Heap

def init : Heap := ⟨[], ∅, ∅, ∅, []⟩

/-- The content of a cell. -/
def load (s : Heap) (r : Nat) : Dict String (List Int) := s.store.getD r ∅

/-- A new dictionary. -/
def alloc (s : Heap) (d : Dict String (List Int)) : Nat × Heap := (s.store.length, { s with store := s.store ++ [d] })

def view (s : Heap) : WrapNumbers String := ⟨s.cache.mapVal fun _ r => s.load r, s.reminders, s.reminderKeys⟩

/-- `self.cache[name] = input_dict`, with the reminders that `run` leaves. -/
def cached (s : Heap) (name : String) (input : Nat) (wn : WrapNumbers String) : Heap :=
  { s with cache := s.cache.set name input, reminders := wn.reminders, reminderKeys := wn.reminderKeys }

/-- `_WrapNumbers.run(input_dict, name)` with the cell `input` as `input_dict`. -/
def run (s : Heap) (input : Nat) (name : String) : Except Exc (Nat × Heap) := do
  let (newDict, wn) ← s.view.run (s.load input) name
  if name ∉ s.cache then
    -- `return input_dict`: the object that is in the cache now
    return (input, s.cached name input wn)
  else
    return (s.cached name input wn).alloc newDict

/-- A per-device call of the function `name`: the platform call makes a new dictionary, so does `return {}`. -/
def ioCounters (s : Heap) (name : String) (rawdict : Dict String (List Int)) : Except Exc (Nat × Heap) :=
  let (input, s) := s.alloc rawdict
  if rawdict.isEmpty then return s.alloc ∅ else s.run input name

end Heap

inductive HeapEv where
  | call (r : IoRead)
  /-- The caller changes a dictionary it was given into `d`, by any deletions, additions and replacements. -/
  | edit (ref : Nat) (d : Dict String (List Int))

/-- A call answers with the values of the returned dictionary; only returned dictionaries can be edited. -/
def heapMachine : Machine Heap HeapEv (Option (Except Exc (Dict String (List Int)))) where
  step s
    | .call r => match s.ioCounters r.fn.name r.rawdict with
      | .ok (ref, s') => ({ s' with returned := ref :: s'.returned }, some (.ok (s'.load ref)))
      | .error e => (s, some (.error e))
    | .edit ref d => if ref ∈ s.returned then ({ s with store := s.store.set ref d }, none) else (s, none)

def HeapEv.isCall : HeapEv → Bool
  | .call _ => true
  | .edit _ _ => false

/-- The values the calls of a run returned, in order. -/
def results (tr : List (Line Heap HeapEv (Option (Except Exc (Dict String (List Int)))))) :
    List (Except Exc (Dict String (List Int))) := tr.filterMap Line.out

/-! ## Reading through the references -/

namespace Heap

/-- Every cached reference is a cell of the store. -/
def Valid (s : Heap) : Prop := ∀ name r, s.cache.get? name = some r → r < s.store.length

theorem load_alloc_self (s : Heap) (d : Dict String (List Int)) : (s.alloc d).2.load (s.alloc d).1 = d := by
  simp [load, alloc]

theorem load_alloc_of_lt {s : Heap} {r : Nat} (h : r < s.store.length) (d : Dict String (List Int)) :
    (s.alloc d).2.load r = s.load r := by
  simp [load, alloc, List.getElem?_append_left h]

/-- A new cell is not in the cache, so `_wn` does not see it. -/
theorem view_alloc {s : Heap} (h : s.Valid) (d : Dict String (List Int)) : (s.alloc d).2.view = s.view := by
  have hload : ∀ p ∈ s.cache.items, (s.alloc d).2.load p.2 = s.load p.2 := fun p hp =>
    load_alloc_of_lt (h p.1 p.2 (Dict.mem_items.1 hp)) d
  exact congrArg (fun c => WrapNumbers.mk c s.reminders s.reminderKeys) (Dict.mapVal_congr hload)

theorem valid_alloc {s : Heap} (h : s.Valid) (d : Dict String (List Int)) : (s.alloc d).2.Valid := by
  intro name r hr
  have hlt := h name r hr
  simp only [alloc, List.length_append, List.length_singleton]
  omega

/-- An edit of a cell that is not in the cache leaves what `_wn` reads. -/
theorem view_edit {s : Heap} {ref : Nat} (h : ∀ name, s.cache.get? name ≠ some ref) (d : Dict String (List Int)) :
    { s with store := s.store.set ref d }.view = s.view := by
  have hload : ∀ p ∈ s.cache.items, { s with store := s.store.set ref d }.load p.2 = s.load p.2 := by
    intro p hp
    have hne : ref ≠ p.2 := fun e => h p.1 (e ▸ Dict.mem_items.1 hp)
    simp [load, hne]
  exact congrArg (fun c => WrapNumbers.mk c s.reminders s.reminderKeys) (Dict.mapVal_congr hload)

end Heap

section

variable {κ : Type} [DecidableEq κ] {wn wn' : WrapNumbers κ} {input out : Dict κ (List Int)} {name : String}

theorem removeDeadReminders_cache (h : wn.removeDeadReminders input name = .ok wn') : wn'.cache = wn.cache := by
  simp only [WrapNumbers.removeDeadReminders, bind_eq_ok] at h
  obtain ⟨old, -, st, -, st', -, hret⟩ := h
  cases hret
  rfl

/-- `run` ends with its input in the cache, and returns it when it is the first for the name. -/
theorem run_cache (h : wn.run input name = .ok (out, wn')) :
    wn'.cache = wn.cache.set name input ∧ (name ∉ wn.cache → out = input) := by
  unfold WrapNumbers.run at h
  split at h
  · rename_i hn
    obtain ⟨wn₁, hadd, hret⟩ := bind_eq_ok.1 h
    cases hret
    unfold WrapNumbers.addDict at hadd
    split at hadd
    · cases hadd
    · cases hadd
      exact ⟨rfl, fun _ => rfl⟩
  · rename_i hn
    simp only [bind_eq_ok] at h
    obtain ⟨wn₁, hdead, old, -, st, -, ⟨new, st'⟩, -, hret⟩ := h
    cases hret
    exact ⟨by rw [← removeDeadReminders_cache hdead]; rfl, fun h => absurd h hn⟩

end

namespace Heap

theorem mem_view {s : Heap} {name : String} : name ∈ s.view.cache ↔ name ∈ s.cache := Dict.mem_mapVal

/-- `run` through references: its result reads as the result of `WrapNumbers.run` on what the references
show, and so does the state it leaves. -/
theorem run_ok {s : Heap} (h : s.Valid) {input : Nat} (hin : input < s.store.length) {name : String}
    {out : Dict String (List Int)} {wn : WrapNumbers String} (hrun : s.view.run (s.load input) name = .ok (out, wn)) :
    ∃ ref s', s.run input name = .ok (ref, s') ∧ s'.Valid ∧ s'.view = wn ∧ s'.load ref = out := by
  obtain ⟨hcache, hfirst⟩ := run_cache hrun
  have hvalid : (s.cached name input wn).Valid := by
    intro name' r hr
    rw [cached, Dict.get?_set] at hr
    by_cases e : name' = name
    · rw [if_pos e, Option.some.injEq] at hr
      exact hr ▸ hin
    · exact h name' r (by rwa [if_neg e] at hr)
  have hview : (s.cached name input wn).view = wn := by
    have hc : (s.cache.set name input).mapVal (fun _ r => s.load r) = wn.cache := by
      rw [Dict.mapVal_set, hcache]
      rfl
    exact congrArg (fun c => WrapNumbers.mk c wn.reminders wn.reminderKeys) hc
  by_cases hn : name ∈ s.cache
  · refine ⟨s.store.length, _, ?_, valid_alloc hvalid out, (view_alloc hvalid out).trans hview,
      load_alloc_self _ out⟩
    simp only [Heap.run, hrun, bind, Except.bind, not_not.2 hn, if_false]
    rfl
  · refine ⟨input, _, ?_, hvalid, hview, (hfirst (mt mem_view.1 hn)).symm⟩
    simp only [Heap.run, hrun, bind, Except.bind, hn, not_false_eq_true, if_true]
    rfl

theorem run_error {s : Heap} {input : Nat} {name : String} {e : Exc}
    (hrun : s.view.run (s.load input) name = .error e) : s.run input name = .error e := by
  simp [Heap.run, hrun, bind, Except.bind]

/-- The state of the store machine and of `_wn` as values. -/
def Shows (s : Heap) (wn : WrapNumbers String) : Prop := s.Valid ∧ s.view = wn

/-- One call: the values returned, and the state left, are those of the public functions on values. -/
theorem Shows.call {s : Heap} {wn : WrapNumbers String} (h : s.Shows wn) (r : IoRead) :
    Shows (heapMachine.step s (.call r)).1 (apiMachine.step wn r.call).1 ∧
      ∃ ans, (heapMachine.step s (.call r)).2 = some ans ∧ (apiMachine.step wn r.call).2 = ans.map Counters.perKey := by
  obtain ⟨hv, rfl⟩ := h
  have hlt : (s.alloc r.rawdict).1 < (s.alloc r.rawdict).2.store.length := by simp [alloc]
  have hv' := valid_alloc hv r.rawdict
  have hview := view_alloc hv r.rawdict
  rw [r.step_call]
  cases he : r.rawdict.isEmpty with
  | true =>
    rw [ioCounters_empty he]
    simp only [heapMachine, Heap.ioCounters, he, if_true, pure, Except.pure]
    refine ⟨⟨valid_alloc hv' ∅, (view_alloc hv' ∅).trans hview⟩, .ok ∅, ?_, rfl⟩
    exact congrArg (some ∘ Except.ok) (load_alloc_self _ ∅)
  | false =>
    rw [ioCounters_nowrap he]
    have hload : (s.alloc r.rawdict).2.load (s.alloc r.rawdict).1 = r.rawdict := load_alloc_self s r.rawdict
    cases hrun : s.view.run r.rawdict r.fn.name with
    | error e =>
      have hrun' := run_error (s := (s.alloc r.rawdict).2) (by rw [hview, hload]; exact hrun)
      simp only [heapMachine, Heap.ioCounters, he, Bool.false_eq_true, if_false, hrun']
      exact ⟨⟨hv, rfl⟩, .error e, rfl, rfl⟩
    | ok p =>
      obtain ⟨out, wn⟩ := p
      obtain ⟨ref, s', hs', hvalid, hshow, hout⟩ := run_ok hv' hlt (by rw [hview, hload]; exact hrun)
      simp only [heapMachine, Heap.ioCounters, he, Bool.false_eq_true, if_false, hs']
      exact ⟨⟨hvalid, hshow⟩, .ok out, congrArg (some ∘ Except.ok) hout, rfl⟩

/-- An edit of a dictionary that is not in the cache. -/
theorem Shows.edit {s : Heap} {wn : WrapNumbers String} (h : s.Shows wn) {ref : Nat}
    (hfree : ∀ name, s.cache.get? name ≠ some ref) (d : Dict String (List Int)) :
    Shows (heapMachine.step s (.edit ref d)).1 wn ∧ (heapMachine.step s (.edit ref d)).2 = none := by
  obtain ⟨hv, rfl⟩ := h
  by_cases hr : ref ∈ s.returned
  · simp only [heapMachine, hr, if_true, and_true]
    exact ⟨fun name r hn => by simpa using hv name r hn, view_edit hfree d⟩
  · simp only [heapMachine, hr, if_false, and_true]
    exact ⟨hv, rfl⟩

end Heap

/-- The calls of a run, without the edits. -/
def callsOf (evs : List HeapEv) : List ApiCall :=
  evs.filterMap fun
    | .call r => some r.call
    | .edit _ _ => none

/-- Every edit of the run is of a dictionary that is not in the cache at that moment. -/
def EditsFree (tr : List (Line Heap HeapEv (Option (Except Exc (Dict String (List Int)))))) : Prop :=
  ∀ l ∈ tr, ∀ ref d, l.ev = .edit ref d → ∀ name, l.pre.cache.get? name ≠ some ref

/-- Such a run returns what the calls return on values. -/
theorem results_eq {evs : List HeapEv} {s : Heap} {wn : WrapNumbers String} (h : s.Shows wn)
    (hfree : EditsFree (heapMachine.trace s evs)) :
    (results (heapMachine.trace s evs)).map (Except.map Counters.perKey) = apiMachine.outs wn (callsOf evs) := by
  induction evs generalizing s wn with
  | nil => rfl
  | cons e evs ih =>
    have hrest : EditsFree (heapMachine.trace (heapMachine.step s e).1 evs) :=
      fun l hl => hfree l (List.mem_cons_of_mem _ hl)
    cases e with
    | call r =>
      obtain ⟨hs, ans, hout, hval⟩ := h.call r
      have ih := ih hs hrest
      simp only [results, Machine.trace, List.filterMap_cons, hout, List.map_cons, callsOf, Machine.outs, hval] at ih ⊢
      rw [ih]
    | edit ref d =>
      obtain ⟨hs, hout⟩ := h.edit (hfree ⟨s, .edit ref d, _⟩ List.mem_cons_self ref d rfl) d
      have ih := ih hs hrest
      simpa only [results, Machine.trace, List.filterMap_cons, hout, callsOf] using ih

theorem shows_init : Heap.Shows .init .init := ⟨fun name r h => by simp [Heap.init] at h, rfl⟩

theorem callsOf_filter (evs : List HeapEv) : callsOf (evs.filter HeapEv.isCall) = callsOf evs := by
  induction evs with
  | nil => rfl
  | cons e evs ih => cases e <;> simpa [callsOf, HeapEv.isCall, List.filter_cons] using ih

theorem map_perKey_injective :
    Function.Injective (Except.map Counters.perKey : Except Exc (Dict String (List Int)) → Except Exc Counters) := by
  rintro (e | d) (e' | d') h <;> cases h <;> rfl

/-- **Returned dictionaries are isolated from the cache**: if every edit is of a dictionary that is not in
the cache at that moment, the calls return the same values as in the run without the edits. -/
theorem results_isolated (evs : List HeapEv) (hfree : EditsFree (heapMachine.trace .init evs)) :
    results (heapMachine.trace .init evs) = results (heapMachine.trace .init (evs.filter HeapEv.isCall)) := by
  have hnone : EditsFree (heapMachine.trace .init (evs.filter HeapEv.isCall)) := by
    intro l hl ref d hev
    obtain ⟨es₁, es₂, hes, -⟩ := heapMachine.mem_trace.1 hl
    have hmem : l.ev ∈ evs.filter HeapEv.isCall := by rw [hes]; simp
    rw [hev] at hmem
    exact absurd (List.mem_filter.1 hmem).2 (by simp [HeapEv.isCall])
  refine List.map_injective_iff.2 map_perKey_injective ?_
  rw [results_eq shows_init hfree, results_eq shows_init hnone, callsOf_filter]

/-- A call of `net_io_counters` on `eth0` alone. -/
def eth0Call (bytesSent : Nat) : HeapEv := .call ⟨.net, eth0Kernel bytesSent⟩

/-- The dictionary of the first call is emptied by the caller; then `eth0` wraps, and the wrap goes unseen. -/
theorem results_not_isolated : ¬∀ evs : List HeapEv,
    results (heapMachine.trace .init evs) = results (heapMachine.trace .init (evs.filter HeapEv.isCall)) := fun h =>
  absurd (h [eth0Call 100, .edit 0 ∅, eth0Call 10]) (by decide +kernel)

/-- The dictionary of the second call may be emptied. -/
theorem results_isolated_second :
    results (heapMachine.trace .init [eth0Call 100, eth0Call 10, .edit 2 ∅, eth0Call 5]) =
      results (heapMachine.trace .init [eth0Call 100, eth0Call 10, eth0Call 5]) := by
  apply results_isolated [eth0Call 100, eth0Call 10, .edit 2 ∅, eth0Call 5]
  intro l hl ref d hev name hc
  simp only [Machine.trace, List.mem_cons, List.not_mem_nil, or_false] at hl
  rcases hl with rfl | rfl | rfl | rfl <;> cases hev
  obtain ⟨p, hp, hp2⟩ : ∃ p ∈ [(netName, 1)], p.2 = 2 := ⟨(name, 2), Dict.mem_items.2 hc, rfl⟩
  simp_all

end Psutil
