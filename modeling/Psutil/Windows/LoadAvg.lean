import Mathlib.Algebra.Order.Field.Rat
import Mathlib.Logic.Function.Basic
import Psutil.Exc
import Psutil.Lib.Average
import Psutil.Lib.Run

/-!
# `getloadavg()` on Windows

`_pswindows.py:255-279` with `arch/windows/wmi.c`. The first call registers a counter, behind a double-checked lock; from then on a
callback of the system takes a sample every five seconds and updates the three averages. Threads that call the function and the
callback take their steps in any order. Only a free-threaded interpreter has the mutex (`Py_GIL_DISABLED`); the GIL does not keep the
callback out. Numbers are exact, and `round` is the `round(load, 2)` of the code. `LoadAvg.OneAtATime` is taken from Windows.
-/

namespace Psutil

open Lib

/-- `load_avg_1m`, `load_avg_5m`, `load_avg_15m`. -/
inductive Window where
  | m1 | m5 | m15
  deriving DecidableEq

/-- `LOADAVG_FACTOR_1F`, `LOADAVG_FACTOR_5F`, `LOADAVG_FACTOR_15F`. -/
def Window.factor : Window → ℚ
  | .m1 => 0.9200444146293232478931553241
  | .m5 => 0.9834714538216174894737477501
  | .m15 => 0.9944598480048967508795473394

/-- The order of the assignments in `LoadAvgCallback` and of the reads in `psutil_get_loadavg`. -/
def windows : List Window := [.m1, .m5, .m15]

/-- What the calls of `psutil_init_loadavg_counter` answer. -/
structure PdhReplies where
  openQuery : Bool
  addCounter : Bool
  createEvent : Except Errno Unit
  collect : Bool
  register : Except Errno Unit

def initLoadavgCounter (r : PdhReplies) : Except Exc Unit :=
  if ¬r.openQuery then .error (.runtimeError "PdhOpenQueryW failed")
  else if ¬r.addCounter then .error (.runtimeError "PdhAddEnglishCounterW failed. Performance counters may be disabled.")
  else match r.createEvent with
    | .error errno => .error (.osError errno)
    | .ok () =>
      if ¬r.collect then .error (.runtimeError "PdhCollectQueryDataEx failed")
      else match r.register with
        | .error errno => .error (.osError errno)
        | .ok () => .ok ()

/-- A callback that has its value. It is `inside` once past `MUTEX_LOCK`, with the assignments to `left` before it. -/
structure Callback where
  currentLoad : ℚ
  inside : Bool
  left : List Window

/-- The next thing a thread does in `getloadavg()`. -/
inductive LoadCall where
  /-- `if _loadavg_initialized` before the lock -/
  | check
  /-- `with _lock` -/
  | acquire
  | recheck
  | init
  /-- `_loadavg_initialized = True` -/
  | set
  /-- the end of the `with` block -/
  | release
  /-- the `MUTEX_LOCK` of `psutil_get_loadavg` -/
  | enter
  /-- The loads of `left` are still to be read. `since` is a ghost: how many samples were recorded on entry. -/
  | read (left : List Window) (got : List ℚ) (since : Nat)

/-- `samples` is a ghost: the values of all callbacks so far. -/
structure LoadAvg where
  initialized : Bool
  lock : Option Nat
  mutex : Bool
  registered : Nat
  loads : Window → ℚ
  callbacks : List Callback
  calls : Nat → Option LoadCall
  samples : List ℚ

def LoadAvg.start : LoadAvg := ⟨false, none, false, 0, fun _ => 0, [], fun _ => none, []⟩

inductive LoadEv where
  | call (t : Nat)
  /-- The next step of thread `t`; the replies are for `psutil_init_loadavg_counter` alone. -/
  | step (t : Nat) (pdh : PdhReplies)
  /-- The system runs the callback, and `PdhGetFormattedCounterValue` gives it a value or fails. -/
  | fire (value : Option ℚ)
  /-- The next step of callback `i`. -/
  | tick (i : Nat)

def LoadAvg.at (s : LoadAvg) (t : Nat) (c : Option LoadCall) : LoadAvg := { s with calls := Function.update s.calls t c }

/-- The samples that have no callback under way. -/
def LoadAvg.recorded (s : LoadAvg) : Nat := s.samples.length - s.callbacks.length

section

variable (gilDisabled : Bool) (round : ℚ → ℚ)

def LoadAvg.stepCall (s : LoadAvg) (t : Nat) (pdh : PdhReplies) : LoadCall → LoadAvg × Option (Nat × Except Exc (List ℚ))
  | .check => (s.at t (some (if s.initialized then .enter else .acquire)), none)
  | .acquire => match s.lock with
    | none => ({ s.at t (some .recheck) with lock := some t }, none)
    | some _ => (s, none)
  | .recheck => (s.at t (some (if s.initialized then .release else .init)), none)
  | .init => match initLoadavgCounter pdh with
    | .ok () => ({ s.at t (some .set) with registered := s.registered + 1 }, none)
    -- the exception leaves the `with` block, which releases the lock
    | .error exc => ({ s.at t none with lock := none }, some (t, .error exc))
  | .set => ({ s.at t (some .release) with initialized := true }, none)
  | .release => ({ s.at t (some .enter) with lock := none }, none)
  | .enter =>
    if gilDisabled && s.mutex then (s, none)
    else ({ s.at t (some (.read windows [] s.recorded)) with mutex := gilDisabled }, none)
  | .read (w :: left) got since => (s.at t (some (.read left (got ++ [s.loads w]) since)), none)
  | .read [] got _ => ({ s.at t none with mutex := false }, some (t, .ok (got.map round)))

def LoadAvg.tick (s : LoadAvg) (i : Nat) (c : Callback) : LoadAvg :=
  if c.inside then match c.left with
    | w :: left => { s with
        loads := Function.update s.loads w (smooth w.factor (s.loads w) c.currentLoad)
        callbacks := s.callbacks.set i { c with left := left } }
    | [] => { s with mutex := false, callbacks := s.callbacks.eraseIdx i }
  else if gilDisabled && s.mutex then s
  else { s with mutex := gilDisabled, callbacks := s.callbacks.set i { c with inside := true } }

/-- The callbacks of one registered wait do not overlap: the next one begins when the last one is over. -/
abbrev LoadAvg.OneAtATime (s : LoadAvg) : Prop := s.callbacks.length < s.registered

def LoadAvg.fire (s : LoadAvg) (currentLoad : ℚ) : LoadAvg :=
  if s.OneAtATime then
    { s with callbacks := s.callbacks ++ [⟨currentLoad, false, windows⟩], samples := s.samples ++ [currentLoad] }
  else s

def loadAvg : Machine LoadAvg LoadEv (Option (Nat × Except Exc (List ℚ))) where
  step s
    | .call t => (if (s.calls t).isSome then s else s.at t (some .check), none)
    | .step t pdh => match s.calls t with
      | none => (s, none)
      | some c => s.stepCall gilDisabled round t pdh c
    | .fire none => (s, none)
    | .fire (some currentLoad) => (s.fire currentLoad, none)
    | .tick i => match s.callbacks[i]? with
      | none => (s, none)
      | some c => (s.tick gilDisabled i c, none)

end

/-! ## The lock -/

/-- The steps inside the `with` block. -/
def LoadCall.locked : LoadCall → Bool
  | .recheck | .init | .set | .release => true
  | _ => false

/-- The steps behind a true `_loadavg_initialized`. -/
def LoadCall.past : LoadCall → Bool
  | .release | .enter | .read .. => true
  | _ => false

structure Gate (s : LoadAvg) : Prop where
  holder : ∀ t, s.lock = some t ↔ ∃ c, s.calls t = some c ∧ c.locked
  past : ∀ t c, s.calls t = some c → c.past → s.initialized
  init : ∀ t, s.calls t = some .init → s.registered = 0
  set : ∀ t, s.calls t = some .set → s.registered = 1
  initialized : s.initialized → s.registered = 1
  registered : s.registered ≠ 0 → s.initialized ∨ ∃ t, s.calls t = some .set
  room : s.callbacks.length ≤ s.registered

theorem LoadAvg.gate_start : Gate .start where
  holder t := by simp [LoadAvg.start]
  past t c h := nomatch h
  init t h := nomatch h
  set t h := nomatch h
  initialized h := nomatch h
  registered h := absurd rfl h
  room := le_rfl

section

variable (s : LoadAvg) (t u : Nat) (c : Option LoadCall)

@[simp] theorem LoadAvg.at_calls : (s.at t c).calls u = if u = t then c else s.calls u := Function.update_apply ..
@[simp] theorem LoadAvg.at_lock : (s.at t c).lock = s.lock := rfl
@[simp] theorem LoadAvg.at_initialized : (s.at t c).initialized = s.initialized := rfl
@[simp] theorem LoadAvg.at_registered : (s.at t c).registered = s.registered := rfl
@[simp] theorem LoadAvg.at_callbacks : (s.at t c).callbacks = s.callbacks := rfl

end

theorem Gate.congr {s s' : LoadAvg} (h : Gate s) (hlock : s'.lock = s.lock) (hcalls : s'.calls = s.calls)
    (hinitialized : s'.initialized = s.initialized) (hregistered : s'.registered = s.registered)
    (hroom : s'.callbacks.length ≤ s.registered) : Gate s' where
  holder := by rw [hlock, hcalls]; exact h.holder
  past := by rw [hcalls, hinitialized]; exact h.past
  init := by rw [hcalls, hregistered]; exact h.init
  set := by rw [hcalls, hregistered]; exact h.set
  initialized := by rw [hinitialized, hregistered]; exact h.initialized
  registered := by rw [hinitialized, hregistered, hcalls]; exact h.registered
  room := by rw [hregistered]; exact hroom

theorem Gate.registered_le {s : LoadAvg} (h : Gate s) : s.registered ≤ 1 := by
  by_contra hlt
  rcases h.registered (by omega) with hi | ⟨t, ht⟩
  · exact hlt (h.initialized hi).le
  · exact hlt (h.set t ht).le

/-- A thread that moves on without a change of the lock, the flag and the counter. -/
theorem Gate.at {s : LoadAvg} (h : Gate s) {t : Nat} {c : LoadCall} (hc : s.calls t = some c) (c' : Option LoadCall)
    (hlocked : (∃ d, c' = some d ∧ d.locked) ↔ c.locked) (hpast : ∀ d, c' = some d → d.past → s.initialized)
    (hinit : c' = some .init → s.registered = 0) (hset : c ≠ .set ∧ c' ≠ some .set) : Gate (s.at t c') := by
  obtain ⟨holder, past, init, set, initialized, registered, room⟩ := h
  constructor <;> simp <;> grind

/-- Each step inside the `with` block: only the thread that holds the lock gets there. -/
theorem Gate.other {s : LoadAvg} (h : Gate s) {t u : Nat} {c d : LoadCall} (hc : s.calls t = some c) (hd : s.calls u = some d)
    (hlocked : c.locked) (hlocked' : d.locked) : u = t :=
  Option.some.inj (((h.holder u).2 ⟨d, hd, hlocked'⟩).symm.trans ((h.holder t).2 ⟨c, hc, hlocked⟩))

theorem Gate.stepCall {gilDisabled : Bool} {round : ℚ → ℚ} {s : LoadAvg} (h : Gate s) {t : Nat} {c : LoadCall} (hc : s.calls t = some c)
    (pdh : PdhReplies) : Gate (s.stepCall gilDisabled round t pdh c).1 := by
  cases c with
  | check =>
    refine h.at hc _ (by cases s.initialized <;> simp [LoadCall.locked]) (fun d hd hpast => ?_) (by split <;> simp) ⟨by simp, by split <;> simp⟩
    by_contra hi
    rw [if_neg hi] at hd
    cases hd
    cases hpast
  | acquire =>
    rw [LoadAvg.stepCall]
    split
    · rename_i hlock
      have hnobody : ∀ u d, s.calls u = some d → d.locked = false := fun u d hd => by
        by_contra hd'
        have := (h.holder u).2 ⟨d, hd, by simpa using hd'⟩
        rw [hlock] at this
        cases this
      obtain ⟨holder, past, init, set, initialized, registered, room⟩ := h
      constructor <;> simp <;> grind [LoadCall.locked, LoadCall.past]
    · exact h
  | recheck =>
    refine h.at hc _ (by cases s.initialized <;> simp [LoadCall.locked]) (fun d hd hpast => ?_) (fun hd => ?_) ⟨by simp, by split <;> simp⟩
    · by_contra hi
      rw [if_neg hi] at hd
      cases hd
      cases hpast
    · -- nobody else is between the registration and the flag
      by_contra hr
      rcases h.registered hr with hi | ⟨u, hu⟩
      · rw [if_pos hi] at hd
        cases hd
      · cases h.other hc hu rfl rfl
        cases hc.symm.trans hu
  | init =>
    have hzero := h.init t hc
    have hother := fun u d hu => h.other (u := u) (d := d) hc hu rfl
    rw [LoadAvg.stepCall]
    obtain ⟨holder, past, init, set, initialized, registered, room⟩ := h
    split
    · constructor <;> simp <;> grind [LoadCall.locked, LoadCall.past]
    · constructor <;> simp <;> grind [LoadCall.locked, LoadCall.past]
  | set =>
    have hone := h.set t hc
    obtain ⟨holder, past, init, set, initialized, registered, room⟩ := h
    constructor <;> simp [LoadAvg.stepCall] <;> grind [LoadCall.locked, LoadCall.past]
  | release =>
    have hi := h.past t _ hc rfl
    have hother := fun u d hu => h.other (u := u) (d := d) hc hu rfl
    obtain ⟨holder, past, init, set, initialized, registered, room⟩ := h
    constructor <;> simp [LoadAvg.stepCall] <;> grind [LoadCall.locked, LoadCall.past]
  | enter =>
    rw [LoadAvg.stepCall]
    split_ifs
    · exact h
    · exact (h.at hc (some (.read windows [] s.recorded)) (by simp [LoadCall.locked]) (fun _ _ _ => h.past t _ hc rfl) (by simp)
        ⟨by simp, by simp⟩).congr rfl rfl rfl rfl h.room
  | read left got since =>
    cases left with
    | nil => exact (h.at hc none (by simp [LoadCall.locked]) (by simp) (by simp) ⟨by simp, by simp⟩).congr rfl rfl rfl rfl h.room
    | cons w left =>
      exact h.at hc _ (by simp [LoadCall.locked]) (fun _ _ _ => h.past t _ hc rfl) (by simp) ⟨by simp, by simp⟩

theorem Gate.step {gilDisabled : Bool} {round : ℚ → ℚ} {s : LoadAvg} (h : Gate s) (e : LoadEv) :
    Gate ((loadAvg gilDisabled round).step s e).1 := by
  cases e with
  | call t =>
    by_cases hc : (s.calls t).isSome
    · simpa only [loadAvg, hc, if_true] using h
    · obtain ⟨holder, past, init, set, initialized, registered, room⟩ := h
      simp only [loadAvg, hc, Bool.false_eq_true, if_false]
      rw [Option.not_isSome_iff_eq_none] at hc
      constructor <;> simp <;> grind [LoadCall.locked, LoadCall.past]
  | step t pdh =>
    rw [loadAvg]
    dsimp only
    split
    · exact h
    · rename_i hc
      exact h.stepCall hc pdh
  | fire value =>
    cases value with
    | none => exact h
    | some currentLoad =>
      change Gate (s.fire currentLoad)
      rw [LoadAvg.fire]
      split_ifs with hroom
      · exact h.congr rfl rfl rfl rfl (by simpa [Nat.succ_le_iff] using hroom)
      · exact h
  | tick i =>
    rw [loadAvg]
    dsimp only
    split
    · exact h
    · rw [LoadAvg.tick]
      split_ifs
      · split
        · exact h.congr rfl rfl rfl rfl (by rw [List.length_set]; exact h.room)
        · exact h.congr rfl rfl rfl rfl ((List.length_eraseIdx_le ..).trans h.room)
      · exact h
      · exact h.congr rfl rfl rfl rfl (by rw [List.length_set]; exact h.room)

theorem LoadAvg.gate (gilDisabled : Bool) (round : ℚ → ℚ) (es : List LoadEv) : Gate ((loadAvg gilDisabled round).run .start es) :=
  (loadAvg gilDisabled round).run_inv (fun _ e h => h.step e) LoadAvg.gate_start es

/-! ## The averages -/

/-- A thread is between the two ends of `psutil_get_loadavg`. -/
def LoadAvg.Reads (s : LoadAvg) (t : Nat) (left : List Window) (got : List ℚ) (since : Nat) : Prop :=
  s.calls t = some (.read left got since)

/-- What a step does to the averages, their mutex and their readers: at most one callback is under way. -/
inductive Access (gilDisabled : Bool) (s s' : LoadAvg) : Prop
  | quiet (hsamples : s'.samples = s.samples) (hcallbacks : s'.callbacks = s.callbacks) (hloads : s'.loads = s.loads)
      (hmutex : s'.mutex = s.mutex) (hreads : ∀ u left got since, s'.Reads u left got since → s.Reads u left got since)
  | enter (t : Nat) (hfree : gilDisabled → s.mutex = false)
      (heq : s' = { s.at t (some (.read windows [] s.recorded)) with mutex := gilDisabled })
  | read (t : Nat) (w : Window) (left : List Window) (got : List ℚ) (since : Nat) (hreads : s.Reads t (w :: left) got since)
      (heq : s' = s.at t (some (.read left (got ++ [s.loads w]) since)))
  | done (t : Nat) (got : List ℚ) (since : Nat) (hreads : s.Reads t [] got since) (heq : s' = { s.at t none with mutex := false })
  | fire (x : ℚ) (hnone : s.callbacks = []) (heq : s' = { s with callbacks := [⟨x, false, windows⟩], samples := s.samples ++ [x] })
  | lock (c : Callback) (hcb : s.callbacks = [c]) (hout : c.inside = false) (hfree : gilDisabled → s.mutex = false)
      (heq : s' = { s with mutex := gilDisabled, callbacks := [{ c with inside := true }] })
  | assign (c : Callback) (w : Window) (left : List Window) (hcb : s.callbacks = [c]) (hin : c.inside) (hleft : c.left = w :: left)
      (heq : s' = { s with
        loads := Function.update s.loads w (smooth w.factor (s.loads w) c.currentLoad)
        callbacks := [{ c with left := left }] })
  | finish (c : Callback) (hcb : s.callbacks = [c]) (hin : c.inside) (hleft : c.left = [])
      (heq : s' = { s with mutex := false, callbacks := [] })

theorem LoadAvg.at_reads {s : LoadAvg} {t u : Nat} {c : Option LoadCall} {left : List Window} {got : List ℚ} {since : Nat} :
    (s.at t c).Reads u left got since ↔ if u = t then c = some (.read left got since) else s.Reads u left got since := by
  rw [Reads, at_calls]
  split_ifs <;> rfl

/-- A thread that goes on outside `psutil_get_loadavg`. -/
theorem Access.at {gilDisabled : Bool} {s : LoadAvg} {t : Nat} {c : Option LoadCall}
    (hc : ∀ left got since, c ≠ some (.read left got since)) {s' : LoadAvg} (hsamples : s'.samples = s.samples)
    (hcallbacks : s'.callbacks = s.callbacks) (hloads : s'.loads = s.loads) (hmutex : s'.mutex = s.mutex)
    (hcalls : s'.calls = (s.at t c).calls) : Access gilDisabled s s' := by
  refine .quiet hsamples hcallbacks hloads hmutex fun u left got since h => ?_
  rw [LoadAvg.Reads, hcalls, ← LoadAvg.Reads, LoadAvg.at_reads] at h
  split_ifs at h
  · exact absurd h (hc left got since)
  · exact h

theorem Gate.callbacks_le {s : LoadAvg} (h : Gate s) : s.callbacks.length ≤ 1 := h.room.trans h.registered_le

theorem Access.step {gilDisabled : Bool} {round : ℚ → ℚ} {s : LoadAvg} (h : Gate s) (e : LoadEv) :
    Access gilDisabled s ((loadAvg gilDisabled round).step s e).1 := by
  have hquiet : Access gilDisabled s s := .quiet rfl rfl rfl rfl fun _ _ _ _ hr => hr
  cases e with
  | call t =>
    by_cases hc : (s.calls t).isSome
    · simpa only [loadAvg, hc, if_true] using hquiet
    · simp only [loadAvg, hc, Bool.false_eq_true, if_false]
      exact .at (c := some .check) (by simp) rfl rfl rfl rfl rfl
  | step t pdh =>
    rw [loadAvg]
    dsimp only
    split
    · exact hquiet
    · rename_i c hc
      cases c with
      | check => exact .at (fun _ _ _ => by split <;> simp) rfl rfl rfl rfl rfl
      | acquire =>
        rw [LoadAvg.stepCall]
        split
        · exact .at (c := some .recheck) (by simp) rfl rfl rfl rfl rfl
        · exact hquiet
      | recheck => exact .at (fun _ _ _ => by split <;> simp) rfl rfl rfl rfl rfl
      | init =>
        rw [LoadAvg.stepCall]
        split
        · exact .at (c := some .set) (by simp) rfl rfl rfl rfl rfl
        · exact .at (c := none) (by simp) rfl rfl rfl rfl rfl
      | set => exact .at (c := some .release) (by simp) rfl rfl rfl rfl rfl
      | release => exact .at (c := some .enter) (by simp) rfl rfl rfl rfl rfl
      | enter =>
        rw [LoadAvg.stepCall]
        split_ifs with hfree
        · exact hquiet
        · exact .enter t (by simpa using hfree) rfl
      | read left got since =>
        cases left with
        | nil => exact .done t got since hc rfl
        | cons w left => exact .read t w left got since hc rfl
  | fire value =>
    cases value with
    | none => exact hquiet
    | some x =>
      change Access gilDisabled s (s.fire x)
      rw [LoadAvg.fire]
      split_ifs with hroom
      · have hnil : s.callbacks = [] := List.length_eq_zero_iff.1 (by have := h.registered_le; omega)
        exact .fire x hnil (by rw [hnil]; rfl)
      · exact hquiet
  | tick i =>
    rw [loadAvg]
    dsimp only
    split
    · exact hquiet
    · rename_i c hget
      obtain ⟨hcb, rfl⟩ : s.callbacks = [c] ∧ i = 0 := by
        have hlen := h.callbacks_le
        obtain ⟨hi, hc⟩ := List.getElem?_eq_some_iff.1 hget
        obtain ⟨d, hd⟩ := List.length_eq_one_iff.1 (show s.callbacks.length = 1 by omega)
        simp only [hd, List.length_singleton, Nat.lt_one_iff] at hi
        subst hi
        simpa [hd] using hc
      rw [LoadAvg.tick]
      split_ifs with hin hfree
      · split
        · rename_i w left hleft
          exact .assign c w left hcb hin hleft (by rw [hcb]; rfl)
        · rename_i hleft
          exact .finish c hcb hin hleft (by rw [hcb]; rfl)
      · exact hquiet
      · exact .lock c hcb (by simpa using hin) (by simpa using hfree) (by rw [hcb]; rfl)

/-- With the mutex: a callback or a reader is alone inside. -/
structure Exclusive (s : LoadAvg) : Prop where
  inside : ∀ c ∈ s.callbacks, c.inside → s.mutex ∧ ∀ u left got since, ¬s.Reads u left got since
  reads : ∀ u left got since, s.Reads u left got since →
    s.mutex ∧ s.recorded = since ∧ ∀ v left' got' since', s.Reads v left' got' since' → v = u

theorem Exclusive.start : Exclusive .start := ⟨fun c hc => absurd hc (by simp [LoadAvg.start]), fun _ _ _ _ h => nomatch h⟩

theorem Exclusive.free {s : LoadAvg} (h : Exclusive s) (hfree : s.mutex = false) :
    (∀ c ∈ s.callbacks, c.inside = false) ∧ ∀ u left got since, ¬s.Reads u left got since := by
  constructor
  · intro c hc
    by_contra hin
    have := (h.inside c hc (by simpa using hin)).1
    rw [hfree] at this
    cases this
  · intro u left got since hr
    have := (h.reads u left got since hr).1
    rw [hfree] at this
    cases this

theorem Exclusive.step {s s' : LoadAvg} (h : Exclusive s) (hacc : Access true s s') : Exclusive s' := by
  cases hacc with
  | quiet hsamples hcallbacks hloads hmutex hreads =>
    refine ⟨fun c hc hin => ?_, fun u left got since hr => ?_⟩
    · rw [hcallbacks] at hc
      rw [hmutex]
      exact ⟨(h.inside c hc hin).1, fun u left got since hr => (h.inside c hc hin).2 u left got since (hreads _ _ _ _ hr)⟩
    · obtain ⟨hm, hrec, hone⟩ := h.reads u left got since (hreads _ _ _ _ hr)
      rw [hmutex, LoadAvg.recorded, hsamples, hcallbacks]
      exact ⟨hm, hrec, fun v _ _ _ hv => hone v _ _ _ (hreads _ _ _ _ hv)⟩
  | enter t hfree heq =>
    obtain ⟨hout, hnone⟩ := h.free (hfree rfl)
    have honly : ∀ u left got since, s'.Reads u left got since → u = t ∧ since = s.recorded := by
      intro u left got since hr
      rw [heq] at hr
      have hr := LoadAvg.at_reads.1 hr
      split_ifs at hr with hu
      · cases hr
        exact ⟨hu, rfl⟩
      · exact absurd hr (hnone u left got since)
    subst heq
    refine ⟨fun c hc hin => absurd hin (by simpa using hout c hc), fun u left got since hr => ?_⟩
    obtain ⟨rfl, rfl⟩ := honly u left got since hr
    exact ⟨rfl, rfl, fun v _ _ _ hv => (honly v _ _ _ hv).1⟩
  | read t w left got since hreads heq =>
    obtain ⟨hm, hrec, hone⟩ := h.reads t _ got since hreads
    have honly : ∀ u left got since', s'.Reads u left got since' → u = t ∧ since' = since := by
      intro u left' got' since' hr
      rw [heq] at hr
      have hr := LoadAvg.at_reads.1 hr
      split_ifs at hr with hu
      · cases hr
        exact ⟨hu, rfl⟩
      · exact absurd (hone u _ _ _ hr) hu
    subst heq
    refine ⟨fun c hc hin => absurd hreads ((h.inside c hc hin).2 t _ got since), fun u left' got' since' hr => ?_⟩
    obtain ⟨rfl, rfl⟩ := honly u left' got' since' hr
    exact ⟨hm, hrec, fun v _ _ _ hv => (honly v _ _ _ hv).1⟩
  | done t got since hreads heq =>
    obtain ⟨-, -, hone⟩ := h.reads t _ got since hreads
    subst heq
    refine ⟨fun c hc hin => absurd hreads ((h.inside c hc hin).2 t _ got since), fun u left' got' since' hr => ?_⟩
    have hr := LoadAvg.at_reads.1 hr
    split_ifs at hr with hu
    exact absurd (hone u _ _ _ hr) hu
  | fire x hnone heq =>
    subst heq
    refine ⟨fun c hc hin => ?_, fun u left got since hr => ?_⟩
    · rw [List.mem_singleton.1 hc] at hin
      cases hin
    · obtain ⟨hm, hrec, hone⟩ := h.reads u left got since hr
      refine ⟨hm, ?_, hone⟩
      simpa [LoadAvg.recorded, hnone] using hrec
  | lock c hcb hout hfree heq =>
    obtain ⟨-, hnone⟩ := h.free (hfree rfl)
    subst heq
    exact ⟨fun d hd hin => ⟨rfl, hnone⟩, fun u left got since hr => absurd hr (hnone u left got since)⟩
  | assign c w left hcb hin hleft heq =>
    obtain ⟨hm, hnone⟩ := h.inside c (by simp [hcb]) hin
    subst heq
    exact ⟨fun d hd hin => ⟨hm, hnone⟩, fun u left got since hr => absurd hr (hnone u left got since)⟩
  | finish c hcb hin hleft heq =>
    obtain ⟨hm, hnone⟩ := h.inside c (by simp [hcb]) hin
    subst heq
    exact ⟨fun d hd => absurd hd (by simp), fun u left got since hr => absurd hr (hnone u left got since)⟩

/-- How many samples the average of a window has taken in. -/
def LoadAvg.count (s : LoadAvg) (w : Window) : Nat := s.samples.length - s.callbacks.countP (w ∈ ·.left)

/-- What a reader has read: for each window the average of the first `n` samples. -/
def Seen (gilDisabled : Bool) (s : LoadAvg) (done : List Window) (got : List ℚ) (since : Nat) : Prop :=
  since ≤ s.recorded ∧ ∃ n : Window → Nat, got = done.map (fun w => average w.factor (s.samples.take (n w))) ∧
    (∀ w ∈ done, since ≤ n w ∧ n w ≤ s.count w) ∧ done.Pairwise (fun w w' => n w ≤ n w' + 1) ∧
    (gilDisabled → ∀ w ∈ done, n w = since)

structure Gauge (gilDisabled : Bool) (s : LoadAvg) : Prop where
  sample : ∀ c ∈ s.callbacks, s.samples.getLast? = some c.currentLoad
  left : ∀ c ∈ s.callbacks, c.left <:+ windows
  outside : ∀ c ∈ s.callbacks, c.inside = false → c.left = windows
  loads : ∀ w, s.loads w = average w.factor (s.samples.take (s.count w))
  seen : ∀ t left got since, s.Reads t left got since → ∃ done, windows = done ++ left ∧ Seen gilDisabled s done got since

theorem Gauge.start (gilDisabled : Bool) : Gauge gilDisabled .start where
  sample c hc := absurd hc (by simp [LoadAvg.start])
  left c hc := absurd hc (by simp [LoadAvg.start])
  outside c hc := absurd hc (by simp [LoadAvg.start])
  loads w := rfl
  seen t left got since h := nomatch h

theorem LoadAvg.recorded_le_count (s : LoadAvg) (w : Window) : s.recorded ≤ s.count w := Nat.sub_le_sub_left List.countP_le_length _

theorem LoadAvg.count_eq_recorded {s : LoadAvg} {w : Window} (h : ∀ c ∈ s.callbacks, w ∈ c.left) : s.count w = s.recorded := by
  rw [count, List.countP_eq_length.2 (by simpa using h), recorded]

theorem LoadAvg.count_le (s : LoadAvg) (w : Window) : s.count w ≤ s.samples.length := Nat.sub_le _ _

theorem LoadAvg.count_near {s : LoadAvg} (h : s.callbacks.length ≤ 1) (w w' : Window) : s.count w ≤ s.count w' + 1 := by
  have := List.countP_le_length (p := fun c : Callback => decide (w' ∈ c.left)) (l := s.callbacks)
  rw [count, count]
  omega

theorem Seen.mono {gilDisabled : Bool} {s s' : LoadAvg} {done : List Window} {got : List ℚ} {since : Nat}
    (h : Seen gilDisabled s done got since) (hsamples : s.samples <+: s'.samples) (hcount : ∀ w, s.count w ≤ s'.count w)
    (hrecorded : s.recorded ≤ s'.recorded) : Seen gilDisabled s' done got since := by
  obtain ⟨hsince, n, rfl, hn, hpair, hmutex⟩ := h
  obtain ⟨more, hmore⟩ := hsamples
  refine ⟨hsince.trans hrecorded, n, ?_, fun w hw => ⟨(hn w hw).1, (hn w hw).2.trans (hcount w)⟩, hpair, hmutex⟩
  refine List.map_congr_left fun w hw => ?_
  rw [← hmore, List.take_append_of_le_length ((hn w hw).2.trans (s.count_le w))]

/-- A step that leaves the readers alone. -/
theorem Seen.of_reads {gilDisabled : Bool} {s s' : LoadAvg} (h : Gauge gilDisabled s) (hcalls : s'.calls = s.calls)
    (hsamples : s.samples <+: s'.samples) (hcount : ∀ w, s.count w ≤ s'.count w) (hrecorded : s.recorded ≤ s'.recorded) :
    ∀ t left got since, s'.Reads t left got since → ∃ done, windows = done ++ left ∧ Seen gilDisabled s' done got since := by
  intro t left got since hr
  rw [LoadAvg.Reads, hcalls] at hr
  obtain ⟨done, hdone, hseen⟩ := h.seen t left got since hr
  exact ⟨done, hdone, hseen.mono hsamples hcount hrecorded⟩

theorem windows_nodup : windows.Nodup := by decide

/-- One more read. -/
theorem Seen.read {gilDisabled : Bool} {s : LoadAvg} (hle : s.callbacks.length ≤ 1) (h : Gauge gilDisabled s)
    (hex : gilDisabled → Exclusive s) {t : Nat} {w : Window} {left : List Window} {got : List ℚ} {since : Nat}
    (hreads : s.Reads t (w :: left) got since) :
    ∃ done, windows = done ++ left ∧ Seen gilDisabled s done (got ++ [s.loads w]) since := by
  obtain ⟨done, hdone, hsince, n, rfl, hn, hpair, hmutex⟩ := h.seen t _ got since hreads
  have hw : w ∉ done := fun hmem => by
    have hnodup := windows_nodup
    rw [hdone] at hnodup
    exact (List.nodup_append.1 hnodup).2.2 w hmem w List.mem_cons_self rfl
  have hne : ∀ v ∈ done, v ≠ w := fun v hv hvw => hw (hvw ▸ hv)
  refine ⟨done ++ [w], by rw [hdone, List.append_assoc]; rfl, hsince, Function.update n w (s.count w), ?_, ?_, ?_, ?_⟩
  · rw [List.map_append, List.map_singleton, Function.update_self, ← h.loads w]
    congr 1
    exact List.map_congr_left fun v hv => by rw [Function.update_of_ne (hne v hv)]
  · intro v hv
    rcases List.mem_append.1 hv with hv | hv
    · rw [Function.update_of_ne (hne v hv)]
      exact hn v hv
    · rw [List.mem_singleton.1 hv, Function.update_self]
      exact ⟨hsince.trans (s.recorded_le_count w), le_rfl⟩
  · refine List.pairwise_append.2 ⟨?_, List.pairwise_singleton .., fun v hv v' hv' => ?_⟩
    · refine hpair.imp_of_mem fun {v v'} hv hv' hle => ?_
      rw [Function.update_of_ne (hne v hv), Function.update_of_ne (hne v' hv')]
      exact hle
    · rw [List.mem_singleton.1 hv', Function.update_self, Function.update_of_ne (hne v hv)]
      exact (hn v hv).2.trans (LoadAvg.count_near hle v w)
  · intro hg v hv
    rcases List.mem_append.1 hv with hv | hv
    · rw [Function.update_of_ne (hne v hv)]
      exact hmutex hg v hv
    · -- nobody is inside with this reader, so no average is ahead of another
      obtain ⟨-, hrec, -⟩ := (hex hg).reads t _ _ since hreads
      have hall : ∀ c ∈ s.callbacks, w ∈ c.left := fun c hc => by
        have hout : c.inside = false := by
          by_contra hin
          exact ((hex hg).inside c hc (by simpa using hin)).2 _ _ _ _ hreads
        rw [h.outside c hc hout]
        cases w <;> decide
      rw [List.mem_singleton.1 hv, Function.update_self, LoadAvg.count_eq_recorded hall, hrec]

theorem Gauge.step {gilDisabled : Bool} {s s' : LoadAvg} (hle : s.callbacks.length ≤ 1) (h : Gauge gilDisabled s)
    (hex : gilDisabled → Exclusive s) (hacc : Access gilDisabled s s') : Gauge gilDisabled s' := by
  cases hacc with
  | quiet hsamples hcallbacks hloads hmutex hreads =>
    have hcount : ∀ w, s'.count w = s.count w := fun w => by rw [LoadAvg.count, LoadAvg.count, hsamples, hcallbacks]
    refine ⟨?_, ?_, ?_, fun w => ?_, fun t left got since hr => ?_⟩
    · rw [hsamples, hcallbacks]
      exact h.sample
    · rw [hcallbacks]
      exact h.left
    · rw [hcallbacks]
      exact h.outside
    · rw [hloads, hsamples, hcount, h.loads]
    · obtain ⟨done, hdone, hseen⟩ := h.seen t left got since (hreads _ _ _ _ hr)
      refine ⟨done, hdone, hseen.mono (hsamples ▸ List.prefix_rfl) (fun w => (hcount w).ge) ?_⟩
      rw [LoadAvg.recorded, LoadAvg.recorded, hsamples, hcallbacks]
  | enter t hfree heq =>
    subst heq
    refine ⟨h.sample, h.left, h.outside, h.loads, fun u left got since hr => ?_⟩
    have hr := LoadAvg.at_reads.1 hr
    split_ifs at hr
    · cases hr
      exact ⟨[], rfl, le_rfl, fun _ => 0, rfl, by simp, .nil, by simp⟩
    · exact h.seen u left got since hr
  | read t w left got since hreads heq =>
    subst heq
    refine ⟨h.sample, h.left, h.outside, h.loads, fun u left' got' since' hr => ?_⟩
    have hr := LoadAvg.at_reads.1 hr
    split_ifs at hr
    · cases hr
      exact Seen.read hle h hex hreads
    · exact h.seen u left' got' since' hr
  | done t got since hreads heq =>
    subst heq
    refine ⟨h.sample, h.left, h.outside, h.loads, fun u left' got' since' hr => ?_⟩
    have hr := LoadAvg.at_reads.1 hr
    split_ifs at hr
    exact h.seen u left' got' since' hr
  | fire x hnone heq =>
    have hcount : ∀ w, s'.count w = s.count w := fun w => by
      have hw : w ∈ windows := by cases w <;> decide
      simp [heq, LoadAvg.count, hnone, hw]
    have hfull : ∀ w, s.count w = s.samples.length := fun w => by simp [LoadAvg.count, hnone]
    have hrecorded : s.recorded = s'.recorded := by simp [heq, LoadAvg.recorded, hnone]
    refine ⟨?_, ?_, ?_, fun w => ?_, Seen.of_reads h (by rw [heq]) (by rw [heq]; exact List.prefix_append ..) (fun w => (hcount w).ge)
      hrecorded.le⟩
    · simp [heq]
    · simp [heq]
    · simp [heq]
    · rw [hcount, heq, hfull, List.take_left, h.loads, hfull, List.take_length]
  | lock c hcb hout hfree heq =>
    have hcount : ∀ w, s'.count w = s.count w := fun w => by simp [heq, LoadAvg.count, hcb]
    refine ⟨?_, ?_, ?_, fun w => ?_, Seen.of_reads h (by rw [heq]) ((congrArg LoadAvg.samples heq).symm ▸ List.prefix_rfl) (fun w => (hcount w).ge)
      (by simp [heq, LoadAvg.recorded, hcb])⟩
    · simpa [heq, hcb] using h.sample c (by simp [hcb])
    · simpa [heq, hcb] using h.left c (by simp [hcb])
    · simp [heq]
    · rw [hcount, heq, h.loads]
  | assign c w left hcb hin hleft heq =>
    have hsuffix := h.left c (by simp [hcb])
    rw [hleft] at hsuffix
    have hw : w ∉ left := (List.nodup_cons.1 (hsuffix.sublist.nodup windows_nodup)).1
    have hsample := h.sample c (by simp [hcb])
    obtain ⟨old, hold⟩ := List.getLast?_eq_some_iff.1 hsample
    have hother : ∀ v, v ≠ w → s'.count v = s.count v := fun v hv => by simp [heq, LoadAvg.count, hcb, hleft, hv]
    have hself : s.count w = old.length ∧ s'.count w = old.length + 1 := by
      simp [heq, LoadAvg.count, hcb, hleft, hw, hold]
    refine ⟨?_, ?_, ?_, fun v => ?_, Seen.of_reads h (by rw [heq]) ((congrArg LoadAvg.samples heq).symm ▸ List.prefix_rfl) (fun v => ?_)
      (by simp [heq, LoadAvg.recorded, hcb])⟩
    · simpa [heq] using hsample
    · simpa [heq] using (List.suffix_cons w left).trans hsuffix
    · simp [heq, hin]
    · by_cases hv : v = w
      · subst hv
        rw [hself.2, heq]
        simp only [Function.update_self]
        rw [h.loads, hself.1, hold, List.take_left, List.take_of_length_le (by simp), average_concat]
      · rw [hother v hv, heq]
        simp only [Function.update_of_ne hv]
        exact h.loads v
    · by_cases hv : v = w
      · rw [hv, hself.1, hself.2]
        exact Nat.le_succ _
      · exact (hother v hv).ge
  | finish c hcb hin hleft heq =>
    have hcount : ∀ w, s'.count w = s.count w := fun w => by simp [heq, LoadAvg.count, hcb, hleft]
    refine ⟨?_, ?_, ?_, fun w => ?_, Seen.of_reads h (by rw [heq]) ((congrArg LoadAvg.samples heq).symm ▸ List.prefix_rfl) (fun w => (hcount w).ge)
      (by simp [heq, LoadAvg.recorded, hcb])⟩
    · simp [heq]
    · simp [heq]
    · simp [heq]
    · rw [hcount, heq, h.loads]

/-- All that holds in every run. -/
structure LoadInv (gilDisabled : Bool) (s : LoadAvg) : Prop where
  gate : Gate s
  gauge : Gauge gilDisabled s
  exclusive : gilDisabled → Exclusive s

theorem LoadInv.step {gilDisabled : Bool} {round : ℚ → ℚ} {s : LoadAvg} (h : LoadInv gilDisabled s) (e : LoadEv) :
    LoadInv gilDisabled ((loadAvg gilDisabled round).step s e).1 := by
  have hacc : Access gilDisabled s ((loadAvg gilDisabled round).step s e).1 := Access.step h.gate e
  refine ⟨h.gate.step e, h.gauge.step h.gate.callbacks_le h.exclusive hacc, fun hg => ?_⟩
  subst hg
  exact (h.exclusive rfl).step hacc

theorem LoadAvg.inv_start (gilDisabled : Bool) : LoadInv gilDisabled .start :=
  ⟨gate_start, Gauge.start gilDisabled, fun _ => Exclusive.start⟩

theorem LoadAvg.inv_of_mem {gilDisabled : Bool} {round : ℚ → ℚ} {es : List LoadEv} {l : Line LoadAvg LoadEv (Option (Nat × Except Exc (List ℚ)))}
    (hl : l ∈ (loadAvg gilDisabled round).trace .start es) :
    LoadInv gilDisabled l.pre ∧ ((loadAvg gilDisabled round).step l.pre l.ev).2 = l.out := by
  have hstep : ∀ s e, LoadInv gilDisabled s → LoadInv gilDisabled ((loadAvg gilDisabled round).step s e).1 := fun _ e h => h.step e
  exact ((loadAvg gilDisabled round).lines_of_inv hstep (inv_start gilDisabled) hl).imp_right Eq.symm

/-- The line on which a call ends. -/
theorem LoadInv.answer {gilDisabled : Bool} {round : ℚ → ℚ} {s : LoadAvg} (h : LoadInv gilDisabled s) {e : LoadEv} {t : Nat}
    {ans : Except Exc (List ℚ)} (hout : ((loadAvg gilDisabled round).step s e).2 = some (t, ans)) :
    (∃ pdh exc, e = .step t pdh ∧ initLoadavgCounter pdh = .error exc ∧ ans = .error exc ∧
        ((loadAvg gilDisabled round).step s e).1.lock = none) ∨
      s.registered = 1 ∧ ∃ got since, s.Reads t [] got since ∧ ans = .ok (got.map round) ∧ Seen gilDisabled s windows got since := by
  cases e with
  | call u => cases hout
  | tick i =>
    rw [loadAvg] at hout
    dsimp only at hout
    split at hout <;> cases hout
  | fire value => cases value <;> cases hout
  | step u pdh =>
    rw [loadAvg] at hout ⊢
    dsimp only at hout ⊢
    cases hc : s.calls u with
    | none =>
      rw [hc] at hout
      cases hout
    | some c =>
      rw [hc] at hout
      dsimp only at hout ⊢
      cases c with
      | init =>
        rw [LoadAvg.stepCall] at hout ⊢
        cases hinit : initLoadavgCounter pdh with
        | ok =>
          rw [hinit] at hout
          cases hout
        | error exc =>
          rw [hinit] at hout
          cases hout
          exact Or.inl ⟨pdh, exc, rfl, hinit, rfl, rfl⟩
      | read left got since =>
        cases left with
        | nil =>
          cases hout
          obtain ⟨done, hdone, hseen⟩ := h.gauge.seen t [] got since hc
          rw [List.append_nil] at hdone
          exact Or.inr ⟨h.gate.initialized (h.gate.past t _ hc rfl), got, since, hc, rfl, hdone ▸ hseen⟩
        | cons w left => cases hout
      | acquire =>
        rw [LoadAvg.stepCall] at hout
        split at hout <;> cases hout
      | enter =>
        rw [LoadAvg.stepCall] at hout
        split_ifs at hout
      | check => cases hout
      | recheck => cases hout
      | set => cases hout
      | release => cases hout

/-- **Every call after the one registration, and every load an average of the samples so far**, whatever the order of the steps. The
counter is registered at most once, and the lock is held only by a thread inside the `with` block. A call raises what
`psutil_init_loadavg_counter` raises, and then the lock is free; or it reads behind the registration, and each load is the average of
the first samples: all that were recorded when the read began, and perhaps later ones. Without the mutex the three loads may be of
different times, an earlier one at most one sample ahead of a later one; with it they are of the same time. -/
theorem getloadavg_run (gilDisabled : Bool) (round : ℚ → ℚ) (es : List LoadEv) :
    (((loadAvg gilDisabled round).run .start es).registered ≤ 1 ∧ ∀ t, ((loadAvg gilDisabled round).run .start es).lock = some t ↔
        ∃ c, ((loadAvg gilDisabled round).run .start es).calls t = some c ∧ c.locked) ∧
      ∀ l ∈ (loadAvg gilDisabled round).trace .start es, ∀ t ans, l.out = some (t, ans) →
        (∃ pdh exc, l.ev = .step t pdh ∧ initLoadavgCounter pdh = .error exc ∧ ans = .error exc ∧
            ((loadAvg gilDisabled round).step l.pre l.ev).1.lock = none) ∨
          l.pre.registered = 1 ∧ ∃ got since, ∃ n : Window → Nat, l.pre.Reads t [] got since ∧
            ans = .ok (windows.map fun w => round (average w.factor (l.pre.samples.take (n w)))) ∧
            (∀ w, since ≤ n w ∧ n w ≤ l.pre.samples.length) ∧
            n .m1 ≤ n .m5 + 1 ∧ n .m5 ≤ n .m15 + 1 ∧ n .m1 ≤ n .m15 + 1 ∧ (gilDisabled → ∀ w, n w = since) := by
  have hgate := LoadAvg.gate gilDisabled round es
  refine ⟨⟨hgate.registered_le, hgate.holder⟩, fun l hl t ans hout => ?_⟩
  obtain ⟨hinv, hstep⟩ := LoadAvg.inv_of_mem hl
  refine (hinv.answer (hstep.trans hout)).imp_right ?_
  rintro ⟨hone, got, since, hreads, rfl, -, n, rfl, hn, hpair, hmutex⟩
  have hall : ∀ w, w ∈ windows := fun w => by cases w <;> decide
  have hnear : (n .m1 ≤ n .m5 + 1 ∧ n .m1 ≤ n .m15 + 1) ∧ n .m5 ≤ n .m15 + 1 := by simpa [windows] using hpair
  exact ⟨hone, _, since, n, hreads, by rw [List.map_map]; rfl,
    fun w => ⟨(hn w (hall w)).1, (hn w (hall w)).2.trans (l.pre.count_le w)⟩, hnear.1.1, hnear.2, hnear.1.2,
    fun hg w => hmutex hg w (hall w)⟩

/-- All calls of the system succeed. -/
def pdhOk : PdhReplies := ⟨true, true, .ok (), true, .ok ()⟩

/-- The callback has updated the first average when thread 0 reads them. -/
def torn : List LoadEv :=
  .call 0 :: List.replicate 6 (.step 0 pdhOk) ++ [.fire (some 8), .tick 0, .tick 0] ++ List.replicate 4 (.step 0 pdhOk)

theorem getloadavg_run_torn : ∃ n : Window → Nat, n .m1 ≤ n .m5 + 1 ∧
    ((loadAvg false id).step ((loadAvg false id).run .start torn) (.step 0 pdhOk)).2 =
      some (0, .ok (windows.map fun w => average w.factor ([8].take (n w)))) := by
  rcases (getloadavg_run false id (torn ++ [.step 0 pdhOk])).2
      ⟨(loadAvg false id).run .start torn, .step 0 pdhOk, ((loadAvg false id).step ((loadAvg false id).run .start torn) (.step 0 pdhOk)).2⟩
      ((loadAvg false id).mem_trace.2 ⟨torn, [], rfl, rfl, rfl⟩) 0 _ rfl with
    ⟨pdh, exc, hev, hinit, -⟩ | ⟨-, got, since, n, -, hans, -, hnear, -⟩
  · cases hev
    cases hinit
  · exact ⟨n, hnear, congrArg (fun ans => some (0, ans)) hans⟩

/-- **The loads stay within the queue lengths**: each lies between zero and the longest queue so far. With the mutex, and while the
queue has only grown, the shorter window is ahead of the longer one. -/
theorem getloadavg_between {round : ℚ → ℚ} (hround : Monotone round) (gilDisabled : Bool) (es : List LoadEv) :
    ∀ l ∈ (loadAvg gilDisabled round).trace .start es, ∀ t loads, l.out = some (t, .ok loads) → (∀ x ∈ l.pre.samples, 0 ≤ x) →
      (∀ m, 0 ≤ m → (∀ x ∈ l.pre.samples, x ≤ m) → ∀ load ∈ loads, round 0 ≤ load ∧ load ≤ round m) ∧
        (gilDisabled → l.pre.samples.Pairwise (· ≤ ·) → loads.Pairwise (· ≥ ·)) := by
  intro l hl t loads hout hnonneg
  obtain ⟨hinv, hstep⟩ := LoadAvg.inv_of_mem hl
  rcases hinv.answer (hstep.trans hout) with ⟨_, _, _, _, hans, _⟩ | ⟨_, got, since, _, hans, _, n, rfl, hn, hpair, hmutex⟩
  · cases hans
  cases hans
  have hfactor : ∀ w : Window, 0 ≤ w.factor ∧ w.factor ≤ 1 := fun w => by cases w <;> constructor <;> norm_num [Window.factor]
  have hmem : ∀ k, ∀ x ∈ l.pre.samples.take k, x ∈ l.pre.samples := fun k x hx => List.mem_of_mem_take hx
  constructor
  · intro m hm hle load hload
    obtain ⟨a, ha, rfl⟩ := List.mem_map.1 hload
    obtain ⟨w, -, rfl⟩ := List.mem_map.1 ha
    exact ⟨hround (average_nonneg (hfactor w).1 (hfactor w).2 fun x hx => hnonneg x (hmem _ x hx)),
      hround (average_le (hfactor w).1 (hfactor w).2 hm fun x hx => hle x (hmem _ x hx))⟩
  · intro hg hrise
    have hahead : windows.Pairwise fun w w' => w.factor ≤ w'.factor := by
      simp only [windows, List.pairwise_cons, List.mem_cons, List.not_mem_nil, or_false, forall_eq_or_imp, forall_eq]
      norm_num [Window.factor]
    rw [List.map_map, List.pairwise_map]
    refine hahead.imp_of_mem fun {w w'} hw hw' hle => hround ?_
    dsimp only
    rw [hmutex hg w hw, hmutex hg w' hw']
    exact average_anti (hfactor w).1 hle (hfactor w').2 (fun x hx => hnonneg x (hmem _ x hx)) (hrise.sublist (List.take_sublist _ _))

/-- The callback is over when thread 0 reads the averages. -/
def calm : List LoadEv :=
  .call 0 :: List.replicate 6 (.step 0 pdhOk) ++ .fire (some 8) :: List.replicate 5 (.tick 0) ++ List.replicate 4 (.step 0 pdhOk)

theorem getloadavg_between_calm : ∃ loads : List ℚ,
    ((loadAvg true id).step ((loadAvg true id).run .start calm) (.step 0 pdhOk)).2 = some (0, .ok loads) ∧ loads.Pairwise (· ≥ ·) :=
  ⟨_, rfl, (getloadavg_between monotone_id true (calm ++ [.step 0 pdhOk])
    ⟨(loadAvg true id).run .start calm, .step 0 pdhOk, _⟩ ((loadAvg true id).mem_trace.2 ⟨calm, [], rfl, rfl, rfl⟩) 0 _ rfl
    (by decide +kernel)).2 rfl (by decide +kernel)⟩

end Psutil
