import Psutil.Cpu.PerCpu
import Psutil.Lib.Apart

/-!
# `cpu_percent()` and `cpu_times_percent()` in several threads

| here | there |
| --- | --- |
| `CpuProgram` | `_last_cpu_times`, `_last_per_cpu_times` and the other two dictionaries (`__init__.py:2028-2041`, `:2177`) |
| `CpuProgram.start`, `CpuProgram.read` | a call up to its first read, and up to the next one (`:2134-2174`, `:2197-2242`) |
| `ident` | `threading.current_thread().ident` (`:2134`, `:2197`) |
| `cpuImport` | the module when it has been imported |

Each dictionary has the last reading of every identifier, and none is ever removed. The identifier of a thread that has ended may be
given to a new one. A call gives up the interpreter between its reads, so that the calls of several threads are interleaved; the
threads share the dictionaries and no lock. `cpu_calls_adjoin`: a thread gets what it would get alone after those that had its
identifier before, and its non-blocking calls account for the time since the last reading under the identifier without a gap.
-/

namespace Psutil

open Lib

inductive CpuFn where
  | cpuPercent | cpuTimesPercent
  deriving DecidableEq, Repr

/-- What `cpu_times(percpu)` returns. -/
abbrev CpuReading : Bool → Type
  | false => Scputimes
  | true => List Scputimes

def cpuTimesOf (clockTicks : Nat) : (percpu : Bool) → Except Errno Bytes → Except Exc (CpuReading percpu)
  | false, stat => cpuTimes clockTicks stat
  | true, stat => perCpuScputimes clockTicks stat

/-- A named tuple is true, a list unless it is empty. -/
def isTruthy : (percpu : Bool) → CpuReading percpu → Bool
  | false, _ => true
  | true, tot => !tot.isEmpty

inductive CpuValue where
  | percent (x : ℚ)
  | percents (l : List ℚ)
  | times (t : Scputimes)
  | perCpuTimes (l : List Scputimes)
  deriving DecidableEq

/-- `calculate(t1, t2)`, or the loop over the pairs. -/
def calculate : CpuFn → (percpu : Bool) → CpuReading percpu → CpuReading percpu → CpuValue
  | .cpuPercent, false, t1, t2 => .percent (percent round1 t1 t2)
  | .cpuPercent, true, tot1, tot2 => .percents ((tot1.zip tot2).map fun (t1, t2) => percent round1 t1 t2)
  | .cpuTimesPercent, false, t1, t2 => .times (timesPercent round1 t1 t2)
  | .cpuTimesPercent, true, tot1, tot2 => .perCpuTimes ((tot1.zip tot2).map fun (t1, t2) => timesPercent round1 t1 t2)

/-- A number given as `interval`, and its text. -/
structure Interval where
  seconds : ℚ
  text : String

structure CpuCall where
  fn : CpuFn
  percpu : Bool
  interval : Option Interval

def CpuCall.blocking (c : CpuCall) : Bool := c.interval.any fun i => 0 < i.seconds

/-- How far the call of a thread has come. -/
inductive CpuPending where
  | idle
  /-- It is about to read `t1`. -/
  | first (c : CpuCall)
  | second (c : CpuCall) (t1 : CpuReading c.percpu)

structure CpuProgram where
  lastCpuTimes : Dict Nat Scputimes
  lastPerCpuTimes : Dict Nat (List Scputimes)
  lastCpuTimes2 : Dict Nat Scputimes
  lastPerCpuTimes2 : Dict Nat (List Scputimes)
  /-- The call of each thread; the dictionaries have its identifier. -/
  pending : Nat → CpuPending

inductive CpuStep where
  | call (c : CpuCall)
  /-- `/proc/stat` is read, and the call goes on. -/
  | read (stat : Except Errno Bytes)

structure CpuEv where
  thread : Nat
  step : CpuStep

inductive CpuOut where
  | none
  | raised (e : Exc)
  /-- The call has compared `t1` with `t2`. -/
  | returned (c : CpuCall) (t1 t2 : CpuReading c.percpu) (value : CpuValue)

namespace CpuProgram

def last (s : CpuProgram) : CpuFn → (percpu : Bool) → Dict Nat (CpuReading percpu)
  | .cpuPercent, false => s.lastCpuTimes
  | .cpuPercent, true => s.lastPerCpuTimes
  | .cpuTimesPercent, false => s.lastCpuTimes2
  | .cpuTimesPercent, true => s.lastPerCpuTimes2

def keep (s : CpuProgram) (tid : Nat) : CpuFn → (percpu : Bool) → CpuReading percpu → CpuProgram
  | .cpuPercent, false, t => { s with lastCpuTimes := s.lastCpuTimes.set tid t }
  | .cpuPercent, true, tot => { s with lastPerCpuTimes := s.lastPerCpuTimes.set tid tot }
  | .cpuTimesPercent, false, t => { s with lastCpuTimes2 := s.lastCpuTimes2.set tid t }
  | .cpuTimesPercent, true, tot => { s with lastPerCpuTimes2 := s.lastPerCpuTimes2.set tid tot }

def setPending (s : CpuProgram) (thread : Nat) (p : CpuPending) : CpuProgram :=
  { s with pending := Function.update s.pending thread p }

/-- The call up to its first read. -/
def start (s : CpuProgram) (thread tid : Nat) (c : CpuCall) : CpuProgram × CpuOut :=
  match c.interval.filter (·.seconds < 0) with
  | some i => (s, .raised (.valueError ("interval is not positive (got " ++ i.text ++ ")")))
  | none =>
    if c.blocking then (s.setPending thread (.first c), .none)
    else match (s.last c.fn c.percpu).get? tid with
      | some t1 => if isTruthy c.percpu t1 then (s.setPending thread (.second c t1), .none) else (s.setPending thread (.first c), .none)
      | none => (s.setPending thread (.first c), .none)

/-- The call from one read to the next one, or to its end. -/
def read (clockTicks : Nat) (s : CpuProgram) (thread tid : Nat) (stat : Except Errno Bytes) : CpuProgram × CpuOut :=
  match s.pending thread with
  | .idle => (s, .none)
  | .first c => match cpuTimesOf clockTicks c.percpu stat with
    | .ok t1 => (s.setPending thread (.second c t1), .none)
    | .error e => (s.setPending thread .idle, .raised e)
  | .second c t1 => match cpuTimesOf clockTicks c.percpu stat with
    | .ok t2 => ((s.keep tid c.fn c.percpu t2).setPending thread .idle, .returned c t1 t2 (calculate c.fn c.percpu t1 t2))
    | .error e => (s.setPending thread .idle, .raised e)

end CpuProgram

/-- `ident` gives the identifier of a thread. -/
def cpuProgram (clockTicks : Nat) (ident : Nat → Nat) : Machine CpuProgram CpuEv CpuOut where
  step s e := match e.step with
    | .call c => match s.pending e.thread with
      | .idle => s.start e.thread (ident e.thread) c
      -- a thread makes one call at a time
      | _ => (s, .none)
    | .read stat => s.read clockTicks e.thread (ident e.thread) stat

/-- The two readings of the import, by the thread with the identifier `main`; those that fail are left out. -/
def cpuImport (clockTicks main : Nat) (stat1 stat2 : Except Errno Bytes) : CpuProgram :=
  let times := match cpuTimes clockTicks stat1 with
    | .ok t => (∅ : Dict Nat Scputimes).set main t
    | .error _ => ∅
  let perCpu := match perCpuScputimes clockTicks stat2 with
    | .ok tot => (∅ : Dict Nat (List Scputimes)).set main tot
    | .error _ => ∅
  ⟨times, perCpu, times, perCpu, fun _ => .idle⟩

/-! ## One thread alone -/

/-- The last readings under the identifier of a thread, and its call. -/
structure CpuThread where
  last : CpuFn → (percpu : Bool) → Option (CpuReading percpu)
  pending : CpuPending

/-- What a thread sees of the program. -/
def CpuProgram.view (thread tid : Nat) (s : CpuProgram) : CpuThread :=
  ⟨fun fn percpu => (s.last fn percpu).get? tid, s.pending thread⟩

namespace CpuThread

def keep (v : CpuThread) (fn : CpuFn) (percpu : Bool) (r : CpuReading percpu) : CpuThread :=
  { v with last := Function.update v.last fn (Function.update (v.last fn) percpu (some r)) }

def setPending (v : CpuThread) (p : CpuPending) : CpuThread := { v with pending := p }

def start (v : CpuThread) (c : CpuCall) : CpuThread × CpuOut :=
  match c.interval.filter (·.seconds < 0) with
  | some i => (v, .raised (.valueError ("interval is not positive (got " ++ i.text ++ ")")))
  | none =>
    if c.blocking then (v.setPending (.first c), .none)
    else match v.last c.fn c.percpu with
      | some t1 => if isTruthy c.percpu t1 then (v.setPending (.second c t1), .none) else (v.setPending (.first c), .none)
      | none => (v.setPending (.first c), .none)

def read (clockTicks : Nat) (v : CpuThread) (stat : Except Errno Bytes) : CpuThread × CpuOut :=
  match v.pending with
  | .idle => (v, .none)
  | .first c => match cpuTimesOf clockTicks c.percpu stat with
    | .ok t1 => (v.setPending (.second c t1), .none)
    | .error e => (v.setPending .idle, .raised e)
  | .second c t1 => match cpuTimesOf clockTicks c.percpu stat with
    | .ok t2 => ((v.keep c.fn c.percpu t2).setPending .idle, .returned c t1 t2 (calculate c.fn c.percpu t1 t2))
    | .error e => (v.setPending .idle, .raised e)

end CpuThread

def cpuThread (clockTicks : Nat) : Machine CpuThread CpuEv CpuOut where
  step v e := match e.step with
    | .call c => match v.pending with
      | .idle => v.start c
      | _ => (v, .none)
    | .read stat => v.read clockTicks stat

section
variable {s : CpuProgram} {thread tid : Nat}

theorem view_keep (fn : CpuFn) (percpu : Bool) (r : CpuReading percpu) :
    (s.keep tid fn percpu r).view thread tid = (s.view thread tid).keep fn percpu r := by
  have hlast : (fun fn' percpu' => ((s.keep tid fn percpu r).last fn' percpu').get? tid) =
      Function.update (s.view thread tid).last fn (Function.update ((s.view thread tid).last fn) percpu (some r)) := by
    funext fn' percpu'
    cases fn <;> cases fn' <;> cases percpu <;> cases percpu' <;>
      simp [CpuProgram.keep, CpuProgram.last, CpuProgram.view, Function.update]
  rw [CpuProgram.view, CpuThread.keep, hlast]
  cases fn <;> cases percpu <;> rfl

theorem view_keep_other {tid' : Nat} (h : tid ≠ tid') (fn : CpuFn) (percpu : Bool) (r : CpuReading percpu) :
    (s.keep tid' fn percpu r).view thread tid = s.view thread tid := by
  cases fn <;> cases percpu <;> simp only [CpuProgram.view, CpuProgram.keep, CpuThread.mk.injEq, and_true] <;> funext fn' percpu' <;>
    cases fn' <;> cases percpu' <;> simp [CpuProgram.last, Dict.get?_set, h]

theorem view_setPending (p : CpuPending) : (s.setPending thread p).view thread tid = (s.view thread tid).setPending p := by
  simp only [CpuProgram.view, CpuProgram.setPending, CpuThread.setPending, Function.update_self]
  rfl

theorem view_setPending_other {thread' : Nat} (h : thread ≠ thread') (p : CpuPending) :
    (s.setPending thread' p).view thread tid = s.view thread tid := by
  simp only [CpuProgram.view, CpuProgram.setPending, Function.update_of_ne h]
  rfl

theorem view_start (c : CpuCall) : (s.start thread tid c).1.view thread tid = ((s.view thread tid).start c).1 ∧
    (s.start thread tid c).2 = ((s.view thread tid).start c).2 := by
  unfold CpuProgram.start CpuThread.start
  have hlast : (s.view thread tid).last c.fn c.percpu = (s.last c.fn c.percpu).get? tid := rfl
  rw [hlast]
  split
  · exact ⟨rfl, rfl⟩
  · split_ifs
    · exact ⟨view_setPending _, rfl⟩
    · split
      · split_ifs <;> exact ⟨view_setPending _, rfl⟩
      · exact ⟨view_setPending _, rfl⟩

theorem view_read (clockTicks : Nat) (stat : Except Errno Bytes) :
    (s.read clockTicks thread tid stat).1.view thread tid = ((s.view thread tid).read clockTicks stat).1 ∧
      (s.read clockTicks thread tid stat).2 = ((s.view thread tid).read clockTicks stat).2 := by
  unfold CpuProgram.read CpuThread.read
  have hpending : (s.view thread tid).pending = s.pending thread := rfl
  rw [hpending]
  split
  · exact ⟨rfl, rfl⟩
  · split <;> exact ⟨view_setPending _, rfl⟩
  · split
    · exact ⟨by rw [view_setPending, view_keep], rfl⟩
    · exact ⟨view_setPending _, rfl⟩

end

/-! ## One step -/

/-- No call has returned. -/
def CpuOut.quiet : CpuOut → Bool
  | .returned .. => false
  | _ => true

/-- What a step of a thread does: nothing, a change of its call, or the end of the call, with what it has read last. -/
inductive CpuProgram.Stepped (tid : Nat) (s : CpuProgram) (thread : Nat) : CpuProgram × CpuOut → Prop where
  | same {out : CpuOut} (hout : out.quiet = true) : Stepped tid s thread (s, out)
  | pends {out : CpuOut} (p : CpuPending) (hout : out.quiet = true) : Stepped tid s thread (s.setPending thread p, out)
  | returns (c : CpuCall) (t1 t2 : CpuReading c.percpu) (value : CpuValue) :
    Stepped tid s thread ((s.keep tid c.fn c.percpu t2).setPending thread .idle, .returned c t1 t2 value)

theorem cpuProgram_stepped (clockTicks : Nat) (ident : Nat → Nat) (s : CpuProgram) (e : CpuEv) :
    s.Stepped (ident e.thread) e.thread ((cpuProgram clockTicks ident).step s e) := by
  obtain ⟨thread, step⟩ := e
  cases step with
  | call c =>
    simp only [cpuProgram]
    split
    · unfold CpuProgram.start
      split
      · exact .same rfl
      · split_ifs
        · exact .pends _ rfl
        · split
          · split_ifs <;> exact .pends _ rfl
          · exact .pends _ rfl
    · exact .same rfl
  | read stat =>
    simp only [cpuProgram, CpuProgram.read]
    split
    · exact .same rfl
    · split <;> exact .pends _ rfl
    · split
      · exact .returns _ _ _ _
      · exact .pends _ rfl

section
variable {s : CpuProgram} {thread tid tid' : Nat} {r : CpuProgram × CpuOut}

/-- A step of another thread, with another identifier. -/
theorem CpuProgram.Stepped.view_other {thread' : Nat} (hr : s.Stepped tid' thread' r) (h : thread ≠ thread') (hid : tid ≠ tid') :
    r.1.view thread tid = s.view thread tid := by
  cases hr with
  | same => rfl
  | pends p => exact view_setPending_other h p
  | returns c t1 t2 => rw [view_setPending_other h, view_keep_other hid]

theorem pending_keep (fn : CpuFn) (percpu : Bool) (t : CpuReading percpu) : (s.keep tid fn percpu t).pending = s.pending := by
  cases fn <;> cases percpu <;> rfl

theorem CpuProgram.Stepped.pending_other {thread' : Nat} (hr : s.Stepped tid thread' r) (h : thread ≠ thread') :
    r.1.pending thread = s.pending thread := by
  have hset : ∀ (s : CpuProgram) (p : CpuPending), (s.setPending thread' p).pending thread = s.pending thread :=
    fun _ _ => Function.update_of_ne h _ _
  cases hr with
  | same => rfl
  | pends p => exact hset s p
  | returns c t1 t2 => rw [hset, pending_keep]

end

/-- While a thread lives no other one has its identifier, so that they do not meet in the dictionaries. -/
theorem cpu_apart (clockTicks : Nat) (ident : Nat → Nat) (thread : Nat) :
    (cpuProgram clockTicks ident).Apart (cpuThread clockTicks) (fun e => e.thread == thread)
      (fun e => ident e.thread = ident thread → e.thread = thread) (·.view thread (ident thread)) where
  mine s e he := by
    obtain ⟨thread', step⟩ := e
    obtain rfl : thread' = thread := by simpa using he
    cases step with
    | call c =>
      simp only [cpuProgram, cpuThread]
      have hpending : (s.view thread' (ident thread')).pending = s.pending thread' := rfl
      rw [hpending]
      split
      · exact view_start c
      · exact ⟨rfl, rfl⟩
    | read stat => exact view_read clockTicks stat
  other s e he hok := by
    obtain ⟨thread', step⟩ := e
    have hne : thread' ≠ thread := by simpa using he
    exact (cpuProgram_stepped clockTicks ident s ⟨thread', step⟩).view_other hne.symm fun hid => hne (hok hid.symm)

/-! ## No gap -/

/-- A call of one of the functions that has returned. -/
structure Compared (percpu : Bool) where
  blocking : Bool
  t1 : CpuReading percpu
  t2 : CpuReading percpu
  value : CpuValue

def comparedOf (fn : CpuFn) (percpu : Bool) : CpuOut → Option (Compared percpu)
  | .returned c t1 t2 value => if h : c.fn = fn ∧ c.percpu = percpu then some ⟨c.blocking, h.2 ▸ t1, h.2 ▸ t2, value⟩ else none
  | _ => none

/-- A call compares what the one before it has read last with a new reading, unless it blocks or that was empty, and keeps the
new one. -/
def Adjoin (fn : CpuFn) (percpu : Bool) : Option (CpuReading percpu) → List (Compared percpu) → Prop
  | _, [] => True
  | kept, c :: rest => (c.blocking = false → ∀ t, kept = some t → isTruthy percpu t = true → c.t1 = t) ∧
      c.value = calculate fn percpu c.t1 c.t2 ∧ Adjoin fn percpu (some c.t2) rest

/-- What a call that has not returned is going to compare. -/
def CpuThread.Ready (v : CpuThread) : Prop :=
  match v.pending with
  | .idle => True
  | .first c => c.blocking = false → ∀ t, v.last c.fn c.percpu = some t → isTruthy c.percpu t = false
  | .second c t1 => c.blocking = false → ∀ t, v.last c.fn c.percpu = some t → isTruthy c.percpu t = true → t1 = t

/-- A step of the thread: a call returns, or nothing is kept. -/
inductive CpuThread.Stepped (v : CpuThread) : CpuThread × CpuOut → Prop where
  | quiet {v' : CpuThread} {out : CpuOut} (hlast : v'.last = v.last) (hready : v'.Ready)
    (hout : ∀ fn percpu, comparedOf fn percpu out = none) : Stepped v (v', out)
  | returned {c : CpuCall} {t1 : CpuReading c.percpu} (hpending : v.pending = .second c t1) (t2 : CpuReading c.percpu) :
    Stepped v ((v.keep c.fn c.percpu t2).setPending .idle, .returned c t1 t2 (calculate c.fn c.percpu t1 t2))

theorem CpuThread.start_stepped {v : CpuThread} (hv : v.Ready) (c : CpuCall) : v.Stepped (v.start c) := by
  unfold CpuThread.start
  split
  · exact .quiet rfl hv fun _ _ => rfl
  · by_cases hb : c.blocking = true
    · rw [if_pos hb]
      exact .quiet rfl (fun h => absurd (hb.symm.trans h) (by decide)) fun _ _ => rfl
    · rw [if_neg hb]
      split
      · rename_i t1 hlast
        split_ifs with ht
        · refine .quiet rfl (fun _ t htl _ => ?_) fun _ _ => rfl
          exact Option.some.inj (hlast.symm.trans htl)
        · refine .quiet rfl (fun _ t htl => ?_) fun _ _ => rfl
          rw [← Option.some.inj (hlast.symm.trans htl)]
          simpa using ht
      · rename_i hlast
        exact .quiet rfl (fun _ t htl => by cases hlast.symm.trans htl) fun _ _ => rfl

theorem CpuThread.read_stepped {v : CpuThread} (hv : v.Ready) (clockTicks : Nat) (stat : Except Errno Bytes) :
    v.Stepped (v.read clockTicks stat) := by
  unfold CpuThread.read
  split
  · exact .quiet rfl hv fun _ _ => rfl
  · rename_i c hpending
    split
    · refine .quiet rfl (fun hb t htl ht => ?_) fun _ _ => rfl
      -- nothing was kept that the call could have compared
      have hnone : isTruthy c.percpu t = false := (by simpa only [Ready, hpending] using hv :
        c.blocking = false → ∀ t, v.last c.fn c.percpu = some t → isTruthy c.percpu t = false) hb t htl
      rw [hnone] at ht
      cases ht
    · exact .quiet rfl trivial fun _ _ => rfl
  · rename_i c t1 hpending
    split
    · exact .returned hpending _
    · exact .quiet rfl trivial fun _ _ => rfl

theorem CpuThread.step_stepped {v : CpuThread} (hv : v.Ready) (clockTicks : Nat) (e : CpuEv) : v.Stepped ((cpuThread clockTicks).step v e) := by
  obtain ⟨tid, step⟩ := e
  cases step with
  | call c =>
    simp only [cpuThread]
    split
    · exact start_stepped hv c
    · exact .quiet rfl hv fun _ _ => rfl
  | read stat => exact read_stepped hv clockTicks stat

theorem CpuThread.adjoin (clockTicks : Nat) (fn : CpuFn) (percpu : Bool) (es : List CpuEv) : ∀ {v : CpuThread}, v.Ready →
    Adjoin fn percpu (v.last fn percpu) (((cpuThread clockTicks).outs v es).filterMap (comparedOf fn percpu)) := by
  induction es with
  | nil => exact fun _ => trivial
  | cons e es ih =>
    intro v hv
    rw [Machine.outs_cons]
    have hstep := step_stepped hv clockTicks e
    revert hstep
    generalize (cpuThread clockTicks).step v e = r
    intro hstep
    cases hstep with
    | quiet hlast hready hout =>
      rw [List.filterMap_cons_none (hout fn percpu), ← hlast]
      exact ih hready
    | @returned c t1 hpending t2 =>
      have hready : ((v.keep c.fn c.percpu t2).setPending .idle).Ready := trivial
      by_cases h : c.fn = fn ∧ c.percpu = percpu
      · obtain ⟨rfl, rfl⟩ := h
        have hcompared : comparedOf c.fn c.percpu (.returned c t1 t2 (calculate c.fn c.percpu t1 t2)) =
            some ⟨c.blocking, t1, t2, calculate c.fn c.percpu t1 t2⟩ := by simp [comparedOf]
        have hkept : ((v.keep c.fn c.percpu t2).setPending .idle).last c.fn c.percpu = some t2 := by simp [keep, setPending]
        rw [List.filterMap_cons_some hcompared]
        have hrest := ih hready
        rw [hkept] at hrest
        refine ⟨fun hb t ht htrue => ?_, rfl, hrest⟩
        exact (by simpa only [Ready, hpending] using hv :
          c.blocking = false → ∀ t, v.last c.fn c.percpu = some t → isTruthy c.percpu t = true → t1 = t) hb t ht htrue
      · have hcompared : comparedOf fn percpu (.returned c t1 t2 (calculate c.fn c.percpu t1 t2)) = none := by simp [comparedOf, h]
        have hkept : ((v.keep c.fn c.percpu t2).setPending .idle).last fn percpu = v.last fn percpu := by
          simp only [keep, setPending]
          by_cases hfn : fn = c.fn
          · subst hfn
            rw [Function.update_self, Function.update_of_ne fun hp => h ⟨rfl, hp.symm⟩]
          · rw [Function.update_of_ne hfn]
        rw [List.filterMap_cons_none hcompared, ← hkept]
        exact ih hready

/-! ## What a new thread finds -/

/-- The last reading that calls under an identifier have kept. -/
def leftUnder (ident : Nat → Nat) (tid : Nat) (fn : CpuFn) (percpu : Bool) (lines : List (Line CpuProgram CpuEv CpuOut)) :
    Option (CpuReading percpu) :=
  (((lines.filter fun l => ident l.ev.thread == tid).map Line.out).filterMap (comparedOf fn percpu)).getLast?.map Compared.t2

/-- What one call has kept. -/
def keptBy (ident : Nat → Nat) (tid : Nat) (fn : CpuFn) (percpu : Bool) (thread : Nat) (out : CpuOut) : Option (CpuReading percpu) :=
  if ident thread = tid then (comparedOf fn percpu out).map Compared.t2 else none

section
variable {s : CpuProgram} {ident : Nat → Nat} {tid : Nat} {fn : CpuFn} {percpu : Bool}

theorem leftUnder_cons (l : Line CpuProgram CpuEv CpuOut) (lines : List (Line CpuProgram CpuEv CpuOut)) :
    leftUnder ident tid fn percpu (l :: lines) =
      (leftUnder ident tid fn percpu lines).or (keptBy ident tid fn percpu l.ev.thread l.out) := by
  unfold leftUnder keptBy
  by_cases hid : ident l.ev.thread = tid
  · rw [List.filter_cons_of_pos (by simpa using hid), List.map_cons, if_pos hid]
    cases hc : comparedOf fn percpu l.out with
    | none => rw [List.filterMap_cons_none hc, Option.map_none, Option.or_none]
    | some c =>
      rw [List.filterMap_cons_some hc, List.getLast?_cons]
      cases List.getLast? _ <;> rfl
  · rw [List.filter_cons_of_neg (by simpa using hid), if_neg hid, Option.or_none]

theorem keptBy_quiet {out : CpuOut} (h : out.quiet = true) (thread : Nat) : keptBy ident tid fn percpu thread out = none := by
  have hnone : comparedOf fn percpu out = none := by cases out <;> first | rfl | cases h
  rw [keptBy, hnone, Option.map_none, ite_self]

theorem last_setPending (thread : Nat) (p : CpuPending) : (s.setPending thread p).last = s.last := by
  funext fn percpu
  cases fn <;> cases percpu <;> rfl

theorem last_keep (thread : Nat) (c : CpuCall) (t1 t2 : CpuReading c.percpu) (value : CpuValue) :
    ((s.keep (ident thread) c.fn c.percpu t2).last fn percpu).get? tid =
      (keptBy ident tid fn percpu thread (.returned c t1 t2 value)).or ((s.last fn percpu).get? tid) := by
  obtain ⟨fn', percpu', interval⟩ := c
  unfold keptBy
  by_cases hid : tid = ident thread
  · subst hid
    rw [if_pos rfl]
    cases fn <;> cases fn' <;> cases percpu <;> cases percpu' <;> simp [CpuProgram.keep, CpuProgram.last, comparedOf]
  · rw [if_neg (Ne.symm hid), Option.none_or]
    cases fn <;> cases fn' <;> cases percpu <;> cases percpu' <;> simp [CpuProgram.keep, CpuProgram.last, Dict.get?_set, hid]

theorem CpuProgram.Stepped.last {thread : Nat} {r : CpuProgram × CpuOut} (hr : s.Stepped (ident thread) thread r) :
    (r.1.last fn percpu).get? tid = (keptBy ident tid fn percpu thread r.2).or ((s.last fn percpu).get? tid) := by
  cases hr with
  | same hout => rw [keptBy_quiet hout, Option.none_or]
  | pends p hout => rw [keptBy_quiet hout, Option.none_or, last_setPending]
  | returns c t1 t2 value => rw [last_setPending, last_keep thread c t1 t2 value]

theorem last_run (clockTicks : Nat) (s : CpuProgram) (es : List CpuEv) :
    (((cpuProgram clockTicks ident).run s es).last fn percpu).get? tid =
      (leftUnder ident tid fn percpu ((cpuProgram clockTicks ident).trace s es)).or ((s.last fn percpu).get? tid) := by
  induction es generalizing s with
  | nil => rfl
  | cons e es ih =>
    rw [Machine.run_cons, ih, (cpuProgram_stepped clockTicks ident s e).last, Machine.trace, leftUnder_cons, Option.or_assoc]

theorem pending_run {thread : Nat} {es : List CpuEv} (h : ∀ e ∈ es, e.thread ≠ thread) (clockTicks : Nat) (s : CpuProgram) :
    ((cpuProgram clockTicks ident).run s es).pending thread = s.pending thread := by
  induction es generalizing s with
  | nil => rfl
  | cons e es ih =>
    obtain ⟨he, hes⟩ := List.forall_mem_cons.1 h
    rw [Machine.run_cons, ih hes, (cpuProgram_stepped clockTicks ident s e).pending_other he.symm]

end

/-- **Each thread measures its own time**: whatever the other threads call meanwhile, the calls of a thread `thread` get the answers
that they would get alone, and the readings that its calls of one function compare follow each other without a gap. They start
from what the threads before it have left under its identifier, or from the import. -/
theorem cpu_calls_adjoin (clockTicks main : Nat) (ident : Nat → Nat) (stat1 stat2 : Except Errno Bytes) (before evs : List CpuEv)
    (thread : Nat) (hbefore : ∀ e ∈ before, e.thread ≠ thread)
    (hlives : ∀ e ∈ evs, ident e.thread = ident thread → e.thread = thread) :
    let start := cpuImport clockTicks (ident main) stat1 stat2
    let s := (cpuProgram clockTicks ident).run start before
    let left := fun fn percpu => (s.last fn percpu).get? (ident thread)
    let outs := (((cpuProgram clockTicks ident).trace s evs).filter fun l => l.ev.thread == thread).map Line.out
    outs = (cpuThread clockTicks).outs ⟨left, .idle⟩ (evs.filter fun e => e.thread == thread) ∧
      ∀ fn percpu, Adjoin fn percpu (left fn percpu) (outs.filterMap (comparedOf fn percpu)) ∧
        left fn percpu = (leftUnder ident (ident thread) fn percpu ((cpuProgram clockTicks ident).trace start before)).or
          ((start.last fn percpu).get? (ident thread)) := by
  intro start s left outs
  have hidle : s.pending thread = .idle := pending_run hbefore clockTicks start
  have hview : s.view thread (ident thread) = ⟨left, .idle⟩ := by rw [CpuProgram.view, hidle]
  have houts : outs = (cpuThread clockTicks).outs ⟨left, .idle⟩ (evs.filter fun e => e.thread == thread) :=
    hview ▸ (cpu_apart clockTicks ident thread).outs s hlives
  refine ⟨houts, fun fn percpu => ⟨?_, last_run clockTicks start before⟩⟩
  rw [houts]
  exact CpuThread.adjoin clockTicks fn percpu _ (v := ⟨left, .idle⟩) trivial

/-- A call without an interval, and what it reads. -/
def percentCall (thread : Nat) (stats : List String) : List CpuEv :=
  ⟨thread, .call ⟨.cpuPercent, false, none⟩⟩ :: stats.map fun stat => ⟨thread, .read (.ok (ascii stat))⟩

/-- Thread 2 is given the identifier 7 of thread 1, which has ended. -/
theorem cpu_calls_adjoin_recycled :
    let program := cpuProgram 100 fun thread => if thread = 0 then 5 else 7
    let s := program.run (cpuImport 100 5 (.error .enoent) (.error .enoent))
      (percentCall 1 ["cpu  1 0 1 8 0 0 0 0 0 0\n", "cpu  2 0 1 9 0 0 0 0 0 0\n"])
    let outs := ((program.trace s (percentCall 2 ["cpu  4 0 2 12 0 0 0 0 0 0\n"])).filter fun l => l.ev.thread == 2).map Line.out
    Adjoin .cpuPercent false (s.lastCpuTimes.get? 7) (outs.filterMap (comparedOf .cpuPercent false)) :=
  ((cpu_calls_adjoin 100 0 (fun thread => if thread = 0 then 5 else 7) (.error .enoent) (.error .enoent)
    (percentCall 1 ["cpu  1 0 1 8 0 0 0 0 0 0\n", "cpu  2 0 1 9 0 0 0 0 0 0\n"]) (percentCall 2 ["cpu  4 0 2 12 0 0 0 0 0 0\n"]) 2
    (by simp [percentCall]) (by simp [percentCall])).2 .cpuPercent false).1

end Psutil
