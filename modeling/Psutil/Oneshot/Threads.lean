import Psutil.Lib.Run
import Psutil.Oneshot.Spec

/-!
# `oneshot()` and other threads

| here | there |
| --- | --- |
| `Race.getItem`, `Race.setItem` | `self._cache[fun]`, `self._cache[fun] = ret` (`_common.py:257`, `:272`) |
| `Race.lookup`, `Race.store` | the `try` blocks around them (`:255-276`) |
| `enterOps`, `exitOps` | the calls of `cache_activate` and `cache_deactivate` (`__init__.py:650-670`, `_pslinux.py:1753`) |

The first thread, number 0, enters and leaves blocks; the others only call getters, which take no lock. A call goes down
through the memoized functions of its getter, one lookup a step, reads if none of them has the content, and comes back
up, one store a step; `memory_info_ex` does so twice for its two parts. What is cached is what was read, with the moment of the
first read. The steps by which a block is entered or left may be interleaved with the calls of the other threads.
-/

namespace Psutil.Oneshot

open Lib

/-- The objects that have a `_cache`. -/
inductive Holder where
  | self | proc
  deriving DecidableEq, Repr

/-- The getters that are memoized or go through a memoized reader. `create_time` is none of them: the object keeps its value. -/
inductive MemoGetter where
  | getter (g : Getter) (h : g ≠ .createTime)
  | memoryInfo | memoryInfoEx
  deriving DecidableEq, Repr

/-- The memoized functions: methods of the object and readers of its `_proc`. -/
inductive MemoFn where
  | method (g : MemoGetter)
  | reader (f : File)
  deriving DecidableEq, Repr

def MemoFn.holder : MemoFn → Holder
  | .method _ => .self
  | .reader _ => .proc

/-- The body of a getter, as far as it looks things up and reads them. -/
inductive Body where
  | read
  | memo (fn : MemoFn) (b : Body)
  | both (b b' : Body)

def MemoGetter.body : MemoGetter → Body
  | .getter .ppid h => .memo (.method (.getter .ppid h)) (.memo (.reader .stat) .read)
  | .getter .cpuTimes h => .memo (.method (.getter .cpuTimes h)) (.memo (.reader .stat) .read)
  | .getter .uids h => .memo (.method (.getter .uids h)) (.memo (.reader .status) .read)
  | .getter g _ => .memo (.reader g.file) .read
  -- `statm` is read by no memoized reader
  | .memoryInfo => .memo (.method .memoryInfo) .read
  | .memoryInfoEx => .memo (.method .memoryInfoEx) (.both (.memo (.method .memoryInfo) .read) (.memo (.reader .status) .read))

/-- What was read, and when the first of it was. -/
structure Datum (ν : Type) where
  contents : List ν
  readAt : Nat
  deriving DecidableEq, Repr

def Datum.join {ν : Type} (v w : Datum ν) : Datum ν := ⟨v.contents ++ w.contents, min v.readAt w.readAt⟩

/-- What is left to do with a result. -/
inductive Frame (ν : Type) where
  /-- The cache of the function lacked it. -/
  | store (fn : MemoFn)
  | second (b : Body)
  | join (v : Datum ν)

def Frame.joined? {ν : Type} : Frame ν → Option (Datum ν)
  | .join v => some v
  | _ => none

inductive Call (ν : Type) where
  | down (b : Body) (stack : List (Frame ν))
  | up (v : Datum ν) (stack : List (Frame ν))

/-- What a call has come up with so far. -/
def Call.data {ν : Type} : Call ν → List (Datum ν)
  | .down _ stack => stack.filterMap Frame.joined?
  | .up v stack => v :: stack.filterMap Frame.joined?

inductive Phase where
  | outside
  /-- The caches that are still to be activated, or deactivated. -/
  | entering (ops : List Holder)
  | inside (nested : Nat)
  | leaving (ops : List Holder)
  deriving DecidableEq, Repr

/-- `cpu_times`, `memory_info`, `ppid`, `uids`, then the three readers. -/
def enterOps : List Holder := [.self, .self, .self, .self, .proc, .proc, .proc]

def exitOps : List Holder := [.self, .self, .self, .self, .proc, .proc, .proc]

/-- The object, its first thread, and the calls that are running. -/
structure Race (ν : Type) where
  cache : Holder → Option (MemoFn → Option (Datum ν))
  phase : Phase
  /-- When the last block was entered. -/
  enteredAt : Nat
  clock : Nat
  calls : Nat → Option (MemoGetter × Call ν)

inductive RaceEv (ν : Type) where
  /-- The first thread reaches a `with` statement, or the end of its body. -/
  | enter
  | leave
  /-- The next `cache_activate` or `cache_deactivate`. -/
  | op
  | call (c : Nat) (g : MemoGetter)
  /-- The next step of a call but for a read: a lookup, a store, the second part, or its end. -/
  | next (c : Nat)
  /-- The reader of a call answers. -/
  | read (c : Nat) (r : Except Exc ν)
  /-- What a method makes of the content raises. -/
  | fail (c : Nat) (e : Exc)

/-- A thread gets the outcome of a getter. -/
abbrev RaceOut (ν : Type) := Option (Nat × MemoGetter × Except Exc (Datum ν))

namespace Race

variable {ν : Type} (s : Race ν)

def init : Race ν := ⟨fun _ => none, .outside, 0, 0, fun _ => none⟩

def noCacheMsg : String := "'Process' object has no attribute '_cache'"

def getItem (fn : MemoFn) : Except Exc (Datum ν) :=
  match s.cache fn.holder with
  | none => .error (.attributeError noCacheMsg)
  | some d => match d fn with
    | none => .error .keyError
    | some v => .ok v

def setItem (fn : MemoFn) (v : Datum ν) : Except Exc (Race ν) :=
  match s.cache fn.holder with
  | none => .error (.attributeError noCacheMsg)
  | some d => .ok { s with cache := Function.update s.cache fn.holder (some (Function.update d fn (some v))) }

def lookup (fn : MemoFn) (b : Body) (stack : List (Frame ν)) : Except Exc (Call ν) :=
  match s.getItem fn with
  | .ok v => .ok (.up v stack)
  | .error (.attributeError _) => .ok (.down b stack)
  | .error .keyError => .ok (.down b (.store fn :: stack))
  | .error e => .error e

def store (fn : MemoFn) (v : Datum ν) : Except Exc (Race ν) :=
  match s.setItem fn v with
  | .ok s => .ok s
  | .error (.attributeError _) => .ok s
  | .error e => .error e

def setCall (c : Nat) (call : Option (MemoGetter × Call ν)) : Race ν := { s with calls := Function.update s.calls c call }

def setCache (o : Holder) (d : Option (MemoFn → Option (Datum ν))) : Race ν :=
  { s with cache := Function.update s.cache o d }

/-- A call ends. -/
def finish (c : Nat) (g : MemoGetter) (r : Except Exc (Datum ν)) : Race ν × RaceOut ν := (s.setCall c none, some (c, g, r))

/-- The first thread, between two calls, meets `with p.oneshot()`: nothing to do in a block. -/
def enter : Race ν :=
  match s.phase, (s.cache .self).isSome with
  | .inside nested, true => { s with phase := .inside (nested + 1) }
  | .outside, false => { s with phase := .entering enterOps }
  | _, _ => s

def leave : Race ν :=
  match s.phase with
  | .inside (nested + 1) => { s with phase := .inside nested }
  | .inside 0 => { s with phase := .leaving exitOps }
  | _ => s

def op : Race ν :=
  match s.phase with
  | .entering [o] => { s.setCache o (some fun _ => none) with phase := .inside 0, enteredAt := s.clock }
  | .entering (o :: ops) => { s.setCache o (some fun _ => none) with phase := .entering ops }
  | .leaving [o] => { s.setCache o none with phase := .outside }
  | .leaving (o :: ops) => { s.setCache o none with phase := .leaving ops }
  | _ => s

/-- The first thread runs one statement after the other. -/
def mayCall (c : Nat) : Bool :=
  (s.calls c).isNone && (c ≠ 0 || match s.phase with
    | .outside | .inside _ => true
    | _ => false)

def next (c : Nat) : Race ν × RaceOut ν :=
  match s.calls c with
  | some (g, .down (.memo fn b) stack) => match s.lookup fn b stack with
    | .ok call => (s.setCall c (some (g, call)), none)
    | .error e => s.finish c g (.error e)
  | some (g, .down (.both b b') stack) => (s.setCall c (some (g, .down b (.second b' :: stack))), none)
  | some (g, .up v (.store fn :: stack)) => match s.store fn v with
    | .ok s => (s.setCall c (some (g, .up v stack)), none)
    | .error e => s.finish c g (.error e)
  | some (g, .up v (.second b :: stack)) => (s.setCall c (some (g, .down b (.join v :: stack))), none)
  | some (g, .up v (.join w :: stack)) => (s.setCall c (some (g, .up (w.join v) stack)), none)
  | some (g, .up v []) => s.finish c g (.ok v)
  | _ => (s, none)

def read (c : Nat) (r : Except Exc ν) : Race ν × RaceOut ν :=
  match s.calls c, r with
  | some (g, .down .read stack), .ok x => (s.setCall c (some (g, .up ⟨[x], s.clock⟩ stack)), none)
  | some (g, .down .read _), .error e => s.finish c g (.error e)
  | _, _ => (s, none)

def fail (c : Nat) (e : Exc) : Race ν × RaceOut ν :=
  match s.calls c with
  | some (g, .up _ _) => s.finish c g (.error e)
  | _ => (s, none)

def step : RaceEv ν → Race ν × RaceOut ν
  | .enter => (if (s.calls 0).isNone then s.enter else s, none)
  | .leave => (if (s.calls 0).isNone then s.leave else s, none)
  | .op => (s.op, none)
  | .call c g => (if s.mayCall c then s.setCall c (some (g, .down g.body [])) else s, none)
  | .next c => s.next c
  | .read c r => s.read c r
  | .fail c e => s.fail c e

def tick : Race ν := { s with clock := s.clock + 1 }

end Race

def race (ν : Type) : Machine (Race ν) (RaceEv ν) (RaceOut ν) where
  step s e := ((s.step e).1.tick, (s.step e).2)

abbrev RaceLine (ν : Type) := Line (Race ν) (RaceEv ν) (RaceOut ν)

/-- A getter only raises what its reader, or the code that uses the content, has raised. -/
def RaisesOwn {ν : Type} (l : RaceLine ν) : Prop :=
  ∀ c g e, l.out = some (c, g, .error e) → l.ev = .read c (.error e) ∨ l.ev = .fail c e

/-- What the first thread gets in a block was read after the block was entered. -/
def ServesFresh {ν : Type} (l : RaceLine ν) : Prop :=
  ∀ g v nested, l.out = some (0, g, .ok v) → l.pre.phase = .inside nested → l.pre.enteredAt < v.readAt

/-- `v` is older than the block for which `o` has its cache. -/
def Race.Older {ν : Type} (s : Race ν) (o : Holder) (v : Datum ν) : Prop :=
  (s.cache o).isSome ∧ match s.phase with
    | .entering ops => o ∉ ops
    | .inside _ => v.readAt ≤ s.enteredAt
    | _ => False

/-- No other thread stores what it read before the block was entered. -/
def StoresFresh {ν : Type} (l : RaceLine ν) : Prop :=
  ∀ c g v fn stack, l.ev = .next c → c ≠ 0 → l.pre.calls c = some (g, .up v (.store fn :: stack)) →
    ¬l.pre.Older fn.holder v

namespace Race

variable {ν : Type} {s : Race ν}

/-! ## What a step of a call does -/

/-- A lookup raises nothing: a hit, or one function further down. -/
theorem lookup_cases (s : Race ν) (fn : MemoFn) (b : Body) (stack : List (Frame ν)) :
    (∃ d v, s.cache fn.holder = some d ∧ d fn = some v ∧ s.lookup fn b stack = .ok (.up v stack)) ∨
      s.lookup fn b stack = .ok (.down b stack) ∨ s.lookup fn b stack = .ok (.down b (.store fn :: stack)) := by
  unfold lookup getItem
  cases hc : s.cache fn.holder with
  | none => exact Or.inr (Or.inl rfl)
  | some d => cases hd : d fn with
    | none => exact Or.inr (Or.inr (by simp only [hd]))
    | some v => exact Or.inl ⟨d, v, rfl, hd, by simp only [hd]⟩

/-- A store raises nothing: it is made, or the cache is gone. -/
theorem store_cases (s : Race ν) (fn : MemoFn) (v : Datum ν) :
    s.store fn v = .ok s ∨ ∃ d, s.cache fn.holder = some d ∧
      s.store fn v = .ok (s.setCache fn.holder (some (Function.update d fn (some v)))) := by
  unfold store setItem
  cases hc : s.cache fn.holder with
  | none => exact Or.inl rfl
  | some d => exact Or.inr ⟨d, rfl, rfl⟩

/-- The outcome of a step: nothing, the content a call has come up with, or an exception of its reader. -/
theorem step_out (s : Race ν) (e : RaceEv ν) {c : Nat} {g : MemoGetter} {r : Except Exc (Datum ν)}
    (hr : (s.step e).2 = some (c, g, r)) :
    (∃ v, r = .ok v ∧ e = .next c ∧ s.calls c = some (g, .up v [])) ∨
      ∃ x, r = .error x ∧ (e = .read c (.error x) ∨ e = .fail c x) := by
  cases e with
  | enter => cases hr
  | leave => cases hr
  | op => cases hr
  | call c' g' => cases hr
  | next c' =>
    simp only [step, next] at hr
    split at hr
    · rename_i g' fn b stack hc
      rcases lookup_cases s fn b stack with ⟨d, v, -, -, hl⟩ | hl | hl <;> rw [hl] at hr <;> cases hr
    · cases hr
    · rename_i g' v fn stack hc
      rcases store_cases s fn v with hl | ⟨d, -, hl⟩ <;> rw [hl] at hr <;> cases hr
    · cases hr
    · cases hr
    · rename_i g' v hc
      cases hr
      exact Or.inl ⟨v, rfl, rfl, hc⟩
    · cases hr
  | read c' r' =>
    simp only [step, read] at hr
    split at hr <;> cases hr
    exact Or.inr ⟨_, rfl, Or.inl rfl⟩
  | fail c' x =>
    simp only [step, fail] at hr
    split at hr <;> cases hr
    exact Or.inr ⟨_, rfl, Or.inr rfl⟩

/-! ## The invariant -/

/-- The caches, by where the first thread is. -/
def CachesOk (s : Race ν) : Prop :=
  match s.phase with
  | .outside => ∀ o, s.cache o = none
  | .entering ops => ∀ o, o ∉ ops → s.cache o = some fun _ => none
  | .inside _ => s.enteredAt < s.clock ∧
      ∀ o, ∃ d, s.cache o = some d ∧ ∀ fn v, d fn = some v → s.enteredAt < v.readAt
  | .leaving ops => ∀ o, o ∉ ops → s.cache o = none

/-- A call that the first thread may be in. -/
def FirstOk (s : Race ν) (call : Call ν) : Prop :=
  match s.phase with
  | .outside => True
  | .inside _ => ∀ v ∈ call.data, s.enteredAt < v.readAt
  | _ => False

structure Inv (s : Race ν) : Prop where
  caches : s.CachesOk
  first : ∀ g call, s.calls 0 = some (g, call) → s.FirstOk call

theorem inv_init : (init : Race ν).Inv := ⟨fun _ => rfl, fun _ _ h => by cases h⟩

theorem Inv.tick (hs : s.Inv) : s.tick.Inv := by
  refine ⟨?_, hs.first⟩
  have hc := hs.caches
  unfold CachesOk at hc ⊢
  cases hp : s.phase <;> simp only [Race.tick, hp] at hc ⊢
  · exact hc
  · exact hc
  · exact ⟨by omega, hc.2⟩
  · exact hc

/-- A change of one call; the first thread's new call is one it may be in. -/
theorem Inv.setCall (hs : s.Inv) {c : Nat} {call : Option (MemoGetter × Call ν)}
    (hc : c = 0 → ∀ g new, call = some (g, new) → s.FirstOk new) : (s.setCall c call).Inv := by
  refine ⟨hs.caches, fun g new hnew => ?_⟩
  by_cases h0 : c = 0
  · subst h0
    simp only [Race.setCall, Function.update_self] at hnew
    exact hc rfl g new hnew
  · simp only [Race.setCall, Function.update_of_ne (Ne.symm h0)] at hnew
    exact hs.first g new hnew

theorem Inv.setSome (hs : s.Inv) {c : Nat} {g : MemoGetter} {new : Call ν} (hc : c = 0 → s.FirstOk new) :
    (s.setCall c (some (g, new))).Inv := by
  apply hs.setCall
  intro h0 g' new' hnew
  cases hnew
  exact hc h0

/-- A store, unless it is of a content older than the block. -/
theorem Inv.setCache (hs : s.Inv) {o : Holder} {d : MemoFn → Option (Datum ν)} {fn : MemoFn} {v : Datum ν}
    (hd : s.cache o = some d) (hv : ¬s.Older o v) : (s.setCache o (some (Function.update d fn (some v)))).Inv := by
  refine ⟨?_, hs.first⟩
  have hc := hs.caches
  have hsome : (s.cache o).isSome = true := by rw [hd]; rfl
  unfold CachesOk at hc ⊢
  unfold Older at hv
  cases hp : s.phase <;> simp only [Race.setCache, hp] at hc hv ⊢
  · rw [hc o] at hd
    cases hd
  · intro o' ho'
    by_cases he : o' = o
    · exact absurd ⟨hsome, he ▸ ho'⟩ hv
    · rw [Function.update_of_ne he]
      exact hc o' ho'
  · refine ⟨hc.1, fun o' => ?_⟩
    by_cases he : o' = o
    · subst he
      refine ⟨_, Function.update_self .., fun fn' v' hv' => ?_⟩
      by_cases hf : fn' = fn
      · subst hf
        rw [Function.update_self, Option.some.injEq] at hv'
        subst hv'
        exact Nat.lt_of_not_le fun h => hv ⟨hsome, h⟩
      · rw [Function.update_of_ne hf] at hv'
        obtain ⟨d', hd', hall⟩ := hc.2 o'
        rw [hd, Option.some.injEq] at hd'
        exact hall fn' v' (hd' ▸ hv')
    · rw [Function.update_of_ne he]
      exact hc.2 o'
  · intro o' ho'
    by_cases he : o' = o
    · rw [he] at ho'
      rw [hc o ho'] at hd
      cases hd
    · rw [Function.update_of_ne he]
      exact hc o' ho'

/-- Not older than the block the first thread is in. -/
def Fresh (s : Race ν) (v : Datum ν) : Prop := ∀ nested, s.phase = .inside nested → s.enteredAt < v.readAt

theorem Fresh.join {v w : Datum ν} (hv : s.Fresh v) (hw : s.Fresh w) : s.Fresh (v.join w) :=
  fun nested hp => lt_min (hv nested hp) (hw nested hp)

/-- A content in the cache. -/
theorem Inv.hit (hs : s.Inv) {o : Holder} {d : MemoFn → Option (Datum ν)} {fn : MemoFn} {v : Datum ν}
    (hd : s.cache o = some d) (hv : d fn = some v) : s.Fresh v := by
  intro nested hp
  have hc := hs.caches
  simp only [CachesOk, hp] at hc
  obtain ⟨d', hd', hall⟩ := hc.2 o
  rw [hd, Option.some.injEq] at hd'
  exact hall fn v (hd' ▸ hv)

/-- A content that is read now. -/
theorem Inv.fresh_now (hs : s.Inv) (contents : List ν) : s.Fresh ⟨contents, s.clock⟩ := by
  intro nested hp
  have hc := hs.caches
  simp only [CachesOk, hp] at hc
  exact hc.1

section
variable {g : MemoGetter} {call new : Call ν}

theorem Inv.fresh (hs : s.Inv) (h0 : s.calls 0 = some (g, call)) {v : Datum ν} (hv : v ∈ call.data) : s.Fresh v := by
  intro nested hp
  have hf := hs.first g call h0
  simp only [FirstOk, hp] at hf
  exact hf v hv

/-- The first thread goes on with a call. -/
theorem Inv.firstOk (hs : s.Inv) (h0 : s.calls 0 = some (g, call)) (hnew : ∀ v ∈ new.data, s.Fresh v) : s.FirstOk new := by
  have hf := hs.first g call h0
  unfold FirstOk at hf ⊢
  cases hp : s.phase <;> simp only [hp] at hf ⊢
  exact fun v hv => hnew v hv _ hp

end

theorem first_of_none {s' : Race ν} (he : s'.calls = s.calls) (h0 : s.calls 0 = none) :
    ∀ g call, s'.calls 0 = some (g, call) → s'.FirstOk call := by
  intro g call hc
  rw [he, h0] at hc
  cases hc

/-- The steps of the first thread that enter and leave blocks. -/
theorem Inv.enter (hs : s.Inv) (h0 : s.calls 0 = none) : s.enter.Inv := by
  have hc := hs.caches
  unfold Race.enter
  split
  · rename_i nested hp _
    refine ⟨?_, first_of_none rfl h0⟩
    simpa [CachesOk, hp] using hc
  · refine ⟨fun o ho => ?_, first_of_none rfl h0⟩
    cases o <;> simp [enterOps] at ho
  · exact hs

theorem Inv.leave (hs : s.Inv) (h0 : s.calls 0 = none) : s.leave.Inv := by
  have hc := hs.caches
  unfold Race.leave
  split
  · rename_i nested hp
    refine ⟨?_, first_of_none rfl h0⟩
    simpa [CachesOk, hp] using hc
  · refine ⟨fun o ho => ?_, first_of_none rfl h0⟩
    cases o <;> simp [exitOps] at ho
  · exact hs

/-- One more cache is new, or gone. -/
theorem update_of_mem {α : Type} {cache : Holder → α} {o : Holder} {ops : List Holder} {a : α}
    (h : ∀ o', o' ∉ o :: ops → cache o' = a) : ∀ o', o' ∉ ops → Function.update cache o a o' = a := by
  intro o' ho'
  by_cases he : o' = o
  · rw [he, Function.update_self]
  · rw [Function.update_of_ne he]
    exact h o' (by simp [he, ho'])

theorem Inv.op (hs : s.Inv) : s.op.tick.Inv := by
  have hc := hs.caches
  have hf := hs.first
  unfold CachesOk at hc
  unfold FirstOk at hf
  unfold Race.op
  split
  · rename_i o hp
    simp only [hp] at hc hf
    have hnew := update_of_mem hc
    refine ⟨⟨Nat.lt_succ_self _, fun o' => ⟨_, hnew o' List.not_mem_nil, fun fn v hv => by cases hv⟩⟩, fun g call h0 => ?_⟩
    exact absurd h0 fun h0 => hf g call h0
  · rename_i o ops _ hp
    simp only [hp] at hc hf
    exact ⟨update_of_mem hc, fun g call h0 => hf g call h0⟩
  · rename_i o hp
    simp only [hp] at hc hf
    have hnew := update_of_mem hc
    exact ⟨fun o' => hnew o' List.not_mem_nil, fun g call h0 => trivial⟩
  · rename_i o ops _ hp
    simp only [hp] at hc hf
    exact ⟨update_of_mem hc, fun g call h0 => hf g call h0⟩
  · exact hs.tick

theorem Inv.finish (hs : s.Inv) (c : Nat) (g : MemoGetter) (r : Except Exc (Datum ν)) : (s.finish c g r).1.Inv :=
  hs.setCall fun _ _ _ h => by cases h

/-- A call goes on with what it has come up with so far, and something fresh. -/
theorem Inv.goOn (hs : s.Inv) {c : Nat} {g : MemoGetter} {call new : Call ν} (hc : s.calls c = some (g, call))
    (hnew : ∀ v ∈ new.data, v ∈ call.data ∨ s.Fresh v) : (s.setCall c (some (g, new))).Inv := by
  refine hs.setSome fun h0 => ?_
  subst h0
  exact hs.firstOk hc fun v hv => (hnew v hv).elim (hs.fresh hc) id

theorem Inv.next (hs : s.Inv) {c : Nat}
    (hfresh : ∀ g v fn stack, c ≠ 0 → s.calls c = some (g, .up v (.store fn :: stack)) → ¬s.Older fn.holder v) :
    (s.next c).1.Inv := by
  unfold Race.next
  split
  · rename_i g fn b stack hc
    rcases lookup_cases s fn b stack with ⟨d, v, hd, hv, hl⟩ | hl | hl <;> rw [hl]
    · exact hs.goOn hc (List.forall_mem_cons.2 ⟨Or.inr (hs.hit hd hv), fun w hw => Or.inl hw⟩)
    · exact hs.goOn hc fun v hv => Or.inl hv
    · exact hs.goOn hc fun v hv => Or.inl hv
  · rename_i g b b' stack hc
    exact hs.goOn hc fun v hv => Or.inl hv
  · rename_i g v fn stack hc
    rcases store_cases s fn v with hl | ⟨d, hd, hl⟩ <;> rw [hl]
    · exact hs.goOn hc fun w hw => Or.inl hw
    · -- what the first thread stores is as new as the block it is in
      have hold : ¬s.Older fn.holder v := by
        by_cases h0 : c = 0
        · subst h0
          have hf := hs.first g _ hc
          have hv : s.Fresh v := hs.fresh hc List.mem_cons_self
          rintro ⟨-, ho⟩
          unfold FirstOk at hf
          cases hp : s.phase <;> simp only [hp] at hf ho
          exact absurd (hv _ hp) (Nat.not_lt.2 ho)
        · exact hfresh g v fn stack h0 hc
      exact (hs.setCache hd hold).goOn hc fun w hw => Or.inl hw
  · rename_i g v b stack hc
    exact hs.goOn hc fun w hw => Or.inl hw
  · rename_i g v w stack hc
    refine hs.setSome fun h0 => ?_
    subst h0
    have hv : s.Fresh v := hs.fresh hc List.mem_cons_self
    have hw : s.Fresh w := hs.fresh hc (List.mem_cons_of_mem _ List.mem_cons_self)
    exact hs.firstOk hc (List.forall_mem_cons.2
      ⟨hw.join hv, fun u hu => hs.fresh hc (List.mem_cons_of_mem _ (List.mem_cons_of_mem _ hu))⟩)
  · exact hs.finish _ _ _
  · exact hs

theorem Inv.read (hs : s.Inv) (c : Nat) (r : Except Exc ν) : (s.read c r).1.Inv := by
  unfold Race.read
  split
  · rename_i g stack x hc
    exact hs.goOn hc (List.forall_mem_cons.2 ⟨Or.inr (hs.fresh_now [x]), fun w hw => Or.inl hw⟩)
  · exact hs.finish _ _ _
  · exact hs

theorem Inv.call (hs : s.Inv) {c : Nat} (g : MemoGetter) (hc : s.mayCall c = true) :
    (s.setCall c (some (g, .down g.body []))).Inv := by
  apply hs.setSome
  intro h0
  subst h0
  unfold mayCall at hc
  unfold FirstOk
  cases hp : s.phase <;> simp_all [Call.data]

/-- What one step keeps, if it stores nothing older than the block. -/
theorem Inv.step (hs : s.Inv) {e : RaceEv ν} (hfresh : StoresFresh ⟨s, e, ((race ν).step s e).2⟩) :
    ((race ν).step s e).1.Inv := by
  cases e with
  | enter =>
    change (if (s.calls 0).isNone then s.enter else s).tick.Inv
    split
    · rename_i h0
      exact (hs.enter (Option.isNone_iff_eq_none.1 h0)).tick
    · exact hs.tick
  | leave =>
    change (if (s.calls 0).isNone then s.leave else s).tick.Inv
    split
    · rename_i h0
      exact (hs.leave (Option.isNone_iff_eq_none.1 h0)).tick
    · exact hs.tick
  | op => exact hs.op
  | call c g =>
    change (if s.mayCall c then s.setCall c (some (g, .down g.body [])) else s).tick.Inv
    split
    · rename_i hc
      exact (hs.call g hc).tick
    · exact hs.tick
  | next c => exact (hs.next fun g v fn pending h0 hc => hfresh c g v fn pending rfl h0 hc).tick
  | read c r => exact (hs.read c r).tick
  | fail c x =>
    refine Inv.tick ?_
    change (s.fail c x).1.Inv
    unfold Race.fail
    split
    · exact hs.finish _ _ _
    · exact hs

end Race

/-- The caches never raise, and **a block serves nothing older than itself** in every run in which no other thread
stores into the cache of a block what it read before the block was entered. -/
theorem oneshot_serves_fresh (ν : Type) (es : List (RaceEv ν)) :
    (∀ l ∈ (race ν).trace .init es, RaisesOwn l) ∧
      ((∀ l ∈ (race ν).trace .init es, StoresFresh l) → ∀ l ∈ (race ν).trace .init es, ServesFresh l) := by
  constructor
  · intro l hl c g x hx
    obtain ⟨_, _, -, -, hout⟩ := (race ν).mem_trace.1 hl
    rw [hout] at hx
    rcases l.pre.step_out l.ev hx with ⟨v, hv, -⟩ | ⟨x', hx', he⟩
    · cases hv
    · cases hx'
      exact he
  · intro hrun l hl g v nested hv hp
    obtain ⟨hinv, hout⟩ := (race ν).lines_of_inv_of (fun s e hs hC => Race.Inv.step hs hC) Race.inv_init hrun hl
    rw [hout] at hv
    rcases l.pre.step_out l.ev hv with ⟨v', hv', -, hc⟩ | ⟨x, hx, -⟩
    · cases hv'
      have hf := hinv.first g _ hc
      unfold Race.FirstOk at hf
      rw [hp] at hf
      exact hf v List.mem_cons_self
    · cases hx

def statusGetter : MemoGetter := .getter .status (by decide)

/-- The first thread enters a block, or leaves one. -/
def enterBlock : List (RaceEv Nat) := .enter :: List.replicate 7 .op

def leaveBlock : List (RaceEv Nat) := .leave :: List.replicate 7 .op

/-- Another thread misses the cache of one block, reads, and stores into the cache of the next one. -/
def lateStore : List (RaceEv Nat) :=
  enterBlock ++ [.call 1 statusGetter, .next 1, .read 1 (.ok 5)] ++ leaveBlock ++ enterBlock ++ [.next 1, .call 0 statusGetter, .next 0]

/-- The first thread then gets what was read before its block was entered. -/
theorem oneshot_serves_stale : ¬∀ (es : List (RaceEv Nat)), ∀ l ∈ (race Nat).trace .init es, RaisesOwn l ∧ ServesFresh l := by
  intro h
  have hline : (⟨(race Nat).run .init lateStore, .next 0, some (0, statusGetter, .ok ⟨[5], 10⟩)⟩ : RaceLine Nat) ∈
      (race Nat).trace .init (lateStore ++ [.next 0]) :=
    (race Nat).mem_trace.2 ⟨lateStore, [], rfl, rfl, rfl⟩
  have hserved := (h _ _ hline).2 statusGetter ⟨[5], 10⟩ 0 rfl rfl
  exact absurd hserved (by decide)

/-- The same store, made in the block in which the content was read. -/
theorem oneshot_serves_fresh_in_block : ¬∃ l ∈ (race Nat).trace .init (enterBlock ++ [.call 1 statusGetter, .next 1, .read 1 (.ok 5),
    .next 1, .call 0 statusGetter, .next 0, .next 0]), ¬ServesFresh l := by
  rintro ⟨l, hl, hserved⟩
  refine hserved ((oneshot_serves_fresh Nat _).2 (fun l hl c g v fn pending he h0 hc => ?_) l hl)
  simp only [enterBlock, List.replicate, List.cons_append, List.nil_append, Machine.trace, List.mem_cons, List.not_mem_nil,
    or_false] at hl
  rcases hl with rfl | rfl | rfl | rfl | rfl | rfl | rfl | rfl | rfl | rfl | rfl | rfl | rfl | rfl | rfl <;> cases he
  · cases hc
  · cases hc
    rintro ⟨-, hold⟩
    have hle : (10 : Nat) ≤ 7 := hold
    omega
  · exact absurd rfl h0
  · exact absurd rfl h0

end Psutil.Oneshot
