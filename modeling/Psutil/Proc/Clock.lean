import Psutil.Lib.Forest
import Psutil.Proc.Parents
import Mathlib.Algebra.Order.Ring.Rat
import Mathlib.Tactic.Linarith

/-!
# The wall clock in `children` and `parent` (`__init__.py:733`, `:1152`)

| here | there |
| --- | --- |
| `Table ℚ` | the monotonic creation times, which do not change |
| `Table.createTimeAt` | `create_time` of a fresh `Process` on Linux (`_pslinux.py:1873`) |
| `Table.childrenAt`, `Table.parentAt` | the methods of `Table.children` and `Table.parent`, with the reads they make |
| `Table.runAt` | calls one after the other |

Every creation time is put on the wall clock by a read of the boot time of its own; `reads n` is what the `n`-th one returns
(numbers are exact), and a definition takes and gives back how many there have been. The check for a reused PID reads the
monotonic time, and passes, since the table does not change. With a constant boot time the answers are those of
`Table.children` and `Table.parent` (`runAt_const`).
-/

namespace Psutil

open Lib

/-- A call of `children(recursive)` or of `parent()`. -/
inductive TreeCall where
  | children (self : Nat) (recursive : Bool)
  | parent (self : Nat)
  deriving DecidableEq, Repr

namespace Table

section

variable (t : Table ℚ) (reads : Nat → ℚ)

/-- A process that is gone is found to be before the boot time is read. -/
def createTimeAt (n pid : Nat) : Except Exc ℚ × Nat :=
  match t.createTime pid with
  | .ok ctime => (.ok (ctime + reads n), n + 1)
  | .error e => (.error e, n)

def intimeAt (procCtime : ℚ) (n childPid : Nat) : Except Exc Bool × Nat :=
  match t.createTimeAt reads n childPid with
  | (.ok ctime, n) => (.ok (decide (procCtime ≤ ctime)), n)
  | (.error e, n) => (if e.isGone then .ok false else .error e, n)

def childrenOfAt (procCtime : ℚ) (self : Nat) : Nat → List (Nat × Nat) → List Nat → Except Exc (List Nat) × Nat
  | n, [], ret => (.ok ret, n)
  | n, (pid, ppid) :: rest, ret =>
    if ppid = self then
      match t.intimeAt reads procCtime n pid with
      | (.error e, n) => (.error e, n)
      | (.ok true, n) => childrenOfAt procCtime self n rest (ret ++ [pid])
      | (.ok false, n) => childrenOfAt procCtime self n rest ret
    else childrenOfAt procCtime self n rest ret

def visitAt (procCtime : ℚ) : Nat → List Nat → List Nat → List Nat → Except Exc (List Nat × List Nat) × Nat
  | n, [], ret, stack => (.ok (ret, stack), n)
  | n, childPid :: rest, ret, stack =>
    match t.intimeAt reads procCtime n childPid with
    | (.error e, n) => (.error e, n)
    | (.ok true, n) => visitAt procCtime n rest (ret ++ [childPid]) (childPid :: stack)
    | (.ok false, n) => visitAt procCtime n rest ret stack

def descendAt (procCtime : ℚ) (reverse : Dict Nat (List Nat)) : Nat → Nat → List Nat → List Nat → List Nat →
    Option (Except Exc (List Nat) × Nat)
  | 0, _, _, _, _ => none
  | _ + 1, n, _, [], ret => some (.ok ret, n)
  | fuel + 1, n, seen, pid :: stack, ret =>
    if pid ∈ seen then descendAt procCtime reverse fuel n seen stack ret
    else match t.visitAt reads procCtime n ((reverse.get? pid).getD []) ret stack with
      | (.error e, n) => some (.error e, n)
      | (.ok (ret, stack), n) => descendAt procCtime reverse fuel n (pid :: seen) stack ret

def childrenAt (fuel n self : Nat) (recursive : Bool) : Option (Except Exc (List Nat) × Nat) :=
  match t.createTimeAt reads n self with
  | (.error e, n) => some (.error e, n)
  | (.ok procCtime, n) =>
    if recursive then t.descendAt reads procCtime (reversePpidMap t.ppidMap) fuel n [] [self] []
    else some (t.childrenOfAt reads procCtime self n t.ppidMap.items [])

def parentAt (lowest n pid : Nat) : Except Exc (Option Nat) × Nat :=
  if pid = lowest then (.ok none, n)
  else match t.ppidMap.get? pid with
    | none => (.ok none, n)
    | some ppid => match t.createTimeAt reads n pid with
      | (.error e, n) => (.error e, n)
      | (.ok procCtime, n) => match t.createTimeAt reads n ppid with
        | (.ok ctime, n) => (if ctime ≤ procCtime then .ok (some ppid) else .ok none, n)
        | (.error e, n) => (if e.isGone then .ok none else .error e, n)

/-- The processes that are returned; `None` is no process. -/
def callAt (fuel lowest n : Nat) : TreeCall → Option (Except Exc (List Nat) × Nat)
  | .children self recursive => t.childrenAt reads fuel n self recursive
  | .parent self =>
    let (answer, n) := t.parentAt reads lowest n self
    some (answer.map Option.toList, n)

def runAt (fuel lowest : Nat) : Nat → List TreeCall → Option (List (Except Exc (List Nat)))
  | _, [] => some []
  | n, call :: rest => match t.callAt reads fuel lowest n call with
    | none => none
    | some (answer, n) => (runAt fuel lowest n rest).map (answer :: ·)

/-! ## A clock that is not stepped -/

/-- The call on a table whose times are on the wall clock already. -/
def answer (fuel lowest : Nat) : TreeCall → Option (Except Exc (List Nat))
  | .children self recursive => t.children fuel self recursive (.ok ())
  | .parent self => some ((t.parent lowest self).map Option.toList)

end

variable {t : Table ℚ} {reads : Nat → ℚ} {b : ℚ} {fuel lowest n : Nat}

theorem intimeAt_const (procCtime : ℚ) (n pid : Nat) :
    (t.intimeAt (fun _ => b) (procCtime + b) n pid).1 = t.intime procCtime pid := by
  unfold intimeAt createTimeAt intime
  cases t.createTime pid with
  | ok ctime => simp
  | error e => rfl

theorem childrenOfAt_const (procCtime : ℚ) (self : Nat) : ∀ (n : Nat) (items : List (Nat × Nat)) (ret : List Nat),
    (t.childrenOfAt (fun _ => b) (procCtime + b) self n items ret).1 = t.childrenOf procCtime self items ret
  | _, [], _ => rfl
  | n, (pid, ppid) :: rest, ret => by
    have hin := @intimeAt_const t b procCtime n pid
    unfold childrenOfAt childrenOf
    rw [← hin]
    by_cases hp : ppid = self
    · rw [if_pos hp, if_pos hp]
      obtain ⟨intime, n⟩ := t.intimeAt (fun _ => b) (procCtime + b) n pid
      cases intime with
      | error e => rfl
      | ok intime => cases intime <;> exact childrenOfAt_const procCtime self _ _ _
    · rw [if_neg hp, if_neg hp]
      exact childrenOfAt_const procCtime self _ _ _

theorem visitAt_const (procCtime : ℚ) : ∀ (n : Nat) (l ret stack : List Nat),
    (t.visitAt (fun _ => b) (procCtime + b) n l ret stack).1 = t.visit procCtime l ret stack
  | _, [], _, _ => rfl
  | n, pid :: rest, ret, stack => by
    have hin := @intimeAt_const t b procCtime n pid
    unfold visitAt visit
    rw [← hin]
    obtain ⟨intime, n⟩ := t.intimeAt (fun _ => b) (procCtime + b) n pid
    cases intime with
    | error e => rfl
    | ok intime => cases intime <;> exact visitAt_const procCtime _ _ _ _

theorem descendAt_const (procCtime : ℚ) (reverse : Dict Nat (List Nat)) (fuel : Nat) : ∀ (n : Nat) (seen stack ret : List Nat),
    (t.descendAt (fun _ => b) (procCtime + b) reverse fuel n seen stack ret).map Prod.fst =
      t.descend procCtime reverse fuel seen stack ret := by
  induction fuel with
  | zero => exact fun _ _ _ _ => rfl
  | succ fuel ih =>
    intro n seen stack ret
    cases stack with
    | nil => rfl
    | cons pid stack =>
      have hvisit := @visitAt_const t b procCtime n ((reverse.get? pid).getD []) ret stack
      unfold descendAt descend
      by_cases hs : pid ∈ seen
      · rw [if_pos hs, if_pos hs, ih]
      · rw [if_neg hs, if_neg hs, ← hvisit]
        obtain ⟨result, n⟩ := t.visitAt (fun _ => b) (procCtime + b) n ((reverse.get? pid).getD []) ret stack
        cases result with
        | error e => rfl
        | ok result => exact ih _ _ _ _

theorem childrenAt_const (fuel n self : Nat) (recursive : Bool) :
    (t.childrenAt (fun _ => b) fuel n self recursive).map Prod.fst = t.children fuel self recursive (.ok ()) := by
  unfold childrenAt createTimeAt children
  cases t.createTime self with
  | error e => rfl
  | ok procCtime =>
    cases recursive with
    | true => exact descendAt_const procCtime _ fuel _ _ _ _
    | false => exact congrArg some (childrenOfAt_const procCtime self _ _ _)

theorem parentAt_const (lowest n pid : Nat) : (t.parentAt (fun _ => b) lowest n pid).1 = t.parent lowest pid := by
  unfold parentAt createTimeAt parent
  split
  · rfl
  · cases t.ppidMap.get? pid with
    | none => rfl
    | some ppid =>
      cases t.createTime pid with
      | error e => rfl
      | ok procCtime =>
        cases h : t.createTime ppid with
        | error e => simp [h]
        | ok ctime => simp [h]

theorem callAt_const (fuel lowest n : Nat) (call : TreeCall) :
    (t.callAt (fun _ => b) fuel lowest n call).map Prod.fst = t.answer fuel lowest call := by
  cases call with
  | children self recursive => exact childrenAt_const fuel n self recursive
  | parent self => exact congrArg (fun p => some (p.map Option.toList)) (parentAt_const lowest n self)

/-- **With a constant boot time** each call answers what the table of the monotonic times says. -/
theorem runAt_const (t : Table ℚ) (b : ℚ) (fuel lowest : Nat) : ∀ (n : Nat) (calls : List TreeCall),
    t.runAt (fun _ => b) fuel lowest n calls = calls.mapM (t.answer fuel lowest)
  | _, [] => rfl
  | n, call :: rest => by
    rw [List.mapM_cons, runAt, ← callAt_const (t := t) (b := b) fuel lowest n call]
    cases t.callAt (fun _ => b) fuel lowest n call with
    | none => rfl
    | some result =>
      dsimp only [Option.map_some]
      rw [runAt_const t b fuel lowest result.2 rest]
      cases rest.mapM (t.answer fuel lowest) <;> rfl

/-! ## The reads of a call -/

section

variable (t : Table ℚ) (reads : Nat → ℚ)

def timed (pid : Nat) : Bool :=
  match t.createTime pid with
  | .ok _ => true
  | .error _ => false

/-- The children for which the boot time is read. -/
def timedKids (pid : Nat) : List Nat := (t.kids pid).filter t.timed

/-- The decision about a child, if its boot time is the `n`-th read. -/
def youngAt (procCtime : ℚ) (n pid : Nat) : Bool :=
  match t.createTime pid with
  | .ok ctime => decide (procCtime ≤ ctime + reads n)
  | .error _ => false

/-- The PIDs that are compared, in their order, by the first `fuel` turns of the loop. -/
def compared (procCtime : ℚ) (fuel self : Nat) (recursive : Bool) : List Nat :=
  if recursive then asked t.timedKids (t.young procCtime) fuel [] [self] else t.timedKids self

/-- How often a call reads the boot time. -/
def readsOf (fuel lowest : Nat) : TreeCall → Nat
  | .children self recursive => match t.createTime self with
    | .ok procCtime => 1 + (t.compared procCtime fuel self recursive).length
    | .error _ => 0
  | .parent self =>
    if self = lowest then 0
    else match t.ppidMap.get? self with
      | none => 0
      | some ppid => if t.timed self then (if t.timed ppid then 2 else 1) else 0

end

theorem forest_timedKids (t : Table ℚ) : Forest t.timedKids where
  nodup pid := (nodup_kids pid).filter _
  unique {p p' child} h h' := by
    have hp := mem_kids.1 (List.mem_filter.1 h).1
    have hp' := mem_kids.1 (List.mem_filter.1 h').1
    exact Option.some.inj (hp.symm.trans hp')

theorem intimeAt_eq (ht : t.Settled) (procCtime : ℚ) (n pid : Nat) :
    t.intimeAt reads procCtime n pid = (.ok (t.youngAt reads procCtime n pid), if t.timed pid then n + 1 else n) := by
  unfold intimeAt createTimeAt youngAt timed
  cases h : t.createTime pid with
  | ok ctime => rfl
  | error e => simp [ht pid e h]

theorem youngAt_of_not_timed {procCtime : ℚ} {pid : Nat} (h : t.timed pid = false) : t.youngAt reads procCtime n pid = false := by
  unfold timed at h
  unfold youngAt
  cases hc : t.createTime pid with
  | ok ctime => simp [hc] at h
  | error e => rfl

theorem visitAt_eq (ht : t.Settled) (procCtime : ℚ) : ∀ (n : Nat) (l ret stack : List Nat),
    t.visitAt reads procCtime n l ret stack =
      (.ok (ret ++ pick (t.youngAt reads procCtime) n (l.filter t.timed),
        (pick (t.youngAt reads procCtime) n (l.filter t.timed)).reverse ++ stack), n + (l.filter t.timed).length)
  | n, [], ret, stack => by simp [visitAt, pick]
  | n, pid :: rest, ret, stack => by
    unfold visitAt
    rw [intimeAt_eq ht]
    cases htimed : t.timed pid with
    | false => simp [youngAt_of_not_timed htimed, htimed, visitAt_eq ht procCtime n rest]
    | true =>
      have hlen : n + 1 + (rest.filter t.timed).length = n + ((rest.filter t.timed).length + 1) := by omega
      cases hy : t.youngAt reads procCtime n pid with
      | true => simp [htimed, hy, pick, visitAt_eq ht procCtime (n + 1) rest, hlen]
      | false => simp [htimed, hy, pick, visitAt_eq ht procCtime (n + 1) rest, hlen]

theorem childrenOfAt_eq (ht : t.Settled) (procCtime : ℚ) (self : Nat) : ∀ (n : Nat) (items : List (Nat × Nat)) (ret : List Nat),
    t.childrenOfAt reads procCtime self n items ret =
      (let l := ((items.filter fun item => item.2 = self).map Prod.fst).filter t.timed
       (.ok (ret ++ pick (t.youngAt reads procCtime) n l), n + l.length))
  | n, [], ret => by simp [childrenOfAt, pick]
  | n, (pid, ppid) :: rest, ret => by
    unfold childrenOfAt
    by_cases hp : ppid = self
    · rw [if_pos hp, intimeAt_eq ht]
      cases htimed : t.timed pid with
      | false => simp [hp, youngAt_of_not_timed htimed, htimed, childrenOfAt_eq ht procCtime self n rest]
      | true =>
        cases hy : t.youngAt reads procCtime n pid with
        | true => simp [hp, htimed, hy, pick, childrenOfAt_eq ht procCtime self (n + 1) rest, Nat.add_assoc, Nat.add_comm 1]
        | false => simp [hp, htimed, hy, pick, childrenOfAt_eq ht procCtime self (n + 1) rest, Nat.add_assoc, Nat.add_comm 1]
    · simp [hp, childrenOfAt_eq ht procCtime self n rest]

/-- **The loop is a walk** through the processes that have a creation time. -/
theorem descendAt_eq_walk (ht : t.Settled) (procCtime : ℚ) (fuel : Nat) : ∀ (n : Nat) (seen stack ret : List Nat),
    t.descendAt reads procCtime (reversePpidMap t.ppidMap) fuel n seen stack ret =
      (walk t.timedKids (t.youngAt reads procCtime) fuel n seen stack ret).map fun result => (.ok result.1, result.2) := by
  induction fuel with
  | zero => exact fun _ _ _ _ => rfl
  | succ fuel ih =>
    intro n seen stack ret
    cases stack with
    | nil => rfl
    | cons pid stack =>
      unfold descendAt walk
      by_cases hs : pid ∈ seen
      · rw [if_pos hs, if_pos hs, ih]
      · rw [if_neg hs, if_neg hs, visitAt_eq ht, get?_reversePpidMap]
        exact ih _ _ _ _

/-! ## Steps of the clock -/

/-- Between the two reads the clock is stepped by less than what turns the order of the two processes around. -/
structure Tolerable (ctime ctime' read read' : ℚ) : Prop where
  back : ctime ≤ ctime' → read - read' ≤ ctime' - ctime
  forward : ctime' < ctime → read' - read < ctime - ctime'

theorem tolerable_iff {ctime ctime' read read' : ℚ} :
    Tolerable ctime ctime' read read' ↔ (ctime + read ≤ ctime' + read' ↔ ctime ≤ ctime') := by
  constructor
  · intro h
    refine ⟨fun hle => ?_, fun hle => ?_⟩
    · by_contra hlt
      have hstep := h.forward (not_le.1 hlt)
      linarith
    · have hstep := h.back hle
      linarith
  · intro h
    refine ⟨fun hle => ?_, fun hlt => ?_⟩
    · have hsum := h.2 hle
      linarith
    · by_contra hstep
      exact absurd (h.1 (by linarith)) (not_le.2 hlt)

section

variable (t : Table ℚ) (reads : Nat → ℚ)

/-- No step of the clock turns a comparison of the call around: the process of the call reads the boot time first. -/
def Unstepped (fuel lowest n : Nat) : TreeCall → Prop
  | .children self recursive => ∀ procCtime, t.createTime self = .ok procCtime →
    Along (fun i pid => ∀ ctime, t.createTime pid = .ok ctime → Tolerable procCtime ctime (reads n) (reads i)) (n + 1)
      (t.compared procCtime fuel self recursive)
  | .parent self => ∀ ppid procCtime ctime, self ≠ lowest → t.ppidMap.get? self = some ppid →
    t.createTime self = .ok procCtime → t.createTime ppid = .ok ctime → Tolerable ctime procCtime (reads (n + 1)) (reads n)

def UnsteppedRun (fuel lowest : Nat) : Nat → List TreeCall → Prop
  | _, [] => True
  | n, call :: rest => t.Unstepped reads fuel lowest n call ∧ UnsteppedRun fuel lowest (n + t.readsOf fuel lowest call) rest

end

/-- Two runs of a call end. They give the same answer exactly if `P` holds, and have made the same reads then. -/
def SameIff (P : Prop) (m' : Nat) (result result' : Option (Except Exc (List Nat) × Nat)) : Prop :=
  ∃ answer m answer', result = some (answer, m) ∧ result' = some (answer', m') ∧
    (answer = answer' ↔ P) ∧ (answer = answer' → m = m')

/-- A call that compares nothing. -/
theorem SameIff.of_eq {P : Prop} {m : Nat} {answer : Except Exc (List Nat)} {result result' : Option (Except Exc (List Nat) × Nat)}
    (hP : P) (h : result = some (answer, m)) (h' : result' = some (answer, m)) : SameIff P m result result' :=
  ⟨answer, m, answer, h, h', ⟨fun _ => hP, fun _ => rfl⟩, fun _ => rfl⟩

theorem youngAt_const (procCtime : ℚ) : t.youngAt (fun _ => b) (procCtime + b) = fun _ => t.young procCtime := by
  funext n pid
  unfold youngAt young
  cases t.createTime pid with
  | ok ctime => simp
  | error e => rfl

theorem youngAt_eq_iff {procCtime read : ℚ} {i pid : Nat} :
    t.youngAt reads (procCtime + read) i pid = t.young procCtime pid ↔
      ∀ ctime, t.createTime pid = .ok ctime → Tolerable procCtime ctime read (reads i) := by
  unfold youngAt young
  cases t.createTime pid with
  | error e => simp
  | ok ctime => simp [tolerable_iff]

theorem mem_keys_of_mem_timedKids (pid : Nat) : ∀ child ∈ t.timedKids pid, child ∈ t.ppidMap.keys :=
  fun _ h => Dict.mem_of_get? (mem_kids.1 (List.mem_filter.1 h).1)

theorem unstepped_children_iff {self : Nat} {recursive : Bool} {procCtime : ℚ} (hc : t.createTime self = .ok procCtime) :
    t.Unstepped reads fuel lowest n (.children self recursive) ↔
      Along (fun i pid => t.youngAt reads (procCtime + reads n) i pid = t.young procCtime pid) (n + 1)
        (t.compared procCtime fuel self recursive) := by
  simp only [Unstepped, hc, youngAt_eq_iff, Except.ok.injEq, forall_eq']

theorem childrenAt_eq (ht : t.Settled) {self : Nat} {procCtime : ℚ} (hc : t.createTime self = .ok procCtime)
    (recursive : Bool) : t.childrenAt reads fuel n self recursive =
      if recursive then
        (walk t.timedKids (t.youngAt reads (procCtime + reads n)) fuel (n + 1) [] [self] []).map fun p => (.ok p.1, p.2)
      else some (.ok (pick (t.youngAt reads (procCtime + reads n)) (n + 1) (t.timedKids self)),
        n + 1 + (t.timedKids self).length) := by
  simp only [childrenAt, createTimeAt, hc, descendAt_eq_walk ht, childrenOfAt_eq ht, List.nil_append]
  rfl

theorem sameIff_childrenAt (ht : t.Settled) (hfuel : t.ppidMap.items.length + 2 ≤ fuel) (reads : Nat → ℚ) (b : ℚ)
    (n self : Nat) (recursive : Bool) :
    SameIff (t.Unstepped reads fuel lowest n (.children self recursive)) (n + t.readsOf fuel lowest (.children self recursive))
      (t.childrenAt reads fuel n self recursive) (t.childrenAt (fun _ => b) fuel n self recursive) := by
  cases hc : t.createTime self with
  | error e =>
    refine @SameIff.of_eq _ _ (.error e) _ _ ?_ ?_ ?_
    · simp [Unstepped, hc]
    · simp [childrenAt, createTimeAt, hc, readsOf]
    · simp [childrenAt, createTimeAt, hc, readsOf]
  | ok procCtime =>
    have hreads : n + t.readsOf fuel lowest (.children self recursive) =
        n + 1 + (t.compared procCtime fuel self recursive).length := by
      simp only [readsOf, hc, Nat.add_assoc]
    rw [unstepped_children_iff hc, hreads, childrenAt_eq ht hc, childrenAt_eq ht hc, youngAt_const]
    cases recursive with
    | false =>
      refine ⟨_, _, _, rfl, rfl, ?_, fun _ => rfl⟩
      rw [Except.ok.injEq, pick_eq_iff ((forest_timedKids t).nodup self)]
      rfl
    | true =>
      have hkeys : t.ppidMap.keys.length + 2 ≤ fuel := by simpa [Dict.keys] using hfuel
      have hends := walk_ends (forest_timedKids t) mem_keys_of_mem_timedKids hkeys
      obtain ⟨⟨l, m⟩, hl⟩ := hends (t.youngAt reads (procCtime + reads n)) (n + 1) self
      obtain ⟨⟨l', m'⟩, hl'⟩ := hends (fun _ => t.young procCtime) (n + 1) self
      obtain ⟨hsame, hm⟩ := walk_eq_iff (forest_timedKids t) fuel hl hl' fun _ hc => absurd hc List.not_mem_nil
      obtain rfl := walk_const_asked fuel hl'
      refine ⟨.ok l, m, .ok l', by simp [hl], by simp [hl', compared], ?_, fun h => hm (Except.ok.inj h)⟩
      rw [Except.ok.injEq]
      exact hsame

/-- `parent()` of a process that is not compared reads the same clock, or none. -/
theorem callAt_uncompared (ht : t.Settled) {self : Nat} (h : ¬∃ ppid procCtime ctime, self ≠ lowest ∧
    t.ppidMap.get? self = some ppid ∧ t.createTime self = .ok procCtime ∧ t.createTime ppid = .ok ctime) :
    ∃ answer, ∀ reads : Nat → ℚ, t.callAt reads fuel lowest n (.parent self) =
      some (answer, n + t.readsOf fuel lowest (.parent self)) := by
  by_cases hl : self = lowest
  · exact ⟨.ok [], fun reads => by simp [callAt, parentAt, readsOf, hl, Except.map]⟩
  cases hp : t.ppidMap.get? self with
  | none => exact ⟨.ok [], fun reads => by simp [callAt, parentAt, readsOf, hl, hp, Except.map]⟩
  | some ppid =>
    cases hc : t.createTime self with
    | error e => exact ⟨.error e, fun reads => by simp [callAt, parentAt, readsOf, createTimeAt, timed, hl, hp, hc, Except.map]⟩
    | ok procCtime =>
      cases hc' : t.createTime ppid with
      | error e =>
        have hgone := ht _ e hc'
        exact ⟨.ok [], fun reads => by simp [callAt, parentAt, readsOf, createTimeAt, timed, hl, hp, hc, hc', hgone, Except.map]⟩
      | ok ctime => exact absurd ⟨ppid, procCtime, ctime, hl, hp, hc, hc'⟩ h

theorem sameIff_parentAt (ht : t.Settled) (fuel : Nat) (reads : Nat → ℚ) (b : ℚ) (n self : Nat) :
    SameIff (t.Unstepped reads fuel lowest n (.parent self)) (n + t.readsOf fuel lowest (.parent self))
      (t.callAt reads fuel lowest n (.parent self)) (t.callAt (fun _ => b) fuel lowest n (.parent self)) := by
  by_cases h : ∃ ppid procCtime ctime, self ≠ lowest ∧ t.ppidMap.get? self = some ppid ∧
      t.createTime self = .ok procCtime ∧ t.createTime ppid = .ok ctime
  · obtain ⟨ppid, procCtime, ctime, hl, hp, hc, hc'⟩ := h
    have hanswer : ∀ reads : Nat → ℚ, t.callAt reads fuel lowest n (.parent self) =
        some (.ok (if ctime + reads (n + 1) ≤ procCtime + reads n then [ppid] else []), n + 2) := by
      intro reads
      simp only [callAt, parentAt, createTimeAt, if_neg hl, hp, hc, hc']
      split <;> rfl
    have hreads : n + t.readsOf fuel lowest (.parent self) = n + 2 := by
      simp [readsOf, timed, hl, hp, hc, hc']
    have hP : t.Unstepped reads fuel lowest n (.parent self) ↔
        (ctime + reads (n + 1) ≤ procCtime + reads n ↔ ctime ≤ procCtime) := by
      simp only [Unstepped, hp, hc, Option.some.injEq, Except.ok.injEq, tolerable_iff]
      constructor
      · exact fun h => h ppid procCtime ctime hl rfl rfl hc'
      · rintro h _ _ ctime' - rfl rfl hctime
        cases hc'.symm.trans hctime
        exact h
    rw [hP, hreads]
    refine ⟨_, _, _, hanswer reads, hanswer fun _ => b, ?_, fun _ => rfl⟩
    simp only [Except.ok.injEq, add_le_add_iff_right]
    by_cases hle : ctime ≤ procCtime
    · simp [hle]
    · simp [hle]
  · obtain ⟨answer, hanswer⟩ := @callAt_uncompared t fuel lowest n ht self h
    have hP : t.Unstepped reads fuel lowest n (.parent self) :=
      fun ppid procCtime ctime hl hp hc hc' => absurd ⟨ppid, procCtime, ctime, hl, hp, hc, hc'⟩ h
    exact .of_eq hP (hanswer reads) (hanswer fun _ => b)

/-- One call, from any number of reads. -/
theorem sameIff_callAt (ht : t.Settled) (hfuel : t.ppidMap.items.length + 2 ≤ fuel) (reads : Nat → ℚ) (b : ℚ) (n : Nat) :
    ∀ call, SameIff (t.Unstepped reads fuel lowest n call) (n + t.readsOf fuel lowest call)
      (t.callAt reads fuel lowest n call) (t.callAt (fun _ => b) fuel lowest n call)
  | .children self recursive => sameIff_childrenAt ht hfuel reads b n self recursive
  | .parent self => sameIff_parentAt ht fuel reads b n self

/-- **The wall clock is not seen exactly when** no comparison is turned around by a step of it. -/
theorem runAt_same_iff (t : Table ℚ) (ht : t.Settled) (fuel lowest : Nat) (hfuel : t.ppidMap.items.length + 2 ≤ fuel)
    (reads : Nat → ℚ) (b : ℚ) : ∀ (n : Nat) (calls : List TreeCall),
    ∃ answers, t.runAt (fun _ => b) fuel lowest n calls = some answers ∧
      (t.runAt reads fuel lowest n calls = some answers ↔ t.UnsteppedRun reads fuel lowest n calls)
  | n, [] => ⟨[], rfl, by simp [runAt, UnsteppedRun]⟩
  | n, call :: rest => by
    obtain ⟨answer, m, answer', h, h', hsame, hm⟩ := @sameIff_callAt t fuel lowest ht hfuel reads b n call
    obtain ⟨answers, hrest', hrest⟩ := runAt_same_iff t ht fuel lowest hfuel reads b (n + t.readsOf fuel lowest call) rest
    refine ⟨answer' :: answers, by simp [runAt, h', hrest'], ?_⟩
    rw [UnsteppedRun, ← hsame, ← hrest, runAt, h]
    dsimp only
    by_cases heq : answer = answer'
    · rw [heq, hm heq]
      simp
    · simp [heq]

/-- A step of the clock between two calls changes nothing. -/
theorem unstepped_of_steady {call : TreeCall}
    (h : ∀ i, n ≤ i → i < n + t.readsOf fuel lowest call → reads i = reads n) : t.Unstepped reads fuel lowest n call := by
  have hsteady : ∀ {ctime ctime' read read' : ℚ}, read' = read → Tolerable ctime ctime' read read' := by
    rintro ctime ctime' read _ rfl
    exact tolerable_iff.2 (add_le_add_iff_right _)
  cases call with
  | children self recursive =>
    intro procCtime hc
    have hreads : t.readsOf fuel lowest (.children self recursive) = 1 + (t.compared procCtime fuel self recursive).length := by
      simp only [readsOf, hc]
    rw [hreads] at h
    exact along_of_forall fun i pid hi hi' ctime _ => hsteady (h i (by omega) (by omega))
  | parent self =>
    intro ppid procCtime ctime hl hp hc hc'
    have hreads : t.readsOf fuel lowest (.parent self) = 2 := by
      simp [readsOf, timed, hl, hp, hc, hc']
    rw [hreads] at h
    exact hsteady (h (n + 1) (by omega) (by omega)).symm

/-- PID 1, and its child, which has started ten seconds after it. -/
def pair : Table ℚ where
  ppidMap := ⟨[(1, 0), (2, 1)], by decide⟩
  createTime pid :=
    if pid = 1 then .ok 10 else if pid = 2 then .ok 20 else .error (.noSuchProcess pid none "process PID not found")

theorem pair_settled : pair.Settled := by
  intro pid e he
  unfold pair at he
  dsimp only at he
  split at he
  · cases he
  · split at he
    · cases he
    · cases he
      rfl

/-- The clock is set back by an hour after `k` reads. -/
def setBack (k n : Nat) : ℚ := if n < k then 1700003600 else 1700000000

theorem setBack_of_lt {k n : Nat} (h : n < k) : setBack k n = 1700003600 := if_pos h

theorem setBack_of_le {k n : Nat} (h : k ≤ n) : setBack k n = 1700000000 := if_neg (not_lt.2 h)

/-- The child is not returned if the clock is set back between the two reads. -/
theorem runAt_set_back : ¬∀ t : Table ℚ, t.Settled → ∀ fuel lowest, t.ppidMap.items.length + 2 ≤ fuel →
    ∀ (reads : Nat → ℚ) (b : ℚ) (calls : List TreeCall),
    t.runAt reads fuel lowest 0 calls = t.runAt (fun _ => b) fuel lowest 0 calls := by
  intro h
  have hsame := h pair pair_settled 4 0 (by decide) (setBack 1) 1700000000 [.children 1 false]
  exact absurd hsame (by decide +kernel)

/-- The clock is set back after the first call, which reads it twice. -/
theorem runAt_set_back_between : pair.runAt (setBack 2) 4 0 0 [.children 1 false, .children 1 true, .parent 2] =
    some [.ok [2], .ok [2], .ok [1]] := by
  obtain ⟨answers, hconst, hsame⟩ := runAt_same_iff pair pair_settled 4 0 (by decide) (setBack 2) 1700000000 0
    [.children 1 false, .children 1 true, .parent 2]
  have hanswers : pair.runAt (fun _ => 1700000000) 4 0 0 [.children 1 false, .children 1 true, .parent 2] =
      some [.ok [2], .ok [2], .ok [1]] := by decide +kernel
  obtain rfl := Option.some.inj (hanswers.symm.trans hconst)
  have hfirst : pair.readsOf 4 0 (.children 1 false) = 2 := by decide +kernel
  refine hsame.2 ⟨unstepped_of_steady fun i _ hi => ?_, unstepped_of_steady fun i hi _ => ?_,
    unstepped_of_steady fun i hi _ => ?_, trivial⟩
  · rw [setBack_of_lt (by omega), setBack_of_lt (by omega)]
  · rw [setBack_of_le (by omega), setBack_of_le (by omega)]
  · rw [setBack_of_le (by omega), setBack_of_le (by omega)]

end Table

end Psutil
