import Psutil.Exc
import Psutil.Lib.Dict
import Psutil.Lib.Search
import Mathlib.Data.List.Pairwise

/-!
# `Process.children` (`__init__.py:1125-1198`)

| here | there |
| --- | --- |
| `Table` | `_ppid_map()`, and `Process(pid).create_time()` for every PID |
| `Table.intime` | the `try` blocks around `Process(child_pid)` (`:1162`, `:1187`) |
| `reversePpidMap` | `reverse_ppid_map` (`:1173`) |
| `Table.visit`, `Table.descend` | the inner loop (`:1186`) and the `while` loop (`:1179`) |
| `Table.children` | `children` |

The table does not change during a call. A `Process` in a list is given by its PID, and the head of `stack` is its top.
`children_reachable` says what is returned, in terms of `ChildStep`; `children_links_iff` and `not_own_child_iff` say when
that is what it should be.
-/

namespace Psutil

open Lib

/-- What the calls read of the processes. -/
structure Table (τ : Type) where
  ppidMap : Dict Nat Nat
  createTime : Nat → Except Exc τ

/-- `except (NoSuchProcess, ZombieProcess)`. -/
def Exc.isGone : Exc → Bool
  | .noSuchProcess _ _ _ | .zombieProcess _ _ _ => true
  | _ => false

/-- `reverse_ppid_map[ppid].append(pid)` for all items. -/
def reversePpidMap (ppidMap : Dict Nat Nat) : Dict Nat (List Nat) :=
  ppidMap.items.foldl (fun d item => d.set item.2 ((d.get? item.2).getD [] ++ [item.1])) ∅

namespace Table

section

variable {τ : Type} (t : Table τ)

/-- Every PID has a creation time, or its process is gone. -/
def Settled : Prop := ∀ pid e, t.createTime pid = .error e → e.isGone = true

/-- The PIDs with this parent, in the order of the map. -/
def kids (pid : Nat) : List Nat := (t.ppidMap.items.filter fun item => item.2 = pid).map Prod.fst

variable {t}

theorem mem_kids {pid child : Nat} : child ∈ t.kids pid ↔ t.ppidMap.get? child = some pid := by
  rw [kids, ← Dict.mem_items]
  simp

theorem nodup_kids (pid : Nat) : (t.kids pid).Nodup := by
  have hsub : (t.kids pid).Sublist t.ppidMap.keys := List.filter_sublist.map Prod.fst
  exact hsub.nodup t.ppidMap.nodup_keys

end

variable {τ : Type} [LinearOrder τ] (t : Table τ)

/-- `proc_ctime <= child.create_time()`; a process that is gone is not in time. -/
def intime (procCtime : τ) (childPid : Nat) : Except Exc Bool :=
  match t.createTime childPid with
  | .ok ctime => .ok (decide (procCtime ≤ ctime))
  | .error e => if e.isGone then .ok false else .error e

/-- The loop without `recursive`, over the items of the map. -/
def childrenOf (procCtime : τ) (self : Nat) : List (Nat × Nat) → List Nat → Except Exc (List Nat)
  | [], ret => .ok ret
  | (pid, ppid) :: rest, ret =>
    if ppid = self then
      match t.intime procCtime pid with
      | .error e => .error e
      | .ok true => childrenOf procCtime self rest (ret ++ [pid])
      | .ok false => childrenOf procCtime self rest ret
    else childrenOf procCtime self rest ret

/-- The children of one popped PID: `ret` and `stack` after them. -/
def visit (procCtime : τ) : List Nat → List Nat → List Nat → Except Exc (List Nat × List Nat)
  | [], ret, stack => .ok (ret, stack)
  | childPid :: rest, ret, stack =>
    match t.intime procCtime childPid with
    | .error e => .error e
    | .ok true => visit procCtime rest (ret ++ [childPid]) (childPid :: stack)
    | .ok false => visit procCtime rest ret stack

def descend (procCtime : τ) (reverse : Dict Nat (List Nat)) : Nat → List Nat → List Nat → List Nat →
    Option (Except Exc (List Nat))
  | 0, _, _, _ => none
  | _ + 1, _, [], ret => some (.ok ret)
  | fuel + 1, seen, pid :: stack, ret =>
    if pid ∈ seen then descend procCtime reverse fuel seen stack ret
    else match t.visit procCtime ((reverse.get? pid).getD []) ret stack with
      | .error e => some (.error e)
      | .ok (ret, stack) => descend procCtime reverse fuel (pid :: seen) stack ret

/-- `children(recursive)`; `check` is the outcome of `_raise_if_pid_reused()`. -/
def children (fuel self : Nat) (recursive : Bool) (check : Except Exc Unit) : Option (Except Exc (List Nat)) :=
  match check with
  | .error e => some (.error e)
  | .ok () => match t.createTime self with
    | .error e => some (.error e)
    | .ok procCtime =>
      if recursive then t.descend procCtime (reversePpidMap t.ppidMap) fuel [] [self] []
      else some (t.childrenOf procCtime self t.ppidMap.items [])

/-! ## The tree -/

/-- From a PID to a child of it that is not older than `procCtime`. -/
def ChildStep (procCtime : τ) (pid child : Nat) : Prop :=
  t.ppidMap.get? child = some pid ∧ ∃ ctime, t.createTime child = .ok ctime ∧ procCtime ≤ ctime

def young (procCtime : τ) (pid : Nat) : Bool :=
  match t.createTime pid with
  | .ok ctime => decide (procCtime ≤ ctime)
  | .error _ => false

def succ (procCtime : τ) (pid : Nat) : List Nat := (t.kids pid).filter (t.young procCtime)

variable {t} {procCtime : τ}

theorem young_iff {pid : Nat} : t.young procCtime pid = true ↔ ∃ ctime, t.createTime pid = .ok ctime ∧ procCtime ≤ ctime := by
  unfold young
  cases t.createTime pid <;> simp

theorem intime_eq (ht : t.Settled) (pid : Nat) : t.intime procCtime pid = .ok (t.young procCtime pid) := by
  unfold intime young
  cases h : t.createTime pid with
  | ok ctime => rfl
  | error e => simp [ht pid e h]

theorem mem_succ {pid child : Nat} : child ∈ t.succ procCtime pid ↔ t.ChildStep procCtime pid child := by
  rw [succ, List.mem_filter, mem_kids, young_iff]
  rfl

theorem nodup_succ (pid : Nat) : (t.succ procCtime pid).Nodup := (nodup_kids pid).filter _

/-- A process has one parent. -/
theorem ChildStep.unique {p p' pid : Nat} (h : t.ChildStep procCtime p pid) (h' : t.ChildStep procCtime p' pid) : p = p' :=
  Option.some.inj (h.1.symm.trans h'.1)

/-! ## The loops -/

theorem get?_reversePpidMap (m : Dict Nat Nat) (pid : Nat) :
    ((reversePpidMap m).get? pid).getD [] = (m.items.filter fun item => item.2 = pid).map Prod.fst := by
  have hfold : ∀ (items : List (Nat × Nat)) (d : Dict Nat (List Nat)),
      ((items.foldl (fun d item => d.set item.2 ((d.get? item.2).getD [] ++ [item.1])) d).get? pid).getD [] =
        (d.get? pid).getD [] ++ (items.filter fun item => item.2 = pid).map Prod.fst := by
    intro items
    induction items with
    | nil => simp
    | cons item items ih =>
      intro d
      rw [List.foldl_cons, ih, Dict.get?_set]
      by_cases h : pid = item.2
      · simp [h]
      · simp [h, Ne.symm h]
  simpa [reversePpidMap] using hfold m.items ∅

theorem visit_eq (ht : t.Settled) : ∀ (l ret stack : List Nat), t.visit procCtime l ret stack =
    .ok (ret ++ l.filter (t.young procCtime), (l.filter (t.young procCtime)).reverse ++ stack)
  | [], ret, stack => by simp [visit]
  | pid :: rest, ret, stack => by
    unfold visit
    rw [intime_eq ht]
    cases hy : t.young procCtime pid with
    | true => simp [hy, visit_eq ht rest]
    | false => simp [hy, visit_eq ht rest]

theorem childrenOf_eq (ht : t.Settled) (self : Nat) : ∀ (items : List (Nat × Nat)) (ret : List Nat),
    t.childrenOf procCtime self items ret =
      .ok (ret ++ ((items.filter fun item => item.2 = self).map Prod.fst).filter (t.young procCtime))
  | [], ret => by simp [childrenOf]
  | (pid, ppid) :: rest, ret => by
    unfold childrenOf
    rw [intime_eq ht]
    by_cases hp : ppid = self
    · rw [if_pos hp]
      cases hy : t.young procCtime pid with
      | true => simp [hp, hy, childrenOf_eq ht self rest]
      | false => simp [hp, hy, childrenOf_eq ht self rest]
    · simp [hp, childrenOf_eq ht self rest]

/-- **The loop is a search** for the PIDs that can be reached by `ChildStep`. -/
theorem descend_eq_search (ht : t.Settled) (fuel : Nat) : ∀ seen stack ret : List Nat,
    t.descend procCtime (reversePpidMap t.ppidMap) fuel seen stack ret =
      (search (t.succ procCtime) fuel seen stack ret).map .ok := by
  induction fuel with
  | zero => exact fun _ _ _ => rfl
  | succ fuel ih =>
    intro seen stack ret
    cases stack with
    | nil => rfl
    | cons pid stack =>
      unfold descend search
      by_cases hs : pid ∈ seen
      · rw [if_pos hs, if_pos hs, ih]
      · rw [if_neg hs, if_neg hs, visit_eq ht, get?_reversePpidMap]
        exact ih _ _ _

theorem reaches_iff {self pid : Nat} :
    Reaches (t.succ procCtime) self pid ↔ Relation.ReflTransGen (t.ChildStep procCtime) self pid := by
  have hstep : (fun a b => b ∈ t.succ procCtime a) = t.ChildStep procCtime := by
    funext a b
    exact propext mem_succ
  rw [Reaches, hstep]

/-- All PIDs the loop can meet. -/
theorem exists_bound (t : Table τ) (procCtime : τ) (self : Nat) :
    ∃ U : Finset Nat, self ∈ U ∧ ∀ a ∈ U, ∀ b ∈ t.succ procCtime a, b ∈ U := by
  refine ⟨insert self t.ppidMap.keys.toFinset, Finset.mem_insert_self _ _, fun a _ b hb => ?_⟩
  rw [Finset.mem_insert, List.mem_toFinset]
  exact Or.inr (Dict.mem_of_get? (mem_succ.1 hb).1)

/-- The successors of different PIDs are different. -/
theorem nodup_flatMap_succ {E : List Nat} (hE : E.Nodup) : (E.flatMap (t.succ procCtime)).Nodup := by
  refine List.nodup_flatMap.2 ⟨fun pid _ => nodup_succ pid, hE.imp fun {p p'} hne => ?_⟩
  intro pid hp hp'
  exact hne ((mem_succ.1 hp).unique (mem_succ.1 hp'))

theorem transGen_iff {E : List Nat} {self pid : Nat} (hE : ∀ p, p ∈ E ↔ Reaches (t.succ procCtime) self p) :
    pid ∈ E.flatMap (t.succ procCtime) ↔ Relation.TransGen (t.ChildStep procCtime) self pid := by
  simp only [List.mem_flatMap, hE, reaches_iff, mem_succ]
  exact Relation.TransGen.tail'_iff.symm

/-- **`children` computes reachability and terminates.** -/
theorem children_reachable (t : Table τ) (ht : t.Settled) (self : Nat) : match t.createTime self with
    | .error e => ∀ fuel recursive, t.children fuel self recursive (.ok ()) = some (.error e)
    | .ok procCtime =>
      (∃ n, ∀ fuel, n < fuel → ∃ l, t.children fuel self true (.ok ()) = some (.ok l) ∧ l.Nodup ∧
        ∀ pid, pid ∈ l ↔ Relation.TransGen (t.ChildStep procCtime) self pid) ∧
      ∃ l, (∀ fuel, t.children fuel self false (.ok ()) = some (.ok l)) ∧ l.Nodup ∧
        ∀ pid, pid ∈ l ↔ t.ChildStep procCtime self pid := by
  cases hc : t.createTime self with
  | error e => exact fun fuel recursive => by simp only [children, hc]
  | ok procCtime =>
    refine ⟨?_, t.succ procCtime self, ?_, nodup_succ self, fun pid => mem_succ⟩
    · obtain ⟨U, hself, hU⟩ := t.exists_bound procCtime self
      obtain ⟨n, hn⟩ := search_reaches hself hU
      refine ⟨n, fun fuel hf => ?_⟩
      obtain ⟨E, hsearch, hnd, hE⟩ := hn fuel hf
      refine ⟨E.flatMap (t.succ procCtime), ?_, nodup_flatMap_succ hnd, fun pid => transGen_iff hE⟩
      simp only [children, hc, if_true, descend_eq_search ht, hsearch]
      rfl
    · intro fuel
      simp only [children, hc, childrenOf_eq ht]
      rfl

/-- A table with these items and creation times. -/
def ofItems (items : List (Nat × Nat)) (h : (items.map Prod.fst).Nodup) (times : List (Nat × Nat)) : Table Nat where
  ppidMap := ⟨items, h⟩
  createTime pid := match times.lookup pid with
    | some ctime => .ok ctime
    | none => .error (.noSuchProcess pid none "process PID not found")

theorem ofItems_settled (items : List (Nat × Nat)) (h : (items.map Prod.fst).Nodup) (times : List (Nat × Nat)) :
    (ofItems items h times).Settled := by
  intro pid e he
  unfold ofItems at he
  dsimp only at he
  split at he
  · cases he
  · cases he
    rfl

/-- PID 2 has been given to a child of 1 after its first process had started 3. -/
def reusedParent : Table Nat := ofItems [(0, 0), (1, 0), (2, 1), (3, 2), (5, 4)] (by decide) [(0, 0), (1, 10), (2, 30), (3, 20)]

/-- The calls on PID 0, which is its own parent. -/
theorem children_reachable_cycle :
    (∃ n, ∀ fuel, n < fuel → ∃ l, reusedParent.children fuel 0 true (.ok ()) = some (.ok l) ∧ l.Nodup ∧
      ∀ pid, pid ∈ l ↔ Relation.TransGen (reusedParent.ChildStep 0) 0 pid) ∧
    ∃ l, (∀ fuel, reusedParent.children fuel 0 false (.ok ()) = some (.ok l)) ∧ l.Nodup ∧
      ∀ pid, pid ∈ l ↔ reusedParent.ChildStep 0 0 pid :=
  children_reachable reusedParent (ofItems_settled _ _ _) 0

/-- What a call that returns has returned. -/
theorem mem_children (ht : t.Settled) {self : Nat} (hc : t.createTime self = .ok procCtime) {fuel : Nat} {l : List Nat} :
    (t.children fuel self true (.ok ()) = some (.ok l) →
      ∀ pid, pid ∈ l ↔ Relation.TransGen (t.ChildStep procCtime) self pid) ∧
    (t.children fuel self false (.ok ()) = some (.ok l) → ∀ pid, pid ∈ l ↔ t.ChildStep procCtime self pid) := by
  constructor
  · intro h
    simp only [children, hc, if_true, descend_eq_search ht, Option.map_eq_some_iff] at h
    obtain ⟨l', hl', heq⟩ := h
    cases heq
    obtain ⟨E, rfl, -, hE⟩ := (Searched.init (t.succ procCtime) self).search fuel hl'
    exact fun pid => transGen_iff hE
  · intro h
    simp only [children, hc, childrenOf_eq ht] at h
    cases h
    exact fun pid => mem_succ

/-- A link from a child to the process that is its parent by the map, and older. -/
def GoodLink (t : Table τ) (parent child : Nat) : Prop :=
  t.ppidMap.get? child = some parent ∧
    ∃ pctime cctime, t.createTime parent = .ok pctime ∧ t.createTime child = .ok cctime ∧ pctime ≤ cctime

/-- **No reused PID is crossed exactly when** no process that is visited is younger than one whose parent it is by the
map and which is not older than the process of the call. -/
theorem children_links_iff (t : Table τ) (ht : t.Settled) (self : Nat) (procCtime : τ)
    (hc : t.createTime self = .ok procCtime) (fuel : Nat) (l : List Nat)
    (h : t.children fuel self true (.ok ()) = some (.ok l)) :
    (∀ pid ∈ l, Relation.ReflTransGen t.GoodLink self pid) ↔
      ∀ p q, Relation.ReflTransGen (t.ChildStep procCtime) self p → t.ppidMap.get? q = some p → q ≠ self →
        ∀ pctime qctime, t.createTime p = .ok pctime → t.createTime q = .ok qctime → procCtime ≤ qctime → pctime ≤ qctime := by
  have hl := (mem_children ht hc).1 h
  constructor
  · intro hgood p q hp hq hne pctime qctime hpc hqc hle
    have hstep : t.ChildStep procCtime p q := ⟨hq, qctime, hqc, hle⟩
    rcases (hgood q ((hl q).2 (.tail' hp hstep))).cases_tail with rfl | ⟨p', -, hmap, pctime', qctime', hpc', hqc', hle'⟩
    · exact absurd rfl hne
    · obtain rfl : p = p' := Option.some.inj (hq.symm.trans hmap)
      cases hpc.symm.trans hpc'
      cases hqc.symm.trans hqc'
      exact hle'
  · intro hcond pid hpid
    have hself : ∀ {p q}, Relation.ReflTransGen (t.ChildStep procCtime) self p → (∃ c, t.createTime p = .ok c) →
        Relation.ReflTransGen t.GoodLink self p → t.ChildStep procCtime p q → Relation.ReflTransGen t.GoodLink self q := by
      rintro p q hp ⟨pctime, hpc⟩ hgood ⟨hmap, qctime, hqc, hle⟩
      by_cases hq : q = self
      · rw [hq]
      · exact hgood.tail ⟨hmap, pctime, qctime, hpc, hqc, hcond p q hp hmap hq pctime qctime hpc hqc hle⟩
    have htrans := (hl pid).1 hpid
    induction htrans with
    | single hstep => exact hself .refl ⟨procCtime, hc⟩ .refl hstep
    | tail hp hstep ih =>
      obtain ⟨_, -, -, pctime, hpc, -⟩ := Relation.TransGen.tail'_iff.1 hp
      exact hself hp.to_reflTransGen ⟨pctime, hpc⟩ (ih ((hl _).2 hp)) hstep

/-- `children(recursive=True)` of 1 returns 3, whose parent is the first process of PID 2. -/
theorem children_cross_reused_pid : ¬∀ (t : Table Nat), t.Settled → ∀ (self procCtime : Nat),
    t.createTime self = .ok procCtime → ∀ (fuel : Nat) (l : List Nat), t.children fuel self true (.ok ()) = some (.ok l) →
    ∀ pid ∈ l, Relation.ReflTransGen t.GoodLink self pid := by
  intro h
  have hchain := h reusedParent (ofItems_settled _ _ _) 1 10 rfl 10 [2, 3] rfl 3 (by decide)
  rcases hchain.cases_tail with h31 | ⟨p, -, hmap, pctime, qctime, hp, hq, hle⟩
  · cases h31
  · obtain rfl : 2 = p := Option.some.inj hmap
    cases hp
    cases hq
    exact absurd hle (by decide)

/-- A table without reuse. -/
def family : Table Nat := ofItems [(1, 0), (2, 1), (3, 2)] (by decide) [(1, 10), (2, 20), (3, 30)]

theorem children_links_family :
    Relation.ReflTransGen family.GoodLink 1 2 ∧ Relation.ReflTransGen family.GoodLink 1 3 := by
  have hgood := (children_links_iff family (ofItems_settled _ _ _) 1 10 rfl 10 [2, 3] rfl).2 (by
    rintro p q - hmap hne pctime qctime hp hq -
    have hmem : (q, p) ∈ [(1, 0), (2, 1), (3, 2)] := Dict.mem_items.2 hmap
    simp only [List.mem_cons, Prod.mk.injEq, List.not_mem_nil, or_false] at hmem
    rcases hmem with ⟨rfl, rfl⟩ | ⟨rfl, rfl⟩ | ⟨rfl, rfl⟩
    · exact absurd rfl hne
    · cases hp
      cases hq
      decide
    · cases hp
      cases hq
      decide)
  exact ⟨hgood 2 (by decide), hgood 3 (by decide)⟩

/-- **A process is not returned as its own child or descendant exactly when** no chain of children that are not older
than it leads back to it. -/
theorem not_own_child_iff (t : Table τ) (ht : t.Settled) (self : Nat) (procCtime : τ)
    (hc : t.createTime self = .ok procCtime) (fuel : Nat) (l l' : List Nat)
    (h : t.children fuel self false (.ok ()) = some (.ok l)) (h' : t.children fuel self true (.ok ()) = some (.ok l')) :
    self ∉ l ∧ self ∉ l' ↔ ¬Relation.TransGen (t.ChildStep procCtime) self self := by
  rw [(mem_children ht hc).2 h, (mem_children ht hc).1 h']
  exact ⟨fun hno => hno.2, fun hno => ⟨fun hstep => hno (.single hstep), hno⟩⟩

/-- PID 0, whose parent is 0, is returned as its own child. -/
theorem own_child : ¬∀ (t : Table Nat), t.Settled → ∀ (self procCtime : Nat), t.createTime self = .ok procCtime →
    ∀ (fuel : Nat) (l l' : List Nat), t.children fuel self false (.ok ()) = some (.ok l) →
    t.children fuel self true (.ok ()) = some (.ok l') → self ∉ l ∧ self ∉ l' := by
  intro h
  have hno := h reusedParent (ofItems_settled _ _ _) 0 0 rfl 10 [0, 1] [0, 1, 2, 3] rfl rfl
  exact hno.1 (by decide)

theorem not_own_child_family : ¬Relation.TransGen (family.ChildStep 10) 1 1 :=
  (not_own_child_iff family (ofItems_settled _ _ _) 1 10 rfl 10 [2] [2, 3] rfl rfl).1 (by decide)

end Table

end Psutil
