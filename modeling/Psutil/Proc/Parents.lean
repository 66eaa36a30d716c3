import Psutil.Lib.Follow
import Psutil.Proc.Tree
import Mathlib.Order.WithBot

/-!
# `Process.parent` and `Process.parents` (`__init__.py:727-761`)

`Table.parent` is `parent()` on a table that does not change, so the check in `ppid()` for a reused PID passes;
`ppid()` is the entry of the PID in the map, and `lowest` is `_LOWEST_PID` or `pids()[0]`. `parents_end_iff` says when
the loop of `parents()` ends.
-/

namespace Psutil

open Lib Relation

namespace Table

variable {τ : Type} [LinearOrder τ] (t : Table τ)

def parent (lowest pid : Nat) : Except Exc (Option Nat) :=
  if pid = lowest then .ok none
  else match t.ppidMap.get? pid with
    | none => .ok none
    | some ppid => match t.createTime pid with
      | .error e => .error e
      | .ok procCtime => match t.createTime ppid with
        | .ok ctime => if ctime ≤ procCtime then .ok (some ppid) else .ok none
        | .error e => if e.isGone then .ok none else .error e

/-- `while proc is not None`. -/
def parentsLoop (lowest : Nat) : Nat → List Nat → Option Nat → Option (Except Exc (List Nat))
  | 0, _, _ => none
  | _ + 1, parents, none => some (.ok parents)
  | fuel + 1, parents, some proc => match t.parent lowest proc with
    | .error e => some (.error e)
    | .ok next => parentsLoop lowest fuel (parents ++ [proc]) next

def parents (lowest fuel self : Nat) : Option (Except Exc (List Nat)) :=
  match t.parent lowest self with
  | .error e => some (.error e)
  | .ok proc => t.parentsLoop lowest fuel [] proc

/-! ## The steps -/

/-- From a process to its parent: it is not the lowest PID, and the parent is not younger. -/
def ParentStep (lowest pid ppid : Nat) : Prop :=
  pid ≠ lowest ∧ t.ppidMap.get? pid = some ppid ∧
    ∃ procCtime ctime, t.createTime pid = .ok procCtime ∧ t.createTime ppid = .ok ctime ∧ ctime ≤ procCtime

/-- The parent is as old as the process. -/
def TwinStep (lowest pid ppid : Nat) : Prop := t.ParentStep lowest pid ppid ∧ t.createTime pid = t.createTime ppid

/-- The parent, if there is no error. -/
def next (lowest pid : Nat) : Option Nat := (t.parent lowest pid).toOption.join

/-- The creation time; a process that is gone has none. -/
def time (pid : Nat) : WithBot τ :=
  match t.createTime pid with
  | .ok ctime => ctime
  | .error _ => ⊥

variable {t} {lowest pid ppid : Nat}

theorem parent_eq (ht : t.Settled) {ctime : τ} (hc : t.createTime pid = .ok ctime) :
    t.parent lowest pid = .ok (t.next lowest pid) := by
  cases h : t.parent lowest pid with
  | ok proc => simp [next, h, Except.toOption]
  | error e =>
    unfold parent at h
    split at h
    · cases h
    · split at h
      · cases h
      · rw [hc] at h
        dsimp only at h
        split at h
        · split at h <;> cases h
        · rename_i e' he'
          rw [if_pos (ht _ e' he')] at h
          cases h

theorem parent_eq_some : t.parent lowest pid = .ok (some ppid) ↔ t.ParentStep lowest pid ppid := by
  unfold parent
  constructor
  · intro h
    split at h
    · cases h
    · rename_i hl
      split at h
      · cases h
      · rename_i q hq
        split at h
        · cases h
        · rename_i procCtime hc
          split at h
          · rename_i ctime hc'
            split at h
            · rename_i hle
              cases h
              exact ⟨hl, hq, procCtime, ctime, hc, hc', hle⟩
            · cases h
          · split at h <;> cases h
  · rintro ⟨hl, hq, procCtime, ctime, hc, hc', hle⟩
    simp only [if_neg hl, hq, hc, hc', if_pos hle]

theorem next_iff : t.next lowest pid = some ppid ↔ t.ParentStep lowest pid ppid := by
  rw [← parent_eq_some, next]
  cases t.parent lowest pid <;> simp [Except.toOption]

/-- **The loop follows the parents.** -/
theorem parentsLoop_eq_follow (ht : t.Settled) (fuel : Nat) : ∀ {pid : Nat} {ctime : τ} (parents : List Nat),
    t.createTime pid = .ok ctime → t.parentsLoop lowest fuel parents (t.next lowest pid) =
      (follow (t.next lowest) fuel pid).map fun l => .ok (parents ++ l) := by
  induction fuel with
  | zero => intro pid ctime parents _; rfl
  | succ fuel ih =>
    intro pid ctime parents hc
    unfold follow
    cases hn : t.next lowest pid with
    | none => simp [parentsLoop]
    | some ppid =>
      obtain ⟨-, -, -, ctime', -, hc', -⟩ := next_iff.1 hn
      simp only [parentsLoop, parent_eq ht hc', ih (parents ++ [ppid]) hc']
      cases follow (t.next lowest) fuel ppid <;> simp

theorem parents_eq_follow (ht : t.Settled) {ctime : τ} (hc : t.createTime pid = .ok ctime) (fuel : Nat) :
    t.parents lowest fuel pid = (follow (t.next lowest) fuel pid).map .ok := by
  rw [parents, parent_eq ht hc]
  simpa using parentsLoop_eq_follow ht fuel [] hc

theorem time_le (h : t.ParentStep lowest pid ppid) : t.time ppid ≤ t.time pid := by
  obtain ⟨-, -, procCtime, ctime, hc, hc', hle⟩ := h
  simpa [time, hc, hc'] using hle

theorem twin_of_time (h : t.ParentStep lowest pid ppid) (heq : t.time pid = t.time ppid) : t.TwinStep lowest pid ppid := by
  refine ⟨h, ?_⟩
  obtain ⟨-, -, procCtime, ctime, hc, hc', -⟩ := h
  rw [time, time, hc, hc'] at heq
  rw [hc, hc', WithBot.coe_injective heq]

/-- The call ends, with every process once and without the process itself. -/
def ParentsEnd (t : Table τ) (lowest self : Nat) : Prop :=
  ∃ n, ∀ fuel, n < fuel → ∃ l, t.parents lowest fuel self = some (.ok l) ∧ l.Nodup ∧ self ∉ l

theorem parentsEnd_iff_follow (ht : t.Settled) {ctime : τ} (hc : t.createTime pid = .ok ctime) :
    t.ParentsEnd lowest pid ↔ ∃ n, ∀ fuel, n < fuel → ∃ l, follow (t.next lowest) fuel pid = some l := by
  simp only [ParentsEnd, parents_eq_follow ht hc, Option.map_eq_some_iff]
  constructor
  · rintro ⟨n, hn⟩
    refine ⟨n, fun fuel hf => ?_⟩
    obtain ⟨-, ⟨l, hl, -⟩, -⟩ := hn fuel hf
    exact ⟨l, hl⟩
  · rintro ⟨n, hn⟩
    refine ⟨n, fun fuel hf => ?_⟩
    obtain ⟨l, hl⟩ := hn fuel hf
    exact ⟨l, ⟨l, hl, rfl⟩, follow_nodup fuel hl⟩

theorem parentsEnd_iff_no_cycle (ht : t.Settled) {ctime : τ} (hc : t.createTime pid = .ok ctime) :
    t.ParentsEnd lowest pid ↔ ¬∃ q, ReflTransGen (t.ParentStep lowest) pid q ∧ TransGen (t.ParentStep lowest) q q := by
  have hstep : Next (t.next lowest) = t.ParentStep lowest := by
    funext a b
    exact propext next_iff
  -- the process and the parents of the map
  let U : Set Nat := insert pid {p | p ∈ t.ppidMap.items.map Prod.snd}
  have hU : U.Finite := (List.finite_toSet _).insert pid
  rw [parentsEnd_iff_follow ht hc, follow_ends_iff hU (Set.mem_insert _ _) fun a _ b hab => ?_, hstep]
  obtain ⟨-, hget, -⟩ := next_iff.1 hab
  exact Set.mem_insert_of_mem _ (List.mem_map.2 ⟨(a, b), Dict.mem_items.2 hget, rfl⟩)

/-- **`parents` ends exactly when** the parents do not lead to a cycle of processes with one creation time. -/
theorem parents_end_iff (t : Table τ) (ht : t.Settled) (lowest self : Nat) (ctime : τ) (hc : t.createTime self = .ok ctime) :
    t.ParentsEnd lowest self ↔
      ¬∃ pid, ReflTransGen (t.ParentStep lowest) self pid ∧ TransGen (t.TwinStep lowest) pid pid := by
  rw [parentsEnd_iff_no_cycle ht hc]
  refine not_congr (exists_congr fun pid => and_congr_right fun _ => ⟨fun hcycle => ?_, fun hcycle => ?_⟩)
  · have hconst := transGen_const (fun a b => time_le) hcycle le_rfl
    have hmono : ∀ a b, t.ParentStep lowest a b ∧ t.time a = t.time b → t.TwinStep lowest a b :=
      fun a b h => twin_of_time h.1 h.2
    exact TransGen.mono hmono pid pid hconst
  · have hmono : ∀ a b, t.TwinStep lowest a b → t.ParentStep lowest a b := fun a b h => h.1
    exact TransGen.mono hmono pid pid hcycle

/-- Two processes of one clock tick, each the parent of the other after their PIDs were reused. -/
def twins : Table Nat := ofItems [(1, 0), (5, 6), (6, 5)] (by decide) [(1, 1), (5, 10), (6, 10)]

theorem parents_never_end : ¬∀ (t : Table Nat), t.Settled → ∀ (lowest self ctime : Nat), t.createTime self = .ok ctime →
    t.ParentsEnd lowest self := by
  intro h
  have hends : twins.ParentsEnd 1 5 := h twins (ofItems_settled _ _ _) 1 5 10 rfl
  have hctime : twins.createTime 5 = .ok 10 := rfl
  refine (parentsEnd_iff_no_cycle (ofItems_settled _ _ _) hctime).1 hends ⟨5, .refl, ?_⟩
  have h56 : twins.ParentStep 1 5 6 := ⟨by decide, rfl, 10, 10, rfl, rfl, le_rfl⟩
  have h65 : twins.ParentStep 1 6 5 := ⟨by decide, rfl, 10, 10, rfl, rfl, le_rfl⟩
  exact .head h56 (.single h65)

theorem parents_end_family : family.ParentsEnd 1 3 := by
  refine (parents_end_iff family (ofItems_settled _ _ _) 1 3 30 rfl).2 ?_
  rintro ⟨pid, -, hcycle⟩
  -- no two of them are equally old
  obtain ⟨q, ⟨⟨-, hget, -⟩, heq⟩, -⟩ := TransGen.head'_iff.1 hcycle
  have hmem : (pid, q) ∈ [(1, 0), (2, 1), (3, 2)] := Dict.mem_items.2 hget
  simp only [List.mem_cons, Prod.mk.injEq, List.not_mem_nil, or_false] at hmem
  rcases hmem with ⟨rfl, rfl⟩ | ⟨rfl, rfl⟩ | ⟨rfl, rfl⟩ <;> cases heq

end Table

end Psutil
