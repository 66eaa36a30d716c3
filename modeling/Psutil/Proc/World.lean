import Psutil.Lib.Dict
import Mathlib.Data.List.Sort

/-!
# The process table

The operating system as seen by the code: which process holds which PID. Processes are born, exit (and
then stay in the table as zombies), and are reaped, after which their PID is free and may be given to a
new process. Every process of a run has a non-zero monotonic creation time of its own.
-/

namespace Psutil

open Lib

/-- The POSIX platforms the code tells apart. -/
inductive Os where
  | linux | macos | netbsd | freebsd | openbsd | sunos | aix
  deriving DecidableEq, Repr

/-- `LINUX or NETBSD or OSX` (`__init__.py:484`): the creation time is part of the identity. -/
def Os.monotonicIdent : Os → Bool
  | .linux | .macos | .netbsd => true
  | _ => false

/-- How a process ended, as `os.waitpid` reports it. -/
inductive WaitStatus where
  | exited (code : Nat)
  | signaled (sig : Nat)
  deriving DecidableEq, Repr

/-- A process in the table. -/
structure Entry where
  /-- The monotonic creation time: it tells the incarnations of a PID apart. -/
  ctime : Nat
  /-- A child of the calling process, which alone can reap it. -/
  child : Bool
  /-- How it ended, for a zombie. -/
  ended : Option WaitStatus
  deriving DecidableEq, Repr

/-- `used` lists the creation times given out so far, and `ends` how the processes that have ended did so. -/
structure World where
  table : Dict Nat Entry
  used : List Nat
  ends : List (Nat × WaitStatus)

inductive WorldEv where
  | birth (pid ctime : Nat) (child : Bool)
  | exit (pid : Nat) (status : WaitStatus)
  | reap (pid : Nat)
  deriving DecidableEq, Repr

/-- The largest PID: `pid_t` is a 32-bit `int`. -/
def pidMax : Nat := 2147483647

namespace World

def init : World := ⟨∅, [], []⟩

/-- The process that holds a PID. -/
def holder (w : World) (pid : Nat) : Option Entry := w.table.get? pid

/-- A change of the table; one that cannot happen leaves it as it is. -/
def step (w : World) : WorldEv → World
  | .birth pid ctime child =>
    if pid ≠ 0 ∧ pid ≤ pidMax ∧ pid ∉ w.table ∧ ctime ≠ 0 ∧ ctime ∉ w.used then
      { w with table := w.table.set pid ⟨ctime, child, none⟩, used := ctime :: w.used }
    else w
  | .exit pid status => match w.holder pid with
    | some ⟨ctime, child, none⟩ =>
      { w with table := w.table.set pid ⟨ctime, child, some status⟩, ends := (ctime, status) :: w.ends }
    | _ => w
  | .reap pid => match w.holder pid with
    | some ⟨_, _, some _⟩ => { w with table := w.table.erase pid }
    | _ => w

/-- `sorted(_psplatform.pids())` (`__init__.py:1760`). The calling process is always listed, so the
`ret[0]` that follows there finds one. -/
def pids (w : World) : List Nat := w.table.keys.insertionSort (· ≤ ·)

/-! ## What a run of the table keeps -/

/-- PIDs are in range; creation times are not zero and have been given out; the ends of the zombies are known. -/
structure WF (w : World) : Prop where
  pid : ∀ pid e, w.holder pid = some e → pid ≠ 0 ∧ pid ≤ pidMax
  ctime : ∀ pid e, w.holder pid = some e → e.ctime ≠ 0 ∧ e.ctime ∈ w.used
  ended : ∀ pid e status, w.holder pid = some e → e.ended = some status → (e.ctime, status) ∈ w.ends

theorem wf_init : WF init := by constructor <;> simp [init, holder]

/-- The holder of a PID after a step: a new process on a free PID, or the old one, perhaps ended. -/
theorem holder_step {w : World} {ev : WorldEv} {pid : Nat} {e : Entry} (h : (w.step ev).holder pid = some e) :
    (w.holder pid = none ∧ pid ≠ 0 ∧ pid ≤ pidMax ∧ e.ctime ≠ 0 ∧ e.ctime ∉ w.used ∧ e.ctime ∈ (w.step ev).used) ∨
      ∃ e', w.holder pid = some e' ∧ e.ctime = e'.ctime := by
  cases ev with
  | birth p ctime child =>
    by_cases hc : p ≠ 0 ∧ p ≤ pidMax ∧ p ∉ w.table ∧ ctime ≠ 0 ∧ ctime ∉ w.used
    · simp only [step, if_pos hc, holder, Dict.get?_set] at h ⊢
      by_cases hp : pid = p
      · rw [if_pos hp, Option.some.injEq] at h
        subst hp h
        exact Or.inl ⟨Dict.get?_eq_none.2 hc.2.2.1, hc.1, hc.2.1, hc.2.2.2.1, hc.2.2.2.2, List.mem_cons_self⟩
      · exact Or.inr ⟨e, by rwa [if_neg hp] at h, rfl⟩
    · rw [step, if_neg hc] at h
      exact Or.inr ⟨e, h, rfl⟩
  | exit p status =>
    right
    simp only [step] at h
    split at h
    · rename_i ctime child hp
      simp only [holder, Dict.get?_set] at h hp ⊢
      by_cases hpp : pid = p
      · rw [if_pos hpp, Option.some.injEq] at h
        subst hpp h
        exact ⟨_, hp, rfl⟩
      · exact ⟨e, by rwa [if_neg hpp] at h, rfl⟩
    · exact ⟨e, h, rfl⟩
  | reap p =>
    right
    simp only [step] at h
    split at h
    · simp only [holder, Dict.get?_erase] at h ⊢
      by_cases hpp : pid = p
      · rw [if_pos hpp] at h
        cases h
      · exact ⟨e, by rwa [if_neg hpp] at h, rfl⟩
    · exact ⟨e, h, rfl⟩

theorem used_step (w : World) (ev : WorldEv) : ∀ c ∈ w.used, c ∈ (w.step ev).used := by
  intro c hc
  cases ev with
  | birth p ctime child => simp only [step]; split <;> simp [hc]
  | exit p status => simp only [step]; split <;> exact hc
  | reap p => simp only [step]; split <;> exact hc

/-- A zombie after a step was one before it, or has just ended. -/
theorem ended_step {w : World} {ev : WorldEv} {pid : Nat} {e : Entry} {status : WaitStatus}
    (h : (w.step ev).holder pid = some e) (hs : e.ended = some status) :
    w.holder pid = some e ∨ (e.ctime, status) ∈ (w.step ev).ends := by
  cases ev with
  | birth p ctime child =>
    simp only [step] at h
    split at h
    · simp only [holder, Dict.get?_set] at h ⊢
      by_cases hp : pid = p
      · rw [if_pos hp, Option.some.injEq] at h
        subst h
        cases hs
      · exact Or.inl (by rwa [if_neg hp] at h)
    · exact Or.inl h
  | exit p status' =>
    simp only [step] at h ⊢
    split at h
    · simp only [holder, Dict.get?_set] at h ⊢
      by_cases hp : pid = p
      · rw [if_pos hp, Option.some.injEq] at h
        subst h
        cases hs
        exact Or.inr List.mem_cons_self
      · exact Or.inl (by rwa [if_neg hp] at h)
    · exact Or.inl h
  | reap p =>
    simp only [step] at h
    split at h
    · simp only [holder, Dict.get?_erase] at h ⊢
      by_cases hp : pid = p
      · rw [if_pos hp] at h
        cases h
      · exact Or.inl (by rwa [if_neg hp] at h)
    · exact Or.inl h

theorem ends_step (w : World) (ev : WorldEv) : ∀ c ∈ w.ends, c ∈ (w.step ev).ends := by
  intro c hc
  cases ev with
  | birth p ctime child => simp only [step]; split <;> exact hc
  | exit p status => simp only [step]; split <;> simp [hc]
  | reap p => simp only [step]; split <;> exact hc

theorem WF.step {w : World} (h : w.WF) (ev : WorldEv) : (w.step ev).WF := by
  refine ⟨?_, ?_, ?_⟩
  · intro pid e he
    rcases holder_step he with ⟨-, h0, hmax, -⟩ | ⟨e', he', -⟩
    · exact ⟨h0, hmax⟩
    · exact h.pid pid e' he'
  · intro pid e he
    rcases holder_step he with ⟨-, -, -, h0, -, hu⟩ | ⟨e', he', hct⟩
    · exact ⟨h0, hu⟩
    · obtain ⟨h0, hu⟩ := h.ctime pid e' he'
      exact ⟨hct ▸ h0, hct ▸ used_step w ev _ hu⟩
  · intro pid e status he hs
    rcases ended_step he hs with he | hs'
    · exact ends_step w ev _ (h.ended pid e status he hs)
    · exact hs'

/-- An incarnation that no longer holds its PID never holds it again. -/
theorem never_again {w : World} {c pid : Nat} (hu : c ∈ w.used) (h : ∀ e, w.holder pid = some e → e.ctime ≠ c)
    (ev : WorldEv) : ∀ e, (w.step ev).holder pid = some e → e.ctime ≠ c := by
  intro e he hc
  rcases holder_step he with ⟨-, -, -, -, hnew, -⟩ | ⟨e', he', hct⟩
  · exact hnew (hc ▸ hu)
  · exact h e' he' (hct ▸ hc)

theorem mem_pids {w : World} {pid : Nat} : pid ∈ w.pids ↔ ∃ e, w.holder pid = some e := by
  rw [pids, List.mem_insertionSort]
  exact Dict.mem_iff_get?

/-- `sorted` of distinct numbers is strictly increasing. -/
theorem pairwise_lt_insertionSort {l : List Nat} (h : l.Nodup) : (l.insertionSort (· ≤ ·)).Pairwise (· < ·) := by
  have hnd : (l.insertionSort (· ≤ ·)).Nodup := (List.perm_insertionSort _ _).nodup_iff.2 h
  exact ((List.pairwise_insertionSort (· ≤ ·) l).and hnd).imp fun ⟨hle, hne⟩ => lt_of_le_of_ne hle hne

theorem sorted_pids (w : World) : w.pids.Pairwise (· < ·) := pairwise_lt_insertionSort w.table.nodup_keys

end World

end Psutil
