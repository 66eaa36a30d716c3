import Psutil.Common.C
import Psutil.Lib.Blocks
import Psutil.Lib.Loop

/-!
# The descriptors of a process on macOS

| here | there |
| --- | --- |
| `grow`, `enlarge`, `listBody`, `procListFds` | `psutil_proc_list_fds` (`arch/osx/proc_utils.c:225`) |

`procListFds_spec`: the loop ends after a bounded number of blocks, none of them larger than 24 MiB, and the number it
returns is that of the whole table as it was at the last call.
-/

namespace Psutil.Osx

open Lib

/-- `max_size`. -/
def maxSize : Nat := 24 * 1024 * 1024

structure FdSystem where
  /-- `PROC_PIDLISTFD_SIZE`. -/
  entry : Nat
  entry_pos : 0 < entry
  /-- The answer to the call without a buffer. -/
  probe : Int
  probed : PidState
  /-- The number of descriptors at the `k`-th call with a buffer. -/
  table : Nat → Nat
  table_pos : ∀ k, 0 < table k
  /-- The calls that fail, with what `psutil_raise_for_pid` then finds. -/
  failed : Nat → Option PidState
  /-- Whether there is memory for the `k`-th block. -/
  memory : Nat → Bool

structure FdState where
  ret : Int
  fdsSize : Nat
  fdsPointer : Option Nat
  heap : Blocks
  /-- The calls with a buffer so far. -/
  calls : Nat

structure FdResult where
  /-- The block that is returned and `*num_fds`. -/
  result : Except CErr (Option Nat × Int)
  heap : Blocks
  calls : Nat

namespace FdSystem

variable (sys : FdSystem)

/-- As many descriptors as fit. -/
def reply (k size : Nat) : Int :=
  match sys.failed k with
  | some _ => 0
  | none => (sys.entry * min (sys.table k) (size / sys.entry) : Nat)

/-- The inner loop; `none` is an error. -/
def grow (ret : Int) (fdsSize : Nat) : Option Nat :=
  if ret > fdsSize then
    if fdsSize + sys.entry * 32 > maxSize then none else grow ret (fdsSize + sys.entry * 32)
  else some fdsSize
termination_by maxSize - fdsSize
decreasing_by
  have := sys.entry_pos
  omega

/-- `goto error`. -/
def fail (s : FdState) (e : CErr) : FdResult := ⟨.error e, s.heap.free s.fdsPointer, s.calls⟩

/-- A larger block, if `ret` asks for one. -/
def enlarge (s : FdState) : Except FdResult FdState :=
  if s.ret > s.fdsSize then
    match sys.grow s.ret s.fdsSize with
    | none => .error (fail s (.exc (.runtimeError "prevent malloc() to allocate > 24M")))
    | some fdsSize =>
      let heap := s.heap.free s.fdsPointer
      let block := heap.alloc fdsSize (sys.memory heap.requests.length)
      let s := { s with fdsSize := fdsSize, heap := block.1, fdsPointer := block.2 }
      match block.2 with
      | none => .error (fail s .noMemory)
      | some _ => .ok s
  else .ok s

def listBody (s : FdState) : Round FdState FdResult :=
  match sys.enlarge s with
  | .error r => .done r
  | .ok s =>
    let ret := sys.reply s.calls s.fdsSize
    let called := { s with ret := ret, calls := s.calls + 1 }
    if ret ≤ 0 then
      let after := (sys.failed s.calls).getD ⟨none, true, false⟩
      .done (fail called (psutilRaiseForPid after "proc_pidinfo(PROC_PIDLISTFDS) 2/2"))
    else if ret + sys.entry ≥ s.fdsSize then
      -- make room for 1 extra fd
      .next { called with ret := s.fdsSize + sys.entry }
    else .done ⟨.ok (s.fdsPointer, ret / sys.entry), called.heap, called.calls⟩

def procListFds (pid : Int) (numFds : Bool) (fuel : Nat) : Option FdResult :=
  let s : FdState := ⟨sys.probe, 0, none, .empty, 0⟩
  if pid < 0 ∨ numFds = false then some (fail s (psutilBadargs "psutil_proc_list_fds"))
  else if sys.probe ≤ 0 then some (fail s (psutilRaiseForPid sys.probed "proc_pidinfo(PROC_PIDLISTFDS) 1/2"))
  else loop sys.listBody fuel s

variable {sys}

theorem grow_spec {ret : Int} {fdsSize size : Nat} (hle : fdsSize ≤ maxSize) (h : sys.grow ret fdsSize = some size) :
    size ≤ maxSize ∧ ret ≤ size ∧ fdsSize ≤ size ∧ (ret > fdsSize → fdsSize + sys.entry * 32 ≤ size) := by
  fun_induction grow with
  | case1 fdsSize hret hmax => cases h
  | case2 fdsSize hret hmax ih =>
    have := ih (by omega) h
    omega
  | case3 fdsSize hret =>
    cases h
    omega

/-- What was asked for when the buffer has `size` bytes. -/
structure Asked (sys : FdSystem) (heap : Blocks) (size : Nat) : Prop where
  size_le : size ≤ maxSize
  requests_le : ∀ n ∈ heap.requests, n ≤ maxSize
  count : heap.requests.length * (sys.entry * 32) ≤ size

/-- What holds at the end: few blocks, none of them too large, all of them freed but the one that is returned, and the number
of descriptors at the last call. -/
structure Listed (sys : FdSystem) (r : FdResult) : Prop where
  requests_le : ∀ n ∈ r.heap.requests, n ≤ maxSize
  count : r.heap.requests.length ≤ maxSize / (sys.entry * 32) + 1
  failed : ∀ e, r.result = .error e → r.heap.Holds none
  numFds : ∀ p n, r.result = .ok (p, n) → r.heap.Holds p ∧ ∃ k, r.calls = k + 1 ∧ n = sys.table k

theorem Asked.length_le {heap : Blocks} {size : Nat} (h : Asked sys heap size) : heap.requests.length ≤ maxSize / (sys.entry * 32) := by
  have hpos := sys.entry_pos
  rw [Nat.le_div_iff_mul_le (by omega)]
  exact h.count.trans h.size_le

theorem Asked.failed {heap : Blocks} {size : Nat} (h : Asked sys heap size) {p : Option Nat} (hh : heap.Holds p) (e : CErr) (calls : Nat) :
    Listed sys ⟨.error e, heap.free p, calls⟩ where
  requests_le := by simpa using h.requests_le
  count := by simpa using Nat.le_succ_of_le h.length_le
  failed _ _ := hh.free
  numFds _ _ hok := by cases hok

theorem Asked.alloc {heap : Blocks} {size size' : Nat} (h : Asked sys heap size) (hle : size' ≤ maxSize)
    (hgrown : size + sys.entry * 32 ≤ size') (memory : Bool) : Asked sys (heap.alloc size' memory).1 size' where
  size_le := hle
  requests_le := by simpa using ⟨hle, h.requests_le⟩
  count := by
    have hcount := h.count
    rw [Blocks.requests_alloc, List.length_cons, Nat.succ_mul]
    omega

/-- What holds before a round. -/
structure Listing (sys : FdSystem) (s : FdState) : Prop where
  ret_gt : s.ret > s.fdsSize
  asked : Asked sys s.heap s.fdsSize
  holds : s.heap.Holds s.fdsPointer

/-- Before the call, the block is larger than before. -/
theorem enlarge_spec {s : FdState} (h : Listing sys s) :
    (∃ r, sys.enlarge s = .error r ∧ Listed sys r) ∨
      ∃ s', sys.enlarge s = .ok s' ∧ Asked sys s'.heap s'.fdsSize ∧ s'.heap.Holds s'.fdsPointer ∧
        s.fdsSize + sys.entry * 32 ≤ s'.fdsSize := by
  rw [enlarge, if_pos h.ret_gt]
  cases hgrow : sys.grow s.ret s.fdsSize with
  | none => exact Or.inl ⟨_, rfl, h.asked.failed h.holds _ _⟩
  | some size =>
    obtain ⟨hle, -, -, hgrown⟩ := grow_spec h.asked.size_le hgrow
    have hfree : Asked sys (s.heap.free s.fdsPointer) s.fdsSize :=
      ⟨h.asked.size_le, by simpa using h.asked.requests_le, by simpa using h.asked.count⟩
    have hasked := hfree.alloc hle (hgrown h.ret_gt) (sys.memory (s.heap.free s.fdsPointer).requests.length)
    have hholds := h.holds.free.alloc size (sys.memory (s.heap.free s.fdsPointer).requests.length)
    dsimp only
    split
    · exact Or.inl ⟨_, rfl, hasked.failed hholds _ _⟩
    · exact Or.inr ⟨_, rfl, hasked, hholds, hgrown h.ret_gt⟩

/-- A reply that leaves room for one more descriptor has the whole table. -/
theorem reply_eq_table {k size : Nat} (hpos : 0 < sys.reply k size) (hroom : sys.reply k size + sys.entry < size) :
    sys.reply k size / sys.entry = sys.table k := by
  have hentry := sys.entry_pos
  cases hfailed : sys.failed k with
  | some after =>
    simp only [reply, hfailed] at hpos
    omega
  | none =>
    simp only [reply, hfailed] at hroom ⊢
    rw [← Int.natCast_ediv, Nat.mul_div_cancel_left _ hentry, Nat.min_eq_left]
    by_contra hlt
    rw [Nat.min_eq_right (by omega)] at hroom
    have hdiv := Nat.div_add_mod size sys.entry
    have hmod := Nat.mod_lt size hentry
    omega

theorem list_round {s : FdState} (h : Listing sys s) :
    (sys.listBody s).Meets (fun s' => Listing sys s' ∧ maxSize - s'.fdsSize < maxSize - s.fdsSize) (Listed sys) := by
  have hentry := sys.entry_pos
  rcases enlarge_spec h with ⟨r, hr, hlisted⟩ | ⟨s', hs', hasked, hholds, hgrown⟩
  · rw [listBody, hr]
    exact hlisted
  · rw [listBody, hs']
    have hsize := hasked.size_le
    dsimp only
    split_ifs with hret hfull
    · exact hasked.failed hholds _ _
    · exact ⟨⟨by dsimp only; omega, hasked, hholds⟩, by dsimp only; omega⟩
    · refine ⟨hasked.requests_le, Nat.le_succ_of_le hasked.length_le, fun e he => ?_, fun p n hok => ?_⟩
      · cases he
      · cases hok
        exact ⟨hholds, s'.calls, rfl, reply_eq_table (by omega) (by omega)⟩

/-- **The listing ends**, and what it returns is not cut off. -/
theorem procListFds_spec (sys : FdSystem) (pid : Int) (numFds : Bool) : ∃ r, Listed sys r ∧ Yields (sys.procListFds pid numFds) r := by
  have hasked : Asked sys Blocks.empty 0 := ⟨Nat.zero_le _, by simp [Blocks.empty], by simp [Blocks.empty]⟩
  by_cases hargs : pid < 0 ∨ numFds = false
  · refine ⟨_, hasked.failed .empty (psutilBadargs "psutil_proc_list_fds") 0, 0, fun fuel _ => ?_⟩
    rw [procListFds, if_pos hargs]
    rfl
  by_cases hprobe : sys.probe ≤ 0
  · refine ⟨_, hasked.failed .empty (psutilRaiseForPid sys.probed "proc_pidinfo(PROC_PIDLISTFDS) 1/2") 0, 0, fun fuel _ => ?_⟩
    rw [procListFds, if_neg hargs, if_pos hprobe]
    rfl
  obtain ⟨r, hlisted, enough, hr⟩ := loop_yields (I := Listing sys) (fun _ => list_round) (s := ⟨sys.probe, 0, none, .empty, 0⟩)
    ⟨by dsimp only; omega, hasked, .empty⟩
  refine ⟨r, hlisted, enough, fun fuel hfuel => ?_⟩
  rw [procListFds, if_neg hargs, if_neg hprobe]
  exact hr fuel hfuel

/-- A process with 40 descriptors that opens 30 more after the call without a buffer. -/
def opening : FdSystem where
  entry := 8
  entry_pos := by decide
  probe := 320
  probed := ⟨none, true, false⟩
  table _ := 70
  table_pos _ := by decide
  failed _ := none
  memory _ := true

/-- The first block has room for 64 of them, the second one for 96. -/
example : (opening.procListFds 7 true 2).map (fun r => (r.result.toOption, r.heap.requests)) = some (some (some 1, 70), [768, 512]) := by
  simp [procListFds, opening, loop, listBody, enlarge, grow, reply, maxSize, Blocks.alloc, Blocks.free, Blocks.empty, Except.toOption]

end FdSystem

end Psutil.Osx
