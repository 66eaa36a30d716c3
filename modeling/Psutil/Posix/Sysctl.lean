import Psutil.Common.C
import Psutil.Lib.Blocks
import Psutil.Lib.Loop

/-!
# `psutil_sysctl_malloc` (`arch/posix/sysctl.c:45`)

The kernel may answer every call in its own way, and a table may grow between the question for its size and the copy. Only a
copy that fits in the buffer succeeds. `sysctlMalloc_spec`: what is handed out is one whole answer, on any other way out the
caller's variables stay as they were, and a buffer that is not handed out is freed once.
-/

namespace Psutil.Posix

open Lib

def enomem : Errno := .other 12

/-- `MAX_RETRIES`. -/
def maxRetries : Nat := 10

structure SysctlSystem where
  /-- The size that the `k`-th call without a buffer asks for. -/
  probe : Nat → Except Errno Nat
  /-- The data of the `k`-th call with a buffer, given its size. -/
  read : Nat → Nat → Except Errno Bytes
  read_le : ∀ k size data, read k size = .ok data → data.length ≤ size
  /-- Whether there is memory for the `k`-th block. -/
  memory : Nat → Bool

structure Buffer where
  block : Nat
  contents : Bytes
  deriving DecidableEq

/-- What `buf` and `buflen` point to. -/
structure Out where
  buf : Option Buffer
  buflen : Nat
  deriving DecidableEq

structure SysctlState where
  retries : Nat
  needed : Nat
  heap : Blocks
  probes : Nat
  reads : Nat

structure SysctlResult where
  ret : Int
  out : Out
  err : Option CErr
  heap : Blocks
  reads : Nat

namespace SysctlSystem

variable (sys : SysctlSystem) (out : Out)

/-- `return -1`, with an exception. -/
def fail (heap : Blocks) (reads : Nat) (e : CErr) : SysctlResult := ⟨-1, out, some e, heap, reads⟩

def mallocBody (s : SysctlState) : Round SysctlState SysctlResult :=
  if s.retries = 0 then
    .done (fail out s.heap s.reads (.exc (.runtimeError "sysctl() buffer allocation retry limit exceeded")))
  else
    let calloc := s.heap.alloc s.needed (sys.memory s.heap.requests.length)
    match calloc.2 with
    | none => .done (fail out calloc.1 s.reads .noMemory)
    | some buffer =>
      match sys.read s.reads s.needed with
      | .ok data =>
        let contents := memcpy (List.replicate s.needed 0) 0 data
        .done ⟨0, ⟨some ⟨buffer, contents⟩, data.length⟩, none, calloc.1, s.reads + 1⟩
      | .error errno =>
        let heap := calloc.1.free (some buffer)
        if errno = enomem then
          match sys.probe s.probes with
          | .error errno => .done (fail out heap (s.reads + 1) (.exc (.osError errno)))
          | .ok needed => .next ⟨s.retries - 1, needed, heap, s.probes + 1, s.reads + 1⟩
        else .done (fail out heap (s.reads + 1) (.exc (.osError errno)))

/-- The pointers are not `NULL`. -/
structure SysctlArgs where
  mib : Bool
  miblen : Nat
  buf : Bool
  buflen : Bool

def sysctlMalloc (args : SysctlArgs) (fuel : Nat) : Option SysctlResult :=
  if args.mib = false ∨ args.miblen = 0 ∨ args.buf = false ∨ args.buflen = false then
    some (fail out .empty 0 (psutilBadargs "psutil_sysctl_malloc"))
  else
    match sys.probe 0 with
    | .error errno => some (fail out .empty 0 (.exc (.osError errno)))
    | .ok needed => loop (sys.mallocBody out) fuel ⟨maxRetries, needed, .empty, 1, 0⟩

/-! ## What is returned -/

/-- The last call with a buffer filled it with one whole answer. -/
structure Filled (r : SysctlResult) (size : Nat) (data : Bytes) : Prop where
  read : ∃ k, r.reads = k + 1 ∧ sys.read k size = .ok data
  asked : r.heap.requests.head? = some size
  buflen : r.out.buflen = data.length
  le : r.out.buflen ≤ size
  buf : ∃ buffer, r.out.buf = some buffer ∧ buffer.contents.length = size ∧ buffer.contents.take r.out.buflen = data

structure Returned (r : SysctlResult) : Prop where
  reads_le : r.reads ≤ maxRetries
  ret : r.ret = 0 ∧ r.err = none ∧ (∃ size data, sys.Filled r size data) ∨ r.ret = -1 ∧ r.err ≠ none ∧ r.out = out
  freed : ∀ b, .acquire b ∈ r.heap.log → r.heap.log.count (.acquire b) = 1 ∧
    r.heap.log.count (.release b) = if r.ret = 0 ∧ r.out.buf.map Buffer.block = some b then 0 else 1

variable {sys out}

theorem returned_fail {heap : Blocks} (h : heap.Holds none) {reads : Nat} (hreads : reads ≤ maxRetries) (e : CErr) :
    sys.Returned out (fail out heap reads e) where
  reads_le := hreads
  ret := Or.inr ⟨rfl, Option.some_ne_none _, rfl⟩
  freed b hb := by simpa [fail] using h.counts hb

/-- What holds before a round. -/
structure Retrying (s : SysctlState) : Prop where
  holds : s.heap.Holds none
  reads : s.reads + s.retries = maxRetries

theorem malloc_round {s : SysctlState} (h : Retrying s) :
    (sys.mallocBody out s).Meets (fun s' => Retrying s' ∧ s'.retries < s.retries) (sys.Returned out) := by
  obtain ⟨hholds, hreads⟩ := h
  rw [mallocBody]
  split_ifs with hretries
  · exact returned_fail hholds (by omega) _
  · have hcalloc := hholds.alloc s.needed (sys.memory s.heap.requests.length)
    have hrequests : (s.heap.alloc s.needed (sys.memory s.heap.requests.length)).1.requests.head? = some s.needed := by simp
    generalize s.heap.alloc s.needed (sys.memory s.heap.requests.length) = calloc at *
    obtain ⟨heap, buffer⟩ := calloc
    cases buffer with
    | none => exact returned_fail hcalloc (by omega) _
    | some buffer =>
      dsimp only at *
      cases hread : sys.read s.reads s.needed with
      | ok data =>
        have hle := sys.read_le _ _ _ hread
        have hcontents : memcpy (List.replicate s.needed 0) 0 data = data ++ List.replicate (s.needed - data.length) 0 := by simp [memcpy]
        refine ⟨by dsimp only; omega, Or.inl ⟨rfl, rfl, s.needed, data, ⟨s.reads, rfl, hread⟩, hrequests, rfl, hle, _, rfl, ?_, ?_⟩,
          fun b hb => ?_⟩
        · rw [hcontents, List.length_append, List.length_replicate]
          omega
        · rw [hcontents, List.take_left]
        · simpa using hcalloc.counts hb
      | error errno =>
        dsimp only
        split_ifs with henomem
        · cases sys.probe s.probes with
          | error errno => exact returned_fail hcalloc.free (by omega) _
          | ok needed => exact ⟨⟨hcalloc.free, by dsimp only; omega⟩, by dsimp only; omega⟩
        · exact returned_fail hcalloc.free (by omega) _

/-- **Bounded and atomic**: whatever the kernel answers, the function reads at most ten times, hands out one whole answer or
changes nothing, and frees every other buffer once. -/
theorem sysctlMalloc_spec (sys : SysctlSystem) (out : Out) (args : SysctlArgs) :
    ∃ r, sys.Returned out r ∧ Yields (sys.sysctlMalloc out args) r := by
  by_cases hargs : args.mib = false ∨ args.miblen = 0 ∨ args.buf = false ∨ args.buflen = false
  · refine ⟨_, returned_fail .empty (Nat.zero_le _) (psutilBadargs "psutil_sysctl_malloc"), 0, fun fuel _ => ?_⟩
    rw [sysctlMalloc, if_pos hargs]
  cases hprobe : sys.probe 0 with
  | error errno =>
    refine ⟨_, returned_fail .empty (Nat.zero_le _) (.exc (.osError errno)), 0, fun fuel _ => ?_⟩
    rw [sysctlMalloc, if_neg hargs, hprobe]
  | ok needed =>
    obtain ⟨r, hreturned, enough, hr⟩ := loop_yields (I := Retrying) (Q := sys.Returned out) (fun _ => malloc_round)
      (s := ⟨maxRetries, needed, .empty, 1, 0⟩) ⟨.empty, rfl⟩
    refine ⟨r, hreturned, enough, fun fuel hfuel => ?_⟩
    rw [sysctlMalloc, if_neg hargs, hprobe]
    exact hr fuel hfuel

/-- A table that has grown when it is first read. -/
def growing : SysctlSystem where
  probe k := .ok (if k = 0 then 2 else 4)
  read _ size := if size < 3 then .error enomem else .ok [1, 2, 3]
  read_le := by
    intro k size data h
    split_ifs at h with hsize
    cases h
    exact Nat.le_of_not_lt hsize
  memory _ := true

example : (growing.sysctlMalloc ⟨none, 0⟩ ⟨true, 1, true, true⟩ 2).map (fun r => (r.ret, r.out, r.reads)) =
    some (0, ⟨some ⟨1, [1, 2, 3, 0]⟩, 3⟩, 2) := by decide

end SysctlSystem

end Psutil.Posix
